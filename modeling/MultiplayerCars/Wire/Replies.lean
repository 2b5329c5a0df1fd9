import Mathlib.Algebra.Order.BigOperators.Group.Finset
import MultiplayerCars.CPPClient.Replies
import MultiplayerCars.Wire.Discovery

/-!
# Replies die out

A position that a client sends goes to everybody, and whoever did not know the client replies with
a position of its own, which goes to everybody as well.  This ends: the server brings nobody its own
position, so a client learns of each of the others once, and it sends a position only in a frame in
which it has learnt of somebody.
-/

namespace MultiplayerCars.Wire

open Lib Lib.Json Lib.Machine CPPClient
open GoServer (ClientId Act Server Pc Thread Packet Peers Begins)

/-! ### Runs without input -/

/-- Nobody uses a keyboard or a mouse. -/
def HandsOff (w : World) : WorldAct → Prop
  | .client i a => Untouched (w.client i) a
  | _ => True

/-- The UUIDs of the members other than the given one. -/
def Foreign (P : Party) (y : ClientId) (v : Text) : Prop :=
  ∃ x ∈ P.members, x ≠ y ∧ v = (P.uuid x).text

/-- The UUIDs of the members that the peers leave out. -/
def LeftOut (P : Party) (peers : Peers) (v : Text) : Prop :=
  (∃ x ∈ P.members, v = (P.uuid x).text) ∧ peers = .others v

/-- What holds in every state of a run without input in which nobody leaves: a position of a client
is on its way to the others only. -/
structure Calm (P : Party) (w : World) : Prop where
  hosted : Hosted P w
  bystander : ∀ i, Bystander (Foreign P i) (w.client i)
  offered : ∀ t l, (w.server.pc t).loop? = some l →
    Welcome (LeftOut P l.peers) l.packet.message.bytes
  aimed : ∀ t l y, w.server.pc t = .send l y → l.peers.admits (P.uuid y).text
  writing : ∀ t, ∀ m ∈ (w.server.pc t).writes, Welcome (Foreign P t.owner) m
  down : ∀ i, ∀ m ∈ w.down i, Welcome (Foreign P i) m

lemma Calm.start (P : Party) : Calm P (World.start P) where
  hosted := Hosted.start P
  bystander := fun i => Bystander.start (P.uuid i) _
  offered := by
    intro t l hl
    cases hl
  aimed := by
    intro t l y hl
    cases hl
  writing := by
    intro t m hm
    exact absurd hm (List.not_mem_nil)
  down := by
    intro i m hm
    exact absurd hm (List.not_mem_nil)

section Calm

variable {P : Party} {w : World}

/-- A loop that begins carries a message that everybody can read, and a position only to those who
have another UUID. -/
lemma Hosted.welcome_begun (h : Hosted P w) {a : Act} {s : Server} (ha : w.serves P a)
    (hs : GoServer.Step w.server a s) {t : Thread} {peers : Peers} {k : Packet}
    (hb : Begins w.server a t peers k) : Welcome (LeftOut P peers) k.message.bytes := by
  cases hb with
  | announce c now =>
    cases hs with
    | announce hc =>
      obtain ⟨hmem, huuid⟩ := h.member c (by rw [hc]; simp)
      obtain ⟨car, hwf⟩ := wellFormed_initPosition w.server c now
      exact welcome_position hwf ⟨⟨c, hmem, huuid⟩, rfl⟩
  | @reply c frame now e peers m he hr =>
    obtain ⟨f, rest, hup, rfl⟩ := up_of_serves ha
    cases hs with
    | readFrame hc =>
      obtain ⟨hmem, huuid⟩ := h.member c
        (h.server.serve_ne_idle_of_pc (t := .read c) (by rw [hc]; simp))
      refine ((welcome_reply (h.honest_up (by rw [hup]; simp)) he _ _).1 peers m hr).mono ?_
      rintro v ⟨rfl, hpeers⟩
      rw [huuid] at hpeers
      exact ⟨⟨c, hmem, rfl⟩, hpeers⟩
  | exit t now =>
    cases hs with
    | delete ht => exact absurd (by rw [ht]; trivial) (h.unbroken t)

/-- What is handed to a client is no position of its own. -/
lemma Calm.welcome_handed (h : Calm P w) {t : Thread} {l : GoServer.RangeLoop} {y : ClientId}
    (ht : w.server.pc t = .send l y) : Welcome (Foreign P y) l.packet.message.bytes := by
  have hl : (w.server.pc t).loop? = some l := by
    rw [ht]
    rfl
  refine (h.offered t l hl).mono ?_
  rintro v ⟨⟨x, hx, rfl⟩, hpeers⟩
  have hadm := h.aimed t l y ht
  rw [hpeers, Peers.admits, bne_iff_ne] at hadm
  exact ⟨x, hx, fun he => hadm (by rw [he]), rfl⟩

lemma Calm.server_step (h : Calm P w) {a : Act} {s : Server} (ha : w.serves P a)
    (hs : GoServer.Step w.server a s) (hno : ∀ t, s.pc t ≠ .removeLock) :
    Calm P { w with server := s, down := w.sent a } where
  hosted := h.hosted.server_step ha hs hno
  bystander := h.bystander
  offered := by
    intro t l hl
    rcases hs.packet_cases h.hosted.server.started hl with ⟨l₀, hl₀, hpeers, hpacket⟩ | hbegins
    · rw [hpeers, hpacket]
      exact h.offered t l₀ hl₀
    · exact h.hosted.welcome_begun ha hs hbegins
  aimed := by
    intro t l y hl
    rcases hs.send_cases hl with hl₀ | ⟨-, l₀, -, ⟨hmem, -, hadm⟩, rfl⟩
    · exact h.aimed t l y hl₀
    · rw [(h.hosted.registered hmem).2] at hadm
      exact hadm
  writing := by
    intro t m hm
    rcases hs.writes_cases h.hosted.server.started hm with
      hm | ⟨t', l, hl, rfl⟩ | ⟨now, rfl⟩ | ⟨frame, now, e, rfl, he, hr⟩
    · exact h.writing t m hm
    · exact h.welcome_handed hl
    · exact welcome_timeStamp _ _ _ _
    · obtain ⟨f, rest, hup, rfl⟩ := up_of_serves ha
      exact absurd hr ((welcome_reply (h.hosted.honest_up (by rw [hup]; simp)) he _ _).2 m)
  down := by
    intro i m hm
    rcases mem_sent hm with hdown | ⟨t, rfl, hwrites⟩
    · exact h.down i m hdown
    · exact h.writing t m hwrites

/-- What a client without input adds to its frames are its positions. -/
lemma Calm.honest_client (h : Calm P w) {i : ClientId} {a : ClientAct} {c : Client}
    (hs : ClientStep (w.client i) a c) :
    ∀ f ∈ c.session.asyncWriteQueue ++ c.session.written, Honest (P.uuid i) f := by
  intro f hf
  have hb := h.bystander i
  rcases hs.sessionStep.frame_cases hb.paced hf with hf | ⟨k, rfl⟩ | ⟨k, rfl⟩ | ⟨-, ht, -⟩
  · exact h.hosted.honest i f hf
  · rw [h.hosted.owner]
    exact .position (k := k) ⟨hb.onScreen.left, hb.onScreen.right⟩
      ⟨hb.onScreen.top, hb.onScreen.bottom⟩ (by dsimp only)
  · refine .other (isPosition_colorFrame k) ?_
    dsimp only
    exact noPosition_colorFrame k
  · rw [hb.silent] at ht
    cases ht

/-- One client moves, and takes a message off its connection if it is handed one. -/
lemma Calm.client_step (h : Calm P w) {i : ClientId} {a : ClientAct} {c : Client}
    (hu : Untouched (w.client i) a) (hbrings : Brings (Greets (Foreign P i)) a)
    (hs : ClientStep (w.client i) a c) {down : ClientId → List Text}
    (hdown : ∀ j, down j ⊆ w.down j) :
    Calm P { w with client := Function.update w.client i c, down := down } where
  hosted := h.hosted.client_step hs (h.honest_client hs)
  bystander := fun j => forall_update (p := fun j c => Bystander (Foreign P j) c) (h.bystander j)
    fun hi => hi.step hu hbrings hs
  offered := h.offered
  aimed := h.aimed
  writing := h.writing
  down := fun j m hm => h.down j m (hdown j hm)

/-- A message that arrives is no exit, and no position of the client's own. -/
lemma Calm.brings (h : Calm P w) {i : ClientId} {msg : Text} {rest : List Text}
    (hd : w.down i = msg :: rest) : Brings (Greets (Foreign P i)) (.onMessage msg) := by
  obtain ⟨u, hu, hexit, hpos⟩ := h.down i msg (by rw [hd]; simp)
  exact ⟨u, hu, hexit, hpos⟩

theorem Calm.step (h : Calm P w) {a : WorldAct} {w' : World} (ha : HandsOff w a)
    (hno : Staying w') (hs : WorldStep P w a w') : Calm P w' := by
  cases hs with
  | server hserves hs => exact h.server_step hserves hs hno
  | @client i a c hm hs =>
    refine h.client_step ha ?_ hs fun j => List.Subset.refl _
    cases a with
    | onMessage msg => exact absurd rfl (hm msg)
    | _ => trivial
  | @deliver i msg rest c hd hs =>
    have hu : Untouched (w.client i) (.onMessage msg) := trivial
    refine h.client_step hu (h.brings hd) hs fun j => ?_
    by_cases hj : j = i
    · subst hj
      rw [Function.update_self, hd]
      exact List.subset_cons_self _ _
    · rw [Function.update_of_ne hj]
      exact List.Subset.refl _

theorem calm_of_exec {l : List (World × WorldAct)} (h : (world P).Exec l w)
    (hoff : Meets HandsOff l) (hstay : Always Staying l w) : Calm P w :=
  h.invariant_of_always (P := Calm P) (Calm.start P)
    (fun _ _ _ hc ha hno hs => hc.step ha hno (worldStep_of_step hs)) hoff hstay

end Calm

/-! ### Sending and learning -/

/-- A client calls `sendPosition`. -/
def calls (x : World × WorldAct) : Bool :=
  match x.2 with
  | .client i (.move _) => (x.1.client i).gui.move
  | _ => false

/-- A client calls `sendPosition`, and the session is ready, so that a frame is sent. -/
def sends (x : World × WorldAct) : Bool :=
  match x.2 with
  | .client i (.move ready) => (x.1.client i).gui.move && ready
  | _ => false

namespace World

/-- The other members that a client has on its screen. -/
def known (P : Party) (w : World) (i : ClientId) : Finset ClientId :=
  (P.members.erase i).filter fun j => (w.client i).gui.externalplayers (P.uuid j).text ≠ none

/-- How often a client has learnt of somebody, less the reply that it has still to send. -/
def credit (P : Party) (w : World) (i : ClientId) : ℕ :=
  (w.known P i).card - (w.client i).gui.move.toNat

end World

section

variable {P : Party} {w : World}

lemma mem_known {i j : ClientId} :
    j ∈ w.known P i ↔ j ∈ P.members.erase i ∧ (w.client i).knows (P.uuid j).text :=
  Finset.mem_filter

/-- A client that has still to reply knows somebody. -/
lemma Calm.known_pos (h : Calm P w) {i : ClientId} (hm : (w.client i).gui.move = true) :
    0 < (w.known P i).card := by
  obtain ⟨v, ⟨x, hx, hne, rfl⟩, hknows⟩ := (h.bystander i).greeted hm
  exact Finset.card_pos.mpr ⟨x, mem_known.mpr ⟨Finset.mem_erase.mpr ⟨hne, hx⟩, hknows⟩⟩

lemma credit_congr {w' : World} {i : ClientId} (h : w'.client i = w.client i) :
    w'.credit P i = w.credit P i := by
  rw [World.credit, World.credit, World.known, World.known, h]

/-- A step of a client does not lower its credit. -/
lemma Calm.credit_le (h : Calm P w) {w' : World} {i : ClientId} {a : ClientAct}
    (hu : Untouched (w.client i) a) (hs : ClientStep (w.client i) a (w'.client i)) :
    w.credit P i ≤ w'.credit P i := by
  have hmove : (w'.client i).gui.move.toNat ≤ 1 := Bool.toNat_le _
  rw [World.credit, World.credit]
  cases (h.bystander i).learning hu hs with
  | nothing hk hm =>
    have hknown : w'.known P i = w.known P i := by
      ext j
      rw [mem_known, mem_known, hk]
    have hle : (w'.client i).gui.move.toNat ≤ (w.client i).gui.move.toNat :=
      Bool.toNat_le_toNat fun hm' => (hm hm').1
    rw [hknown]
    omega
  | newcomer ha hp hnew hk =>
    obtain ⟨x, hx, hne, rfl⟩ := hp
    have hknown : w'.known P i = insert x (w.known P i) := by
      ext j
      rw [Finset.mem_insert, mem_known, mem_known, hk]
      constructor
      · rintro ⟨hj, hold | hj'⟩
        · exact Or.inr ⟨hj, hold⟩
        · exact Or.inl (P.distinct j (Finset.mem_of_mem_erase hj) x hx (UuidV4.ext hj'))
      · rintro (rfl | ⟨hj, hold⟩)
        · exact ⟨Finset.mem_erase.mpr ⟨hne, hx⟩, Or.inr rfl⟩
        · exact ⟨hj, Or.inl hold⟩
    have hx' : x ∉ w.known P i := fun hmem => hnew (mem_known.mp hmem).2
    rw [hknown, Finset.card_insert_of_notMem hx']
    omega

/-- A call of `sendPosition` gives back what was taken off the credit. -/
lemma Calm.credit_lt (h : Calm P w) {w' : World} {i : ClientId} {ready : Bool}
    (hm : (w.client i).gui.move = true)
    (hs : ClientStep (w.client i) (.move ready) (w'.client i)) :
    w.credit P i < w'.credit P i := by
  have hu : Untouched (w.client i) (.move ready) := trivial
  have hpos := h.known_pos hm
  rw [World.credit, World.credit, hm, Bool.toNat_true]
  cases (h.bystander i).learning hu hs with
  | nothing hk hm' =>
    have hknown : w'.known P i = w.known P i := by
      ext j
      rw [mem_known, mem_known, hk]
    have hoff : (w'.client i).gui.move = false := by
      by_contra hset
      exact (hm' (by simpa using hset)).2 ready rfl
    rw [hknown, hoff, Bool.toNat_false]
    omega
  | newcomer ha => cases ha

/-- Who acts is a member. -/
lemma member_of_step {w' : World} {i : ClientId} {a : ClientAct}
    (hs : (world P).step w (.client i a) = some w') : i ∈ P.members := by
  simp only [world, World.step, Option.ite_none_right_eq_some, World.lets, Bool.and_eq_true,
    decide_eq_true_eq] at hs
  exact hs.1.1.1

/-- Where one client moves, nobody's credit shrinks. -/
lemma Calm.credits_le (h : Calm P w) {w' : World} {i : ClientId} {a : ClientAct} {c : Client}
    (hu : Untouched (w.client i) a) (hs : ClientStep (w.client i) a c)
    (hw : w'.client = Function.update w.client i c) (j : ClientId) :
    w.credit P j ≤ w'.credit P j := by
  by_cases hj : j = i
  · subst hj
    refine h.credit_le hu ?_
    rw [hw, Function.update_self]
    exact hs
  · refine (credit_congr ?_).ge
    rw [hw, Function.update_of_ne hj]

/-- The credits together grow by one with every call of `sendPosition`, and never shrink. -/
theorem Calm.credits_step (h : Calm P w) {a : WorldAct} {w' : World} (ha : HandsOff w a)
    (hs : (world P).step w a = some w') :
    (∑ i ∈ P.members, w.credit P i) + (if calls (w, a) then 1 else 0)
      ≤ ∑ i ∈ P.members, w'.credit P i := by
  have hmember := fun i b (he : a = .client i b) => member_of_step (he ▸ hs)
  cases worldStep_of_step hs with
  | server hserves hstep => exact le_rfl
  | @client i b c hm hstep =>
    have hle : ∀ j, w.credit P j
        ≤ World.credit P { w with client := Function.update w.client i c } j :=
      h.credits_le ha hstep rfl
    by_cases hcall : calls (w, .client i b)
    · rw [if_pos hcall]
      cases b with
      | move ready =>
        have hself : ClientStep (w.client i) (.move ready) (Function.update w.client i c i) := by
          rw [Function.update_self]
          exact hstep
        exact Finset.sum_lt_sum (fun j _ => hle j) ⟨i, hmember i _ rfl, h.credit_lt hcall hself⟩
      | _ => cases hcall
    · rw [if_neg hcall]
      exact Finset.sum_le_sum fun j _ => hle j
  | @deliver i msg rest c hd hstep =>
    have hu : Untouched (w.client i) (.onMessage msg) := trivial
    exact Finset.sum_le_sum fun j _ => h.credits_le hu hstep rfl j

/-- The credit of a client is at most the number of the others. -/
lemma credits_bounded (P : Party) (w : World) :
    ∑ i ∈ P.members, w.credit P i ≤ P.members.card * (P.members.card - 1) := by
  rw [← Finset.sum_const_nat (f := fun _ => P.members.card - 1) fun _ _ => rfl]
  refine Finset.sum_le_sum fun i hi => ?_
  rw [← Finset.card_erase_of_mem hi]
  exact (Nat.sub_le _ _).trans (Finset.card_filter_le _ _)

/-! ### The frame in which a position is sent -/

/-- The client comes to the top of its main loop. -/
def Opens (i : ClientId) (_ : World) (a : WorldAct) : Prop := a = .client i .posEmpty

/-- The position block of the client takes the position of a player who was not known. -/
def Gains (i : ClientId) (w : World) (a : WorldAct) : Prop :=
  a = .client i .posFront ∧ ∃ c, (w.client i).step .posFront = some c ∧
    ∃ uuid, ¬ (w.client i).knows uuid ∧ c.knows uuid

lemma step_client {w' : World} {i : ClientId} {a : ClientAct}
    (hs : (world P).step w (.client i a) = some w') :
    (w.client i).step a = some (w'.client i) := by
  simp only [world, World.step, Option.ite_none_right_eq_some, Option.map_eq_some_iff] at hs
  obtain ⟨-, c, hc, rfl⟩ := hs
  rw [hc]
  simp

/-- When `move` is set, the client has learnt of somebody in the same frame. -/
theorem since_of_move {l : List (World × WorldAct)} (h : (world P).Exec l w)
    (hoff : Meets HandsOff l) (hstay : Always Staying l w) {i : ClientId}
    (hm : (w.client i).gui.move = true) : Since (Gains i) (Opens i) l := by
  induction h with
  | nil => cases hm
  | @snoc l w w' a hl hs ih =>
    obtain ⟨hoff, ha⟩ := meets_snoc.mp hoff
    have hstay := (always_snoc.mp hstay).1
    have hcalm := calm_of_exec hl hoff hstay
    rw [since_snoc]
    have hold : (w.client i).gui.move = true → ¬ Opens i w a →
        Gains i w a ∨ (Since (Gains i) (Opens i) l ∧ ¬ Opens i w a) :=
      fun hm hno => Or.inr ⟨ih hoff hstay hm, hno⟩
    cases a with
    | server a =>
      cases worldStep_of_step hs with
      | server => exact hold hm (by simp [Opens])
    | deliver j =>
      cases worldStep_of_step hs with
      | @deliver _ msg rest c hd hstep =>
        refine hold ?_ (by simp [Opens])
        by_cases hj : i = j
        · subst hj
          dsimp only at hm
          rw [Function.update_self] at hm
          have hu : Untouched (w.client i) (.onMessage msg) := trivial
          rcases (hcalm.bystander i).move_cases hu hstep hm with ⟨hm, -⟩ | ⟨he, -⟩
          · exact hm
          · cases he
        · dsimp only at hm
          rwa [Function.update_of_ne hj] at hm
    | client j a =>
      by_cases hj : i = j
      · subst hj
        have hstep := step_client hs
        rcases (hcalm.bystander i).move_cases ha (clientStep_of_step hstep) hm with
          ⟨hm, hne⟩ | ⟨rfl, huuid⟩
        · exact hold hm fun ho => hne (WorldAct.client.inj ho).2
        · exact Or.inl ⟨rfl, w'.client i, hstep, huuid⟩
      · cases worldStep_of_step hs with
        | client =>
          dsimp only at hm
          rw [Function.update_of_ne hj] at hm
          exact hold hm fun ho => hj (WorldAct.client.inj ho).1.symm

/-- **Replies die out.**  In every run without input in which nobody leaves, the members send at
most `n * (n - 1)` positions, whatever the batch passes drop and whenever the sessions are ready;
and a client that sends its position has learnt of somebody in the same frame of its main loop. -/
theorem replies_die_out {l : List (World × WorldAct)} (h : (world P).Exec l w)
    (hoff : Meets HandsOff l) (hstay : Always Staying l w) :
    l.countP sends ≤ P.members.card * (P.members.card - 1) ∧
      Along (fun l₁ w₁ a => ∀ i ready, a = .client i (.move ready) →
        (w₁.client i).gui.move = true → Since (Gains i) (Opens i) l₁) l := by
  refine ⟨?_, ?_⟩
  · have hcalls : l.countP calls ≤ ∑ i ∈ P.members, w.credit P i :=
      h.countP_le (I := Calm P) (Calm.start P)
        (fun _ _ _ hc ha hno hs => hc.step ha hno (worldStep_of_step hs))
        (fun _ _ _ hc ha hs => hc.credits_step ha hs) hoff hstay
    refine ((List.countP_mono_left fun x _ hx => ?_).trans hcalls).trans (credits_bounded P w)
    obtain ⟨w₁, a⟩ := x
    cases a with
    | client i a =>
      cases a with
      | move ready =>
        have hboth : (w₁.client i).gui.move && ready := hx
        exact (Bool.and_eq_true_iff.mp hboth).1
      | _ => cases hx
    | _ => cases hx
  · induction h with
    | nil => simp [Along]
    | @snoc l w w' a hl hs ih =>
      obtain ⟨hoff, -⟩ := meets_snoc.mp hoff
      have hstay := (always_snoc.mp hstay).1
      exact along_snoc.mpr ⟨ih hoff hstay, fun i ready _ hm => since_of_move hl hoff hstay hm⟩

end

/-! ### Two clients that greet each other -/

/-- A check that neither the keyboard nor the mouse is used. -/
def isHandsOff (x : World × WorldAct) : Bool :=
  match x.2 with
  | .client _ (.keys pressed) => pressed == ⟨false, false, false, false⟩
  | .client _ (.mouse color send _) => color.isNone && !send
  | .client i (.typing textmessage enter) =>
    textmessage == (x.1.client i).textmessage && !enter
  | _ => true

lemma meet_handsOff : metWorld.1.all isHandsOff ∧ metWorld.1.countP sends = 2 := by
  decide +kernel

lemma meets_handsOff : Meets HandsOff metWorld.1 := by
  rintro ⟨w, a⟩ hx
  have hcheck := List.all_eq_true.mp meet_handsOff.1 _ hx
  cases a with
  | client i a =>
    cases a with
    | keys pressed => exact beq_iff_eq.mp hcheck
    | mouse color send ready =>
      have hboth : color.isNone ∧ send = false := by simpa [isHandsOff] using hcheck
      exact ⟨Option.isNone_iff_eq_none.mp hboth.1, hboth.2⟩
    | typing textmessage enter =>
      have hboth : textmessage = (w.client i).textmessage ∧ enter = false := by
        simpa [isHandsOff] using hcheck
      exact hboth
    | _ => trivial
  | _ => trivial

theorem replies_die_out_pair :
    metWorld.1.countP sends = 2 ∧ 2 ≤ pair.members.card * (pair.members.card - 1) := by
  have hstay := staying_of_unbroken exec_meet (unbroken_of_isSteady meet_check.1)
  have hbound := (replies_die_out exec_meet meets_handsOff hstay).1
  have htwo := meet_handsOff.2
  rw [htwo] at hbound
  exact ⟨htwo, hbound⟩

end MultiplayerCars.Wire
