import MultiplayerCars.GoServer.Setup
import MultiplayerCars.GoServer.Goroutine

/-!
# Delivery from one client to another

The reader of a client handles its frames one after the other, and sends what follows from a
frame to its peers before it reads the next one.  So a peer receives what follows from the frames
of one client in the order in which they were read, at most once for each frame, and exactly
once when the frame is broadcast and the peer stays registered through the whole loop.
-/

namespace MultiplayerCars.GoServer

open Lib Lib.Json Lib.Machine

/-! ### Copies of frames -/

/-- The frame of `a` from which the packet follows. -/
def Packet.frameOf (a : ClientId) (k : Packet) : Option ℕ :=
  match k.cause with
  | .frame n _ => if k.src = a then some n else none
  | _ => none

/-- The frames of `a` from which the packets follow, in the order of the packets. -/
def framesFrom (a : ClientId) (ks : List Packet) : List ℕ := ks.filterMap (·.frameOf a)

/-- The goroutine is in the range loop that handles the frame `n`. -/
def Pc.Handles (n : ℕ) : Pc → Prop
  | .range l | .send l _ => ∃ type, l.packet.cause = .frame n type
  | _ => False

/-- The range loop has still to hand its message to `b`, if it does so at all. -/
def Pc.Spares (b : ClientId) : Pc → Prop
  | .range l => b ∉ l.seen
  | .send l p => p = b ∨ b ∉ l.seen
  | _ => True

/-- The receiver that a sender is blocked on has been marked as produced. -/
def Pc.Marked : Pc → Prop
  | .send l p => p ∈ l.seen
  | _ => True

lemma frameOf_eq_some {a : ClientId} {k : Packet} {n : ℕ} :
    k.frameOf a = some n ↔ k.src = a ∧ ∃ type, k.cause = .frame n type := by
  rw [Packet.frameOf]
  cases k.cause with
  | frame n' type =>
    dsimp only
    split_ifs with h
    · simp [h]
    · simp [h]
  | _ => simp

lemma framesFrom_snoc (a : ClientId) (ks : List Packet) (k : Packet) :
    framesFrom a (ks ++ [k]) = framesFrom a ks ++ (k.frameOf a).toList := by
  cases h : k.frameOf a <;> simp [framesFrom, h]

lemma handles_next (n : ℕ) (l : RangeLoop) : ¬ l.next.Handles n := by
  rw [RangeLoop.next]
  split <;> exact id

lemma not_handles_of_no_loop {p : Pc} {n : ℕ} (h : p.loop? = none) : ¬ p.Handles n := by
  cases p <;> first | exact id | cases h

/-- A goroutine comes to handle a frame when it reads it, and goes on to the end of the loop. -/
lemma Goes.handles {s : Server} {a : Act} {t : Thread} {p q : Pc} (hg : Goes s a t p q) {n : ℕ}
    (hq : q.Handles n) :
    (p.Handles n ∧ ∀ b, q.Spares b → p.Spares b) ∨
      (∃ c frame now, a = .readFrame c frame now ∧ t = .read c ∧ n = s.frames c) := by
  cases hg with
  | pick hp =>
    refine Or.inl ⟨hq, fun b hs => ?_⟩
    rcases hs with rfl | hb
    · exact hp.2.1
    · exact fun hmem => hb (Finset.mem_insert_of_mem hmem)
  | handoff => exact Or.inl ⟨hq, fun b hs => Or.inr hs⟩
  | @readFrame c frame now =>
    refine Or.inr ⟨c, frame, now, rfl, rfl, ?_⟩
    rw [Server.handled] at hq
    split at hq
    · exact hq.elim
    · split at hq
      · exact hq.elim
      · obtain ⟨type, htype⟩ := hq
        injection htype with hn _
        exact hn.symm
      · exact hq.elim
  | endRange => exact absurd hq (handles_next n _)
  | @pingDone _ ok => cases ok <;> exact hq.elim
  | @tickDone _ ok => cases ok <;> exact hq.elim
  | check => split_ifs at hq <;> exact hq.elim
  | announce =>
    obtain ⟨type, htype⟩ := hq
    cases htype
  | delete =>
    obtain ⟨type, htype⟩ := hq
    cases htype
  | _ => exact hq.elim

lemma Goes.marked {s : Server} {a : Act} {t : Thread} {p q : Pc} (hg : Goes s a t p q) :
    q.Marked := by
  cases hg with
  | pick => exact Finset.mem_insert_self _ _
  | endRange =>
    rw [RangeLoop.next]
    split <;> trivial
  | readFrame =>
    rw [Server.handled]
    split
    · trivial
    · split <;> trivial
  | @pingDone _ ok => cases ok <;> trivial
  | @tickDone _ ok => cases ok <;> trivial
  | check => split_ifs <;> trivial
  | _ => trivial

/-- What is sent for a frame of `a` the reader of `a` sends. -/
lemma Inv.sender_of_frame {s : Server} (hi : Inv s) {t : Thread} {l : RangeLoop}
    {a p : ClientId} {n : ℕ} (ht : s.pc t = .send l p) (hk : l.packet.frameOf a = some n) :
    t = .read a ∧ (s.pc (.read a)).Handles n := by
  obtain ⟨rfl, type, hcause⟩ := frameOf_eq_some.mp hk
  have hh : t.Hosts (.send l p) := hi.placed.hosts_of_eq ht
  cases t with
  | serve c =>
    have hann : l.packet.cause = .announce := hh.2
    rw [hcause] at hann
    cases hann
  | read c =>
    have hsrc : l.packet.src = c := hh.1
    rw [hsrc, ht]
    exact ⟨rfl, type, hcause⟩
  | write c =>
    have hexit : l.packet.cause = .exit := hh.2
    rw [hcause] at hexit
    cases hexit

/-! ### The invariant of a pair -/

/-- What `b` has received for the frames of `a` is in order, without repetitions, and does not
reach beyond the frame that the reader of `a` is handling. -/
structure InOrder (a b : ClientId) (s : Server) : Prop where
  increasing : (framesFrom a (s.received b)).Pairwise (· < ·)
  counted : ∀ n ∈ framesFrom a (s.received b), n < s.frames a
  current : ∀ n, (s.pc (.read a)).Handles n → n + 1 = s.frames a
  spared : ∀ n, (s.pc (.read a)).Handles n → (s.pc (.read a)).Spares b →
    n ∉ framesFrom a (s.received b)
  marked : (s.pc (.read a)).Marked

theorem InOrder.init (a b : ClientId) : InOrder a b Server.init where
  increasing := List.Pairwise.nil
  counted := fun _ hn => absurd hn (by simp [framesFrom, Server.init])
  current := fun _ hn => hn.elim
  spared := fun _ hn => hn.elim
  marked := trivial

/-- A reader that handles a frame reads no other. -/
lemma Step.frames_of_handles {s s' : Server} {x : Act} (hs : Step s x s') {a : ClientId} {n : ℕ}
    (h : (s.pc (.read a)).Handles n) : s'.frames a = s.frames a := by
  rcases hs.frames_cases a with he | ⟨frame, now, -, hread, -⟩
  · exact he
  · rw [hread] at h
    exact h.elim

/-- Where the reader of `a` handles a frame after a step, it did so before and has not gone on to
`b` since, or it has just read the frame. -/
lemma Step.handles {s s' : Server} {x : Act} (hs : Step s x s') (hst : Started s) {a : ClientId}
    {n : ℕ} (h : (s'.pc (.read a)).Handles n) :
    ((s.pc (.read a)).Handles n ∧
        ∀ b, (s'.pc (.read a)).Spares b → (s.pc (.read a)).Spares b) ∨
      (n = s.frames a ∧ s'.frames a = n + 1) := by
  rcases hs.goes hst (.read a) with he | hg
  · rw [he] at h ⊢
    exact Or.inl ⟨h, fun _ hb => hb⟩
  · rcases hg.handles h with hold | ⟨c, frame, now, rfl, ht, rfl⟩
    · exact Or.inl hold
    · cases ht
      right
      rcases hs.frames_cases a with he | ⟨_, _, -, -, he⟩
      · cases hs with
        | readFrame =>
          obtain ⟨q, color, -, heq⟩ := readFrame_cases s a frame now
          rw [heq] at he
          simp at he
      · exact ⟨rfl, he⟩

/-- What `b` has received for the frames of `a` stays, or the reader of `a` hands `b` a copy of the
frame that it handles. -/
lemma Step.framesFrom_cases {s s' : Server} {x : Act} (hs : Step s x s') (hi : Inv s)
    (a b : ClientId) :
    framesFrom a (s'.received b) = framesFrom a (s.received b) ∨
      ∃ l n, s.pc (.read a) = .send l b ∧ s'.pc (.read a) = .range l ∧
        (s.pc (.read a)).Handles n ∧
        framesFrom a (s'.received b) = framesFrom a (s.received b) ++ [n] := by
  rcases hs.received_cases b with heq | ⟨t, l, rfl, ht, heq⟩
  · exact Or.inl (by rw [heq])
  · rw [heq, framesFrom_snoc]
    cases hk : l.packet.frameOf a with
    | none => exact Or.inl (by simp)
    | some n =>
      obtain ⟨rfl, hn⟩ := hi.sender_of_frame ht hk
      refine Or.inr ⟨l, n, ht, ?_, hn, rfl⟩
      cases hs with
      | handoff ht₀ hw =>
        rw [ht] at ht₀
        cases ht₀
        rw [Server.goto_pc_of_ne (by simp), Server.goto_pc_self]

theorem InOrder.step {a b : ClientId} {s s' : Server} {x : Act} (h : InOrder a b s) (hi : Inv s)
    (hs : Step s x s') : InOrder a b s' := by
  have hle : s.frames a ≤ s'.frames a := by
    rcases hs.frames_cases a with he | ⟨_, _, -, -, he⟩ <;> omega
  have hmarked : (s'.pc (.read a)).Marked := by
    rcases hs.goes hi.started (.read a) with he | hg
    · rw [he]
      exact h.marked
    · exact hg.marked
  have hcurrent : ∀ n, (s'.pc (.read a)).Handles n → n + 1 = s'.frames a := by
    intro n hn
    rcases hs.handles hi.started hn with ⟨hold, -⟩ | ⟨-, he⟩
    · rw [hs.frames_of_handles hold]
      exact h.current n hold
    · exact he.symm
  -- what the reader still spares `b` of is not among what `b` has received before the step
  have hspared : ∀ n, (s'.pc (.read a)).Handles n → (s'.pc (.read a)).Spares b →
      n ∉ framesFrom a (s.received b) := by
    intro n hn hb
    rcases hs.handles hi.started hn with ⟨hold, hsp⟩ | ⟨rfl, -⟩
    · exact h.spared n hold (hsp b hb)
    · exact fun hmem => absurd (h.counted _ hmem) (lt_irrefl _)
  rcases hs.framesFrom_cases hi a b with hsame | ⟨l, n, ht, hafter, hn, hsnoc⟩
  · refine ⟨?_, ?_, hcurrent, ?_, hmarked⟩
    · rw [hsame]
      exact h.increasing
    · rw [hsame]
      exact fun n hn => (h.counted n hn).trans_le hle
    · rw [hsame]
      exact hspared
  · have hnew : n ∉ framesFrom a (s.received b) := by
      refine h.spared n hn ?_
      rw [ht]
      exact Or.inl rfl
    have hcur := h.current n hn
    have hbelow : ∀ k ∈ framesFrom a (s.received b), k < n := by
      intro k hk
      have hlt := h.counted k hk
      have hne : k ≠ n := fun he => hnew (he ▸ hk)
      omega
    refine ⟨?_, ?_, hcurrent, ?_, hmarked⟩
    · rw [hsnoc, List.pairwise_append]
      refine ⟨h.increasing, List.pairwise_singleton _ _, ?_⟩
      intro k hk k' hk'
      rw [List.mem_singleton.mp hk']
      exact hbelow k hk
    · rw [hsnoc]
      intro k hk
      rcases List.mem_append.mp hk with hk | hk
      · exact (h.counted k hk).trans_le hle
      · rw [List.mem_singleton.mp hk]
        omega
    · -- `b` has been marked, so the loop does not come back to it
      intro k _ hsp
      rw [hafter] at hsp
      have hm : b ∈ l.seen := by
        have := h.marked
        rwa [ht] at this
      exact absurd hm hsp

theorem inOrder_of_exec {l : List (Server × Act)} {s : Server} (h : manager.Exec l s)
    (a b : ClientId) : InOrder a b s := by
  have hboth : Inv s ∧ InOrder a b s := by
    refine h.invariant (I := fun s => Inv s ∧ InOrder a b s) ⟨Inv.init, InOrder.init a b⟩ ?_
    rintro s x s' ⟨hi, ho⟩ hs
    exact ⟨hi.step (step_cases hs), ho.step hi (step_cases hs)⟩
  exact hboth.2

/-! ### Frames that are broadcast -/

/-- The event is a position, a colour that can be decoded, or a text to everybody that can be
decoded. -/
def Event.ForPeers (e : Event) : Prop :=
  e.type = eventPositionMessage ∨
    (e.type = eventColorUpdateMessage ∧ (unmarshalColorUpdateEvent e.payload).isSome) ∨
    (e.type = eventTextUpdateMessage ∧
      ∃ t, unmarshalTextUpdateEvent e.payload = some t ∧ t.global)

/-- A handler broadcasts for a position, for a colour, and for a text to everybody. -/
theorem routeEvent_broadcasts_iff {e : Event} {c : Client} {now : Text} :
    (∃ m, (routeEvent e c now).2 = .send (.others c.uuid) m) ↔ e.ForPeers := by
  simp only [Event.ForPeers, routeEvent, handlePosition, handleColorUpdate, handleTextUpdate,
    handlePositionDebug]
  split_ifs with h₁ h₂ h₃ h₄
  · simp [h₁]
  · cases unmarshalColorUpdateEvent e.payload with
    | none => simp [h₂, eventColorUpdateMessage, eventPositionMessage, eventTextUpdateMessage]
    | some col => simp [h₂]
  · cases unmarshalTextUpdateEvent e.payload with
    | none => simp [h₃, eventColorUpdateMessage, eventPositionMessage, eventTextUpdateMessage]
    | some t =>
      cases hg : t.global <;>
        simp [h₃, hg, eventColorUpdateMessage, eventPositionMessage, eventTextUpdateMessage]
  · simp [h₁, h₂, h₃]
  · simp [h₁, h₂, h₃]

/-- A loop that has still to reach `b` with what follows from a frame handles the frame. -/
lemma handles_of_aims {p : Pc} {peers : Peers} {k : Packet} {b : ClientId} {n : ℕ} {type : ℤ}
    (h : p.Aims peers k b) (hk : k.cause = .frame n type) : p.Handles n := by
  cases p with
  | range l => exact ⟨type, by rw [h.2.1, hk]⟩
  | send l q => exact ⟨type, by rw [h.2.1, hk]⟩
  | _ => exact h.elim

/-- A client that stays registered while its peer's frame is broadcast is on the way of that
broadcast until it has received the copy. -/
lemma owed_or_received {a b : ClientId} {l : List (Server × Act)} {s : Server}
    (h : manager.Exec l s) {s₁ : Server} {frame now : Text} {e : Event} {peers : Peers}
    {m : Message} (hx : (s₁, Act.readFrame a frame now) ∈ l)
    (he : unmarshalEvent frame = some e) (hr : (routeEvent e (s₁.client a) now).2 = .send peers m)
    (hstay : Always (fun s' => (s'.pc (.read a)).Handles (s₁.frames a) →
      b ∈ s'.clients ∧ peers.admits (s'.client b).uuid) l s) :
    (s.pc (.read a)).Aims peers ⟨a, m, .frame (s₁.frames a) e.type⟩ b ∨
      ⟨a, m, .frame (s₁.frames a) e.type⟩ ∈ s.received b := by
  induction h with
  | nil => simp at hx
  | @snoc l s s' x hl hs ih =>
    obtain ⟨hstay, hstay'⟩ := always_snoc.mp hstay
    have hi := inv_of_exec _ _ hl
    have hstep := step_cases hs
    rcases List.mem_append.mp hx with hx | hx
    · rcases ih hx hstay with haims | hrec
      · -- the broadcast goes on
        have hloop : (s.pc (.read a)).Handles (s₁.frames a) := handles_of_aims haims rfl
        obtain ⟨hb, hadm⟩ := hstay.2 hloop
        rcases hstep.aims_cases hi.started haims hb hadm with haims | ⟨rfl, r, hsend, hpkt⟩
        · exact Or.inl haims
        · right
          rw [(hstep.handed hsend).1, hpkt]
          simp
      · right
        rcases hstep.received_cases b with heq | ⟨t, r, -, -, heq⟩
        · rw [heq]
          exact hrec
        · rw [heq]
          exact List.mem_append_left _ hrec
    · -- the frame has just been read
      obtain ⟨rfl, rfl⟩ := Prod.mk.inj (List.mem_singleton.mp hx)
      left
      have hpc : s'.pc (.read a) = s₁.loop peers ⟨a, m, .frame (s₁.frames a) e.type⟩ := by
        cases hstep with
        | readFrame => rw [readFrame_pc, if_pos rfl, handled_send he hr]
      have hclients : s'.clients = s₁.clients := by
        cases hstep with
        | readFrame =>
          obtain ⟨q, color, -, heq⟩ := readFrame_cases s₁ a frame now
          rw [heq]
          rfl
      rw [hpc] at hstay' ⊢
      refine aims_loop ?_
      rw [← hclients]
      exact (hstay' ⟨e.type, rfl⟩).1

/-- Where no two packets follow from the same frame, a packet is the only one of its frame. -/
lemma filter_frameOf {a : ClientId} {ks : List Packet} {k : Packet} {n : ℕ}
    (hks : (framesFrom a ks).Pairwise (· < ·)) (hk : k ∈ ks) (hn : k.frameOf a = some n) :
    ks.filter (fun k => k.frameOf a = some n) = [k] := by
  have hmem : ∀ {ks' : List Packet}, k ∈ ks' → n ∈ framesFrom a ks' := fun h =>
    List.mem_filterMap.mpr ⟨k, h, hn⟩
  induction ks with
  | nil => simp at hk
  | cons k₀ ks ih =>
    by_cases h₀ : k₀.frameOf a = some n
    · have hcons : framesFrom a (k₀ :: ks) = n :: framesFrom a ks := by
        simp [framesFrom, h₀]
      rw [hcons, List.pairwise_cons] at hks
      have hnot : n ∉ framesFrom a ks := fun h => absurd (hks.1 n h) (lt_irrefl n)
      have hhead : k = k₀ := by
        rcases List.mem_cons.mp hk with he | htail
        · exact he
        · exact absurd (hmem htail) hnot
      have hrest : ks.filter (fun k => k.frameOf a = some n) = [] := by
        refine List.filter_eq_nil_iff.mpr fun k' hk' => ?_
        have hne : k'.frameOf a ≠ some n := fun hn' =>
          hnot (List.mem_filterMap.mpr ⟨k', hk', hn'⟩)
        simpa using hne
      rw [List.filter_cons_of_pos (by simpa using h₀), hrest, hhead]
    · have htail : k ∈ ks := by
        rcases List.mem_cons.mp hk with rfl | htail
        · exact absurd hn h₀
        · exact htail
      have hks' : (framesFrom a ks).Pairwise (· < ·) := by
        cases hf : k₀.frameOf a with
        | none =>
          have hcons : framesFrom a (k₀ :: ks) = framesFrom a ks := by simp [framesFrom, hf]
          rwa [hcons] at hks
        | some n' =>
          have hcons : framesFrom a (k₀ :: ks) = n' :: framesFrom a ks := by
            simp [framesFrom, hf]
          rw [hcons] at hks
          exact (List.pairwise_cons.mp hks).2
      rw [List.filter_cons_of_neg (by simpa using h₀)]
      exact ih hks' htail

/-- **Delivery from one client to another.**  What `b` receives for the frames of `a` is in the
order in which the frames were read, with one copy for each frame at most; and for every position,
colour, and text to everybody, whose loop has ended, and during whose loop `b` stayed registered, it
is exactly one copy of the message that the handler made. -/
theorem pair_ordered_once {l : List (Server × Act)} {s : Server} (h : manager.Exec l s)
    {a b : ClientId} (hab : (s.client a).uuid ≠ (s.client b).uuid) :
    (framesFrom a (s.received b)).Pairwise (· < ·) ∧
      ∀ s₁ frame now e, (s₁, Act.readFrame a frame now) ∈ l → unmarshalEvent frame = some e →
        e.ForPeers → ¬ (s.pc (.read a)).Handles (s₁.frames a) →
        Always (fun s' => (s'.pc (.read a)).Handles (s₁.frames a) → b ∈ s'.clients) l s →
        ∃ m, (routeEvent e (s₁.client a) now).2 = .send (.others (s₁.client a).uuid) m ∧
          (s.received b).filter (fun k => k.frameOf a = some (s₁.frames a))
            = [⟨a, m, .frame (s₁.frames a) e.type⟩] := by
  have hinc := (inOrder_of_exec h a b).increasing
  refine ⟨hinc, ?_⟩
  intro s₁ frame now e hx he hpeers hended hstay
  obtain ⟨m, hr⟩ := routeEvent_broadcasts_iff.mpr hpeers
  refine ⟨m, hr, ?_⟩
  have ha : (s₁.client a).uuid = (s.client a).uuid := by
    obtain ⟨l₁, hl₁, -⟩ := h.of_mem hx
    refine uuid_of_mem h hx ((inv_of_exec _ _ hl₁).serve_ne_idle_of_pc (t := .read a) ?_)
    obtain ⟨s₂, hstep, -⟩ := h.leads_of_mem hx
    cases step_cases hstep with
    | readFrame hc => exact fun hidle => absurd (hc.symm.trans hidle) (by simp)
  have hstay' : Always (fun s' => (s'.pc (.read a)).Handles (s₁.frames a) →
      b ∈ s'.clients ∧ (Peers.others (s₁.client a).uuid).admits (s'.client b).uuid) l s := by
    refine ⟨?_, ?_⟩
    · intro x hx' hloop
      have hb := hstay.1 x hx' hloop
      obtain ⟨l₂, hl₂, -⟩ := h.of_mem hx'
      have hub := uuid_of_mem h hx' ((inv_of_exec _ _ hl₂).serve_ne_idle hb)
      refine ⟨hb, ?_⟩
      rw [ha, hub]
      simpa [Peers.admits] using hab.symm
    · intro hloop
      refine ⟨hstay.2 hloop, ?_⟩
      rw [ha]
      simpa [Peers.admits] using hab.symm
  rcases owed_or_received h hx he hr hstay' with haims | hrec
  · exact absurd (handles_of_aims haims rfl) hended
  · exact filter_frameOf hinc hrec (frameOf_eq_some.mpr ⟨rfl, e.type, rfl⟩)

/-- `0` hands what follows from a frame to `1`. -/
def relayedTo1 (frame : Text) : List Act :=
  [.readFrame 0 frame [], .pick (.read 0) 1, .handoff (.read 0) 1, .wrote 1, .endRange (.read 0)]

def positionFrame : Text := "\x7b\"Type\":0\x7d".toList

def colorFrame : Text :=
  "\x7b\"Type\":1,\"Payload\":\x7b\"Color\":\"d\"\x7d\x7d".toList

def textFrame : Text :=
  "\x7b\"Type\":2,\"Payload\":\x7b\"Text\":\"hi\",\"Global\":true\x7d\x7d".toList

/-- A position, a colour and a text of `0` that `1` receives. -/
def relayed : List Act :=
  inTurn ++ relayedTo1 positionFrame ++ relayedTo1 colorFrame ++ relayedTo1 textFrame

lemma relayed_runs : (manager.run manager.init relayed).isSome := by
  decide +kernel

@[irreducible] def relayedRun : List (Server × Act) × Server :=
  (manager.run manager.init relayed).get relayed_runs

lemma exec_relayedRun : manager.Exec relayedRun.1 relayedRun.2 := by
  rw [relayedRun]
  exact exec_get_run relayed_runs

/-- The three frames are read as the first, the second and the third, and in the end none of them is
handled any more; `1` is registered whenever the reader of `0` is in a loop. -/
lemma relayed_check :
    (∃ x ∈ relayedRun.1, x.1.frames 0 = 0 ∧ x.2 = .readFrame 0 positionFrame []) ∧
    (∃ x ∈ relayedRun.1, x.1.frames 0 = 1 ∧ x.2 = .readFrame 0 colorFrame []) ∧
    (∃ x ∈ relayedRun.1, x.1.frames 0 = 2 ∧ x.2 = .readFrame 0 textFrame []) ∧
    relayedRun.2.pc (.read 0) = .reading ∧
    (∀ x ∈ relayedRun.1, (x.1.pc (.read 0)).loop? = none ∨ 1 ∈ x.1.clients) ∧
    framesFrom 0 (relayedRun.2.received 1) = [0, 1, 2] ∧
    (relayedRun.2.client 0).uuid ≠ (relayedRun.2.client 1).uuid := by
  rw [relayedRun]
  decide +kernel

theorem pair_ordered_once_relayed :
    framesFrom 0 (relayedRun.2.received 1) = [0, 1, 2] ∧
      (framesFrom 0 (relayedRun.2.received 1)).Pairwise (· < ·) ∧
      ∀ n < 3, ∃ k, (relayedRun.2.received 1).filter (fun k => k.frameOf 0 = some n) = [k] := by
  obtain ⟨hposition, hcolor, htext, hend, hstay, hall, huuid⟩ := relayed_check
  obtain ⟨hord, honce⟩ := pair_ordered_once exec_relayedRun huuid
  have hended : ∀ n, ¬ (relayedRun.2.pc (.read 0)).Handles n := fun n => by
    rw [hend]
    exact id
  have hstays : ∀ n, Always (fun s' => (s'.pc (.read 0)).Handles n → 1 ∈ s'.clients)
      relayedRun.1 relayedRun.2 := by
    exact fun n => ⟨fun x hx hloop => (hstay x hx).resolve_left fun hnone =>
      not_handles_of_no_loop hnone hloop, fun hloop => absurd hloop (hended n)⟩
  have hcopy : ∀ {n : ℕ} {frame : Text} {e : Event},
      (∃ x ∈ relayedRun.1, x.1.frames 0 = n ∧ x.2 = .readFrame 0 frame []) →
        unmarshalEvent frame = some e → e.ForPeers →
        ∃ k, (relayedRun.2.received 1).filter (fun k => k.frameOf 0 = some n) = [k] := by
    rintro n frame e ⟨⟨s₁, x⟩, hx, rfl, rfl⟩ he hpeers
    obtain ⟨m, -, hm⟩ := honce s₁ frame [] e hx he hpeers (hended _) (hstays _)
    exact ⟨_, hm⟩
  refine ⟨hall, hord, fun n hn => ?_⟩
  obtain rfl | rfl | rfl : n = 0 ∨ n = 1 ∨ n = 2 := by omega
  · exact hcopy (e := ⟨0, []⟩) hposition (by decide +kernel) (Or.inl rfl)
  · refine hcopy (e := ⟨1, "\x7b\"Color\":\"d\"\x7d".toList⟩) hcolor (by decide +kernel) ?_
    exact Or.inr (Or.inl ⟨rfl, by decide +kernel⟩)
  · refine hcopy (e := ⟨2, "\x7b\"Text\":\"hi\",\"Global\":true\x7d".toList⟩) htext
      (by decide +kernel) ?_
    exact Or.inr (Or.inr ⟨rfl, ⟨[], [], [], "hi".toList, true⟩, by decide +kernel, rfl⟩)

end MultiplayerCars.GoServer
