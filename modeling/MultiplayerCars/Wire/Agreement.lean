import MultiplayerCars.Wire.Discovery
import MultiplayerCars.Wire.Passage
import MultiplayerCars.Wire.Stated

/-!
# Everybody sees everybody where they are

A client states its position whenever its car has moved and whenever it has met somebody, and the
server passes what it has read to those who are registered.  Whoever is registered when the server
reads a position is sent it, and whoever registers later is met by the client, which then states
its position once more.  So when nothing is on its way any more, every client shows every other one
where its car is.
-/

namespace MultiplayerCars.Wire

open Lib Lib.Json CPPClient
open GoServer (ClientId Act Server Pc Thread Packet Peers)

/-- The position of a client that the server has read last. -/
def World.read (P : Party) (w : World) (x : ClientId) : ℤ × ℤ :=
  lastStated (P.uuid x).text ((w.client x).session.written.take (w.server.frames x))

/-- Where a packet puts a client. -/
def puts (P : Party) (x : ClientId) (k : Packet) : Option (ℤ × ℤ) :=
  place (P.uuid x).text k.message.bytes

/-- The position of the first client that the server has read last is the last that the writer of
the second has received, or a goroutine is about to send it. -/
def World.Informed (P : Party) (w : World) (x y : ClientId) : Prop :=
  (∃ t k, (w.server.pc t).Aims (.others (P.uuid x).text) k y
      ∧ puts P x k = some (w.read P x)) ∨
    Feed.latest (puts P) x (w.server.received y) = some (w.read P x)

/-- A goroutine that sends a position of a client around is one of that client, and the position is
the one that the server has read last. -/
def FreshLoops (P : Party) (w : World) : Prop :=
  ∀ t l, (w.server.pc t).loop? = some l → ∀ x ∈ P.members, ∀ p, puts P x l.packet = some p →
    t.owner = x ∧ p = w.read P x

/-- No frame has been read where no reader has been started. -/
def Unread (s : Server) : Prop := ∀ c, s.pc (.read c) = .idle → s.frames c = 0

section

variable {P : Party} {w : World}

/-! ### What the server has read -/

/-- A goroutine of a client whose reader reads is in no loop. -/
lemma Sound.loop_of_reading (h : Sound P w) {x : ClientId}
    (hr : w.server.pc (.read x) = .reading) {t : Thread} (ht : t.owner = x) :
    (w.server.pc t).loop? = none := by
  cases t with
  | serve c =>
    obtain rfl : c = x := ht
    have hstarted : (w.server.pc (.serve c)).ReadStarted := by
      by_contra hno
      rw [(h.server.started c).1.mpr hno] at hr
      cases hr
    generalize w.server.pc (.serve c) = p at hstarted
    cases p <;> first | rfl | exact hstarted.elim
  | read c =>
    obtain rfl : c = x := ht
    rw [hr]
    rfl
  | write c =>
    have hhosts := h.server.placed (.write c)
    have hstays := h.unbroken (.write c)
    generalize w.server.pc (.write c) = p at hhosts hstays
    cases p with
    | range l => exact absurd hhosts.2 hstays
    | send l p => exact absurd hhosts.2 hstays
    | _ => rfl

lemma Unread.step (h : Unread w.server) {a : Act} {s : Server}
    (hs : GoServer.Step w.server a s) : Unread s := by
  intro c hc
  have hidle := hs.idle_of_idle hc
  rcases hs.frames_cases c with he | ⟨frame, now, -, hread, -⟩
  · rw [he]
    exact h c hidle
  · rw [hread] at hidle
    cases hidle

/-- The server reads a frame of an honest client, or what it has read of the client stays. -/
lemma Sound.read_cases (h : Sound P w) {a : Act} {s : Server} (ha : w.serves P a)
    (hs : GoServer.Step w.server a s) (x : ClientId) :
    ((∀ frame now, a ≠ .readFrame x frame now) ∧ s.frames x = w.server.frames x ∧
        World.read P { w with server := s, down := w.sent a } x = w.read P x) ∨
      ∃ f rest now, a = .readFrame x f.bytes now ∧ w.server.pc (.read x) = .reading ∧
        w.up x = f :: rest ∧ Honest (P.uuid x) f ∧ s.frames x = w.server.frames x + 1 ∧
        World.read P { w with server := s, down := w.sent a } x
          = (stated (P.uuid x).text f).getD (w.read P x) := by
  by_cases hframe : ∃ frame now, a = .readFrame x frame now
  · right
    obtain ⟨frame, now, rfl⟩ := hframe
    obtain ⟨f, rest, hup, rfl⟩ := up_of_serves ha
    have hhonest : Honest (P.uuid x) f := h.honest_up (by rw [hup]; simp)
    have hread : w.server.pc (.read x) = .reading ∧ s.frames x = w.server.frames x + 1 := by
      cases hs with
      | readFrame hc =>
        obtain ⟨q, color, -, heq⟩ := GoServer.readFrame_cases w.server x f.bytes now
        rw [heq]
        exact ⟨hc, Function.update_self _ _ _⟩
    refine ⟨f, rest, now, rfl, hread.1, hup, hhonest, hread.2, ?_⟩
    have hget : (w.client x).session.written[w.server.frames x]? = some f := by
      rw [← List.head?_drop, ← World.up, hup, List.head?_cons]
    simp only [World.read, hread.2, List.take_add_one, hget, Option.toList_some]
    cases hf : stated (P.uuid x).text f with
    | none => exact lastStated_append_of_none (by simpa using hf) _
    | some p => exact lastStated_append_of_some hf _
  · left
    rcases hs.frames_cases x with he | ⟨frame, now, rfl, -⟩
    · exact ⟨fun frame now ha => hframe ⟨frame, now, ha⟩, he, by simp only [World.read, he]⟩
    · exact absurd ⟨frame, now, rfl⟩ hframe

/-- What a client goes on to write does not change what the server has read. -/
lemma read_client_step {i : ClientId} {a : ClientAct} {c : Client}
    (hs : ClientStep (w.client i) a c)
    (hframes : w.server.frames i ≤ (w.client i).session.written.length)
    (down : ClientId → List Text) (x : ClientId) :
    World.read P { w with client := Function.update w.client i c, down := down } x
      = w.read P x := by
  by_cases hx : x = i
  · subst hx
    obtain ⟨r, hr⟩ := hs.sessionStep.written
    simp only [World.read, Function.update_self, ← hr]
    rw [List.take_append_of_le_length hframes]
  · simp only [World.read, Function.update_of_ne hx]

/-! ### Loops -/

/-- A position that the server begins to send around is the last that it has read. -/
lemma Sound.fresh_begins (h : Sound P w) (hunread : Unread w.server) {a : Act} {s : Server}
    (ha : w.serves P a) (hs : GoServer.Step w.server a s) {t : Thread} {peers : Peers}
    {k : Packet} (hb : GoServer.Begins w.server a t peers k) {x : ClientId} (hx : x ∈ P.members)
    {p : ℤ × ℤ} (hp : puts P x k = some p) :
    t.owner = x ∧ p = World.read P { w with server := s, down := w.sent a } x := by
  cases hb with
  | announce c now =>
    have hc : w.server.pc (.serve c) = .announce := by
      cases hs with
      | announce hc => exact hc
    obtain ⟨hmember, huuid⟩ := h.registered (h.joined c (by rw [hc]; simp [Thread.Absent]))
    have hwf : WellFormed (w.server.initPosition c now).message.bytes
        (.position (P.uuid c).text ⟨0, 0, (w.server.client c).color⟩) := by
      rw [← huuid]
      exact wellFormed_announcement (sendable_origin (by decide)) rfl
    rw [puts, place, hwf.updateOf_eq] at hp
    dsimp only at hp
    split_ifs at hp with hu
    have hcx : c = x := P.distinct c hmember x hx (UuidV4.ext hu)
    subst hcx
    -- no frame of the client has been read yet, so it is taken to be at the origin
    have hzero : w.server.frames c = 0 := by
      refine hunread c ((h.server.started c).1.mpr ?_)
      rw [hc]
      exact id
    rcases h.read_cases ha hs c with ⟨-, -, hread⟩ | ⟨f, rest, now', he, -⟩
    · refine ⟨rfl, ?_⟩
      rw [hread, World.read, hzero, ← Option.some.inj hp]
      rfl
    · cases he
  | @reply c frame now e peers m he hr =>
    rcases h.read_cases ha hs c with ⟨hno, -⟩ | ⟨f, rest, now', heq, hreading, -, hhonest, -, hread⟩
    · exact absurd rfl (hno frame now)
    · obtain ⟨-, rfl, rfl⟩ := Act.readFrame.inj heq
      have hstated : stated (P.uuid x).text f = some p := by
        rw [← place_reply hhonest he hr]
        exact hp
      have hmember : c ∈ P.members :=
        (h.registered (h.joined.of_reading h.server.started (by rw [hreading]; simp))).1
      have hcx : x = c :=
        P.distinct x hx c hmember (UuidV4.ext (stated_honest hhonest hstated).1)
      subst hcx
      refine ⟨rfl, ?_⟩
      rw [hread, hstated]
      rfl
  | exit t now =>
    cases hs with
    | delete ht =>
      refine absurd ?_ (h.unbroken t)
      rw [ht]
      trivial

/-- While a goroutine of a client is in a loop, no frame of the client is read. -/
lemma Sound.read_of_loop (h : Sound P w) {a : Act} {s : Server} (ha : w.serves P a)
    (hs : GoServer.Step w.server a s) {t : Thread} {l : GoServer.RangeLoop}
    (hl : (w.server.pc t).loop? = some l) :
    World.read P { w with server := s, down := w.sent a } t.owner = w.read P t.owner := by
  rcases h.read_cases ha hs t.owner with ⟨-, -, hread⟩ | ⟨f, rest, now, -, hreading, -⟩
  · exact hread
  · rw [h.loop_of_reading hreading rfl] at hl
    cases hl

lemma FreshLoops.server_step (h : FreshLoops P w) (hsound : Sound P w) (hunread : Unread w.server)
    {a : Act} {s : Server} (ha : w.serves P a) (hs : GoServer.Step w.server a s) :
    FreshLoops P { w with server := s, down := w.sent a } := by
  intro t l hl x hx p hp
  rcases hs.packet_cases hsound.server.started hl with ⟨l₀, hl₀, -, hpacket⟩ | hb
  · rw [hpacket] at hp
    obtain ⟨rfl, rfl⟩ := h t l₀ hl₀ x hx p hp
    exact ⟨rfl, (hsound.read_of_loop ha hs hl₀).symm⟩
  · exact hsound.fresh_begins hunread ha hs hb hx hp

/-! ### Who is informed -/

/-- A position that a goroutine begins to send to the others informs everybody. -/
lemma informed_of_loop {w' : World} (hfresh : FreshLoops P w') {t : Thread} {x y : ClientId}
    {k : Packet} (hpc : w'.server.pc t = w.server.loop (.others (P.uuid x).text) k)
    (hx : x ∈ P.members) (hy : y ∈ w.server.clients) (hk : (puts P x k).isSome) :
    w'.Informed P x y := by
  obtain ⟨p, hp⟩ := Option.isSome_iff_exists.mp hk
  have hloop : (w'.server.pc t).loop? = some ⟨.others (P.uuid x).text, k, w.server.clients, ∅⟩ := by
    rw [hpc]
    rfl
  obtain ⟨-, rfl⟩ := hfresh t _ hloop x hx p hp
  refine Or.inl ⟨t, k, ?_, hp⟩
  rw [hpc]
  exact GoServer.aims_loop hy

/-- Whoever is informed stays informed while the server reads no other position. -/
lemma Sound.informed_step (h : Sound P w) (hfresh : FreshLoops P w) {a : Act} {s : Server}
    (hs : GoServer.Step w.server a s) {x y : ClientId} (hne : x ≠ y) (hx : x ∈ P.members)
    (hy : y ∈ w.server.clients)
    (hread : World.read P { w with server := s, down := w.sent a } x = w.read P x)
    (hi : w.Informed P x y) : World.Informed P { w with server := s, down := w.sent a } x y := by
  rw [World.Informed, hread]
  rcases hi with ⟨t, k, haims, hk⟩ | hlatest
  · obtain ⟨hy', huuid⟩ := h.registered hy
    have hadm : (Peers.others (P.uuid x).text).admits (w.server.client y).uuid := by
      rw [huuid, Peers.admits, bne_iff_ne]
      intro he
      exact hne (P.distinct x hx y hy' (UuidV4.ext he.symm))
    rcases hs.aims_cases h.server.started haims hy hadm with haims | ⟨rfl, l, hl, rfl⟩
    · exact Or.inl ⟨t, k, haims, hk⟩
    · right
      dsimp only
      rw [(hs.handed hl).1, Feed.latest_append, Feed.latest_singleton, hk, Option.some_or]
  · right
    dsimp only
    rcases hs.received_cases y with hr | ⟨t, l, -, hl, hr⟩
    · rw [hr]
      exact hlatest
    · -- if what is handed over is a position of the client, it is the same one
      rw [hr, Feed.latest_append, Feed.latest_singleton]
      cases hp : puts P x l.packet with
      | none => rw [Option.none_or, hlatest]
      | some p =>
        have hloop : (w.server.pc t).loop? = some l := by
          rw [hl]
          rfl
        rw [Option.some_or, (hfresh t l hloop x hx p hp).2]

/-- What a client owes it goes on owing, or the server begins to send its position around. -/
lemma Sound.owes_or_loop (h : Sound P w) {a : Act} {s : Server} (ha : w.serves P a)
    (hs : GoServer.Step w.server a s) {x : ClientId} (hx : x ∈ w.server.clients)
    (ho : (w.meeting P).owes x) :
    (World.meeting P { w with server := s, down := w.sent a }).owes x ∨
      ∃ t k, s.pc t = w.server.loop (.others (P.uuid x).text) k ∧ (puts P x k).isSome := by
  obtain ⟨-, huuid⟩ := h.registered hx
  rcases ho with hann | ho
  · rcases hs.goes h.server.started (.serve x) with he | hg
    · refine Or.inl (Or.inl ?_)
      rw [Announcing, he]
      exact hann
    · generalize hq : s.pc (.serve x) = q at hg
      rcases hann with hp | hp
      · rw [hp] at hg
        cases hg with
        | unlockAdd => exact Or.inl (Or.inl (Or.inr hq))
      · rw [hp] at hg
        cases hg with
        | @announce _ now =>
          obtain ⟨car, hwf⟩ := wellFormed_initPosition w.server x now
          rw [huuid] at hq hwf
          refine Or.inr ⟨.serve x, _, hq, ?_⟩
          rw [puts, place, hwf.updateOf_eq]
          simp
  · rcases h.read_cases ha hs x with ⟨-, hframes, -⟩ |
      ⟨f, rest, now, rfl, hreading, hup, hhonest, hframes, -⟩
    · refine Or.inl (Or.inr ?_)
      dsimp only
      rw [hframes]
      exact ho
    · have hrest : (w.client x).session.written.drop (w.server.frames x + 1) = rest := by
        rw [← List.tail_drop, ← World.up, hup, List.tail_cons]
      rcases ho with hm | ⟨g, hg, hpos⟩
      · exact Or.inl (Or.inr (Or.inl hm))
      rw [Session.unread, ← World.up, hup, List.cons_append] at hg
      rcases List.mem_cons.mp hg with rfl | hg
      · -- the position that is read is passed on to the others
        right
        obtain ⟨e, payload, car, he, hr, hwf⟩ :=
          reply_of_position hhonest hpos (w.server.client x) now
        rw [huuid] at hr
        refine ⟨.read x, ⟨x, .passthrough payload, .frame (w.server.frames x) e.type⟩, ?_, ?_⟩
        · cases hs with
          | readFrame => rw [GoServer.readFrame_pc, if_pos rfl, GoServer.handled_send he hr]
        · rw [puts, GoServer.Message.bytes, place, hwf.updateOf_eq]
          simp
      · refine Or.inl (Or.inr (Or.inr ⟨g, ?_, hpos⟩))
        rw [Session.unread]
        dsimp only
        rw [hframes, hrest]
        exact hg

/-- A client whose position the server reads has owed it. -/
lemma Sound.owes_of_read_ne (h : Sound P w) {a : Act} {s : Server} (ha : w.serves P a)
    (hs : GoServer.Step w.server a s) {x : ClientId}
    (hne : World.read P { w with server := s, down := w.sent a } x ≠ w.read P x) :
    (w.meeting P).owes x := by
  rcases h.read_cases ha hs x with ⟨-, -, hread⟩ | ⟨f, rest, now, -, -, hup, hhonest, -, hread⟩
  · exact absurd hread hne
  · cases hf : stated (P.uuid x).text f with
    | none =>
      rw [hf] at hread
      exact absurd hread hne
    | some p =>
      refine Or.inr (Or.inr ⟨f, ?_, (stated_honest hhonest hf).2.1⟩)
      rw [Session.unread, ← World.up, hup]
      simp

/-! ### Runs -/

/-- Of two registered clients the first has its position still to be read, or has not met the
second, or the second is informed about it. -/
def Reported (P : Party) (w : World) : Prop :=
  ∀ x ∈ w.server.clients, ∀ y ∈ w.server.clients, x ≠ y →
    (w.meeting P).owes x ∨ ¬ w.Knows P x y ∨ w.Informed P x y

lemma Reported.server_step (h : Reported P w) (hsound : Sound P w) (hmutual : (w.meeting P).Mutual)
    (hfresh : FreshLoops P w) {a : Act} {s : Server} (ha : w.serves P a)
    (hs : GoServer.Step w.server a s)
    (hfresh' : FreshLoops P { w with server := s, down := w.sent a }) :
    Reported P { w with server := s, down := w.sent a } := by
  intro x hx y hy hne
  rcases hs.newcomer hsound.server hx with hx | hp
  · obtain ⟨hmember, -⟩ := hsound.registered hx
    by_cases hy₀ : y ∈ w.server.clients
    · by_cases ho : (w.meeting P).owes x
      · rcases hsound.owes_or_loop ha hs hx ho with ho | ⟨t, k, hpc, hk⟩
        · exact Or.inl ho
        · exact Or.inr (Or.inr (informed_of_loop hfresh' hpc hmember hy₀ hk))
      · have hread : World.read P { w with server := s, down := w.sent a } x = w.read P x := by
          by_contra hread
          exact ho (hsound.owes_of_read_ne ha hs hread)
        rcases h x hx y hy₀ hne with ho' | hk | hi
        · exact absurd ho' ho
        · exact Or.inr (Or.inl hk)
        · exact Or.inr (Or.inr (hsound.informed_step hfresh hs hne hmember hy₀ hread hi))
    · -- nobody knows a newcomer
      refine Or.inr (Or.inl fun hk => hy₀ ?_)
      have hmember : y ∈ P.members := by
        rcases hs.newcomer hsound.server hy with hy | hp
        · exact absurd hy hy₀
        · refine (hsound.member y fun hidle => ?_).1
          rcases hs.goes hsound.server.started (.serve y) with he | hg
          · rw [he, hidle] at hp
            cases hp
          · rw [hp, hidle] at hg
            cases hg
      exact hmutual.known x y ⟨hmember, hk⟩
  · exact Or.inl (Or.inl (Or.inl hp))

lemma Reported.client_step (h : Reported P w) (hsound : Sound P w) {i : ClientId} {a : ClientAct}
    {c : Client} (hc : Civil (w.client i) a) (ho : Ordinary (w.client i) a)
    (hs : ClientStep (w.client i) a c) (down : ClientId → List Text) :
    Reported P { w with client := Function.update w.client i c, down := down } := by
  intro x hx y hy hne
  have hread := read_client_step (P := P) hs (hsound.frames i) down x
  rcases h x hx y hy hne with (hann | howes) | hk | hi
  · exact Or.inl (Or.inl hann)
  · refine Or.inl (Or.inr ?_)
    refine forall_update (p := fun x c => c.Owes (w.server.frames x)) howes fun howes => ?_
    refine howes.step (hsound.player i).paced (hsound.frames i) ?_ hs
    rintro ready rfl
    exact hc
  · by_cases hxi : x = i
    · subst hxi
      by_cases hk' : c.gui.externalplayers (P.uuid y).text = none
      · refine Or.inr (Or.inl fun hknows => ?_)
        rw [World.Knows] at hknows
        dsimp only at hknows
        rw [Function.update_self] at hknows
        exact hknows hk'
      · -- a client that meets somebody has to send its position
        rcases (hsound.player x).newcomer ho hs hk' with hold | ⟨-, hmove⟩
        · exact absurd hold hk
        · refine Or.inl (Or.inr (Or.inl ?_))
          dsimp only
          rw [Function.update_self]
          exact hmove
    · refine Or.inr (Or.inl fun hknows => hk ?_)
      rw [World.Knows] at hknows
      dsimp only at hknows
      rw [Function.update_of_ne hxi] at hknows
      exact hknows
  · refine Or.inr (Or.inr ?_)
    rw [World.Informed, hread]
    exact hi

/-- What holds in every state of a run of honest clients in which nobody leaves. -/
structure Agreement (P : Party) (w : World) : Prop where
  passage : ∀ v, Passage P (place v) w
  met : (w.meeting P).Mutual
  unread : Unread w.server
  fresh : FreshLoops P w
  reported : Reported P w
  truthful : ∀ i, Truthful (w.client i)
  fed : ∀ i, Fed (w.client i)
  current : ∀ i uuid, Feed.Current place (w.client i).feed uuid

lemma Agreement.sound (h : Agreement P w) : Sound P w := (h.passage []).sound

lemma Agreement.start (P : Party) : Agreement P (World.start P) where
  passage := fun v => Passage.start P (place v)
  met := mutual_start P
  unread := fun c _ => rfl
  fresh := by
    intro t l hl
    cases hl
  reported := fun x hx => absurd hx (Finset.notMem_empty x)
  truthful := fun i => Or.inr rfl
  fed := fun i => Fed.start (P.uuid i)
  current := fun i uuid => rfl

/-- A time stamp puts nobody anywhere. -/
lemma timeless_place (v : Text) : Timeless (place v) := by
  intro s c now
  have hwf : WellFormed (s.timeStamp c now).marshal (.timeStamp now) :=
    wellFormed_timeStamp (sendable_origin (by decide)) rfl
  rw [place, hwf.updateOf_eq]

/-- A welcome message lets everybody stay. -/
lemma stays_of_welcome {present : Text → Prop} {m : Text} (h : Welcome present m) :
    ∃ u, WellFormed m u ∧ Update.Stays u := by
  obtain ⟨u, hu, hexit, -⟩ := h
  exact ⟨u, hu, hexit⟩

/-- Since no position is dropped, the last that has arrived is shown, or waits. -/
lemma Sound.current_step (h : Sound P w) {i : ClientId} {a : ClientAct} {c : Client}
    (hfed : Fed (w.client i)) (ho : Brings Update.Stays a) (hs : ClientStep (w.client i) a c)
    {uuid : Text} (hc : Feed.Current place (w.client i).feed uuid) :
    Feed.Current place c.feed uuid := by
  rw [hfed.supplied.current_iff hfed.grounded ho hs]
  refine ⟨?_, Or.inl hc⟩
  rintro ⟨rfl, -⟩
  cases hs with
  | discardPop hpc => exact (h.player i).tidy.running ⟨_, Or.inr hpc⟩

lemma Agreement.client_step (h : Agreement P w) {i : ClientId} {a : ClientAct} {c : Client}
    (hc : Civil (w.client i) a) (ho : Ordinary (w.client i) a) (hb : Brings Update.Stays a)
    (hs : ClientStep (w.client i) a c) {w' : World} {down : ClientId → List Text}
    (hw : w' = { w with client := Function.update w.client i c, down := down })
    (hpassage : ∀ v, Passage P (place v) w') (hmutual : (w'.meeting P).Mutual) :
    Agreement P w' := by
  subst hw
  refine ⟨hpassage, hmutual, h.unread, ?_, h.reported.client_step h.sound hc ho hs down, ?_, ?_, ?_⟩
  · intro t l hl x hx p hp
    rw [read_client_step hs (h.sound.frames i)]
    exact h.fresh t l hl x hx p hp
  · intro j
    exact forall_update (p := fun _ c => Truthful c) (h.truthful j) fun ht =>
      ht.step (h.sound.player i).onScreen (h.sound.player i).paced hc hs
  · intro j
    exact forall_update (p := fun _ c => Fed c) (h.fed j) fun hf => hf.step hb hs
  · intro j uuid
    exact forall_update (p := fun _ c => Feed.Current place c.feed uuid) (h.current j uuid)
      fun hcur => h.sound.current_step (h.fed i) hb hs hcur

theorem Agreement.step (h : Agreement P w) {a : WorldAct} {w' : World} (ha : Honestly w a)
    (hs : WorldStep P w a w') (hno : Staying w') : Agreement P w' := by
  have hpassage : ∀ v, Passage P (place v) w' := fun v =>
    (h.passage v).step (timeless_place v) ha hs hno
  have hmutual : (w'.meeting P).Mutual := h.met.step (h.sound.meeting_step ha hs hno)
  cases hs with
  | server hserves hs =>
    have hfresh := h.fresh.server_step h.sound h.unread hserves hs
    exact ⟨hpassage, hmutual, h.unread.step hs, hfresh,
      h.reported.server_step h.sound h.met h.fresh hserves hs hfresh, h.truthful, h.fed,
      h.current⟩
  | @client i a c hm hs =>
    have hb : Brings Update.Stays a := by
      cases a with
      | onMessage msg => exact absurd rfl (hm msg)
      | _ => trivial
    have hmsg : ∀ msg, a = .onMessage msg → Welcome (w.present P) msg :=
      fun msg he => absurd he (hm msg)
    have ho : Ordinary (w.client i) a := ordinary_of_civil ha hmsg
    exact h.client_step ha ho hb hs rfl hpassage hmutual
  | @deliver i msg rest c hd hs =>
    have hwelcome : Welcome (w.present P) msg := h.sound.down i msg (by rw [hd]; simp)
    exact h.client_step (a := .onMessage msg) trivial hwelcome.wellFormed
      (stays_of_welcome hwelcome) hs rfl hpassage hmutual

lemma agreement_of_exec {l : List (World × WorldAct)} (h : (world P).Exec l w)
    (hhonest : Machine.Meets Honestly l) (hstay : Machine.Always Staying l w) :
    Agreement P w := by
  refine h.invariant_of_always (P := Agreement P) (Agreement.start P) ?_ hhonest hstay
  intro w a w' hagree ha hno hs
  exact hagree.step ha (worldStep_of_step hs) hno

/-! ### Quiescent states -/

/-- A client of which nothing is unread has told the server where its car is. -/
lemma Agreement.read_of_atRest (h : Agreement P w) {x : ClientId} (hrest : AtRest w x) :
    w.read P x = ((w.client x).X, (w.client x).Y) := by
  have hpending : (w.client x).session.pending = [] := by
    rw [Session.pending, hrest.asyncWriteQueue]
    split <;> rfl
  have hall : (w.client x).session.written.take (w.server.frames x)
      = (w.client x).session.written := by
    have hup := hrest.up
    rw [World.up, List.drop_eq_nil_iff] at hup
    exact List.take_of_length_le hup
  rcases h.truthful x with hm | ht
  · rw [hrest.move] at hm
    cases hm
  · rw [hpending, List.append_nil, Client.clientUUID, (h.sound.player x).owner] at ht
    rw [World.read, hall, ht]

/-- What the writer of a client has received is what has arrived, when nothing is on its way. -/
lemma Agreement.latest_arrived (h : Agreement P w) {y : ClientId} (hrest : AtRest w y)
    (x : ClientId) : Feed.latest place (P.uuid x).text (w.client y).arrived
      = Feed.latest (puts P) x (w.server.received y) := by
  have hinbox : w.inbox y = (w.client y).arrived := by
    have hwrites : (w.server.pc (.write y)).writes = [] := by
      rcases hrest.write with hp | hp <;> rw [hp] <;> rfl
    rw [World.inbox, hrest.down, hwrites, List.append_nil, List.append_nil]
  have hpassed := (h.passage (P.uuid x).text).passed y
  rw [hinbox] at hpassed
  rw [Feed.latest, hpassed]
  rfl

/-- **Positions agree.**  In every run of clients with UUIDs of their own in which nobody leaves,
the session is ready whenever a position is to be sent, no batch pass throws positions away, and no
text passes for a position, whenever nothing is in progress, every registered client shows every
other one where its car is. -/
theorem positions_agree {l : List (World × WorldAct)} (h : (world P).Exec l w)
    (hhonest : Machine.Meets Honestly l) (hstay : Machine.Always Staying l w)
    (hq : Quiescent P w) : ∀ x ∈ w.server.clients, ∀ y ∈ w.server.clients, x ≠ y →
      (w.client y).shownAt (P.uuid x).text = some ((w.client x).X, (w.client x).Y) := by
  intro x hx y hy hne
  have hagree := agreement_of_exec h hhonest hstay
  have hsound := hagree.sound
  have hrest : ∀ c ∈ w.server.clients, AtRest w c := fun c hc =>
    hq c (hsound.registered hc).1
  have hknows := acquainted_of_exec h hhonest hstay hq x hx y hy hne
  have hinformed : w.Informed P x y := by
    rcases hagree.reported x hx y hy hne with ho | hk | hi
    · exact absurd ho (hrest x hx).not_owes
    · exact absurd hknows hk
    · exact hi
  have hlatest : Feed.latest place (P.uuid x).text (w.client y).arrived
      = some ((w.client x).X, (w.client x).Y) := by
    rw [hagree.latest_arrived (hrest y hy), ← hagree.read_of_atRest (hrest x hx)]
    rcases hinformed with ⟨t, k, haims, -⟩ | hlatest
    · exact absurd haims (hsound.not_aims hq t _ _ _)
    · exact hlatest
  -- the queues of the second client are drained, so the last position is shown
  have hdrained := (hrest y hy).drained
  have hwait : (w.client y).feed.waiting = [] := by
    simp [Client.feed, Client.untaken, Client.unrelayed, hdrained.ws, hdrained.pos]
  have hcurrent := hagree.current y (P.uuid x).text
  rw [((hagree.fed y).grounded.current_iff hwait)] at hcurrent
  refine hcurrent _ ?_
  rw [show (w.client y).feed.arrived = (w.client y).arrived.filter lane from rfl,
    Feed.latest_filter (fun _ _ => lane_of_place)]
  exact hlatest

end

/-! ### A stroll -/

/-- A client drives to the right, and writes where it is. -/
def drives (i : ClientId) : List WorldAct :=
  ([.posEmpty, .guiEmpty, .keys ⟨false, false, false, true⟩, .mouse none false true, .move true,
    .typing emptyText false, .text true, .batch, .workerFront, .workerWrite,
    .workerPop] : List ClientAct).map (.client i)

/-- After the two have met, the first drives to the right, and the second takes its position. -/
def stroll : List WorldAct :=
  meet ++ drives 0
    ++ [.server (.readFrame 0 (posFrame defaultColor.text (pair.uuid 0).text 2 0) [])]
    ++ hands (.read 0) 1 ++ takes 1

lemma stroll_runs : ((world pair).run (world pair).init stroll).isSome := by
  decide +kernel

@[irreducible] def strolledWorld : List (World × WorldAct) × World :=
  ((world pair).run (world pair).init stroll).get stroll_runs

lemma exec_stroll : (world pair).Exec strolledWorld.1 strolledWorld.2 := by
  unfold strolledWorld
  exact Machine.exec_get_run stroll_runs

lemma stroll_check : strolledWorld.1.all isSteady ∧ strolledWorld.1.all isSilent := by
  decide +kernel

lemma strolled_quiescent : Quiescent pair strolledWorld.2 ∧ 0 ∈ strolledWorld.2.server.clients ∧
    1 ∈ strolledWorld.2.server.clients ∧ (strolledWorld.2.client 0).X = 2 ∧
      (strolledWorld.2.client 0).Y = 0 := by
  decide +kernel

theorem positions_agree_stroll :
    (strolledWorld.2.client 1).shownAt (pair.uuid 0).text = some (2, 0) := by
  obtain ⟨hq, h₀, h₁, hX, hY⟩ := strolled_quiescent
  obtain ⟨hsteady, hsilent⟩ := stroll_check
  have hstay := staying_of_unbroken exec_stroll (unbroken_of_isSteady hsteady)
  have hhonest := honestly_of_steadily (steadily_of_isSteady hsteady)
    (innocently_of_isSilent hsilent)
  have hshown := positions_agree exec_stroll hhonest hstay hq 0 h₀ 1 h₁ (by decide)
  rw [hX, hY] at hshown
  exact hshown

end MultiplayerCars.Wire
