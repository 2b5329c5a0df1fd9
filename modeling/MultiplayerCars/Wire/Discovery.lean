import MultiplayerCars.Lib.Meeting
import MultiplayerCars.Wire.World

/-!
# Discovery

The server announces a newcomer to those who are registered, and a client that takes the
position of a player it did not know sends its own.  The server and its clients thereby carry
out a meeting: word of a client is one of its positions, which the client owes while it has
still to be announced, while `move` is set, and while a position that it has sent is still to be
read.
-/

namespace MultiplayerCars.Wire

open Lib Lib.Json CPPClient
open GoServer (ClientId Act Server Pc Thread Packet Peers)

/-! ### The world as a meeting -/

/-- The message says that the client is there. -/
def Tells (P : Party) (x : ClientId) (m : Text) : Prop := verdict (P.uuid x).text m = some true

/-- `serveWS` has added the client, and has still to announce it. -/
def Announcing (p : Pc) : Prop := p = .addUnlock ∨ p = .announce

namespace World

/-- A position of the first client is on its way to the second: with a goroutine that has still to
hand it over, with the writer, on the connection, or in the queues of the second client. -/
def Toward (P : Party) (w : World) (x y : ClientId) : Prop :=
  (∃ t packet, (w.server.pc t).Aims (.others (P.uuid x).text) packet y
      ∧ Tells P x packet.message.bytes) ∨
    (∃ m ∈ (w.server.pc (.write y)).writes ++ w.down y, Tells P x m) ∨
    SplitStream.Pending verdict (w.client y).view (P.uuid x).text true

/-- The second client is a player on the screen of the first. -/
def Knows (P : Party) (w : World) (x y : ClientId) : Prop :=
  (w.client x).gui.externalplayers (P.uuid y).text ≠ none

/-- Who is registered, whose positions are still to come, and who knows whom. -/
def meeting (P : Party) (w : World) : Meeting ClientId where
  joined x := x ∈ w.server.clients
  owes x := Announcing (w.server.pc (.serve x)) ∨ (w.client x).Owes (w.server.frames x)
  toward x y := x ∈ P.members ∧ w.Toward P x y
  knows x y := y ∈ P.members ∧ w.Knows P x y

end World

section

variable {P : Party} {w : World}

/-! ### Steps of the server -/

/-- The loop that sends a position of a client to the others comes to everybody. -/
lemma toward_of_loop {w' : World} {t : Thread} {x y : ClientId} {packet : Packet}
    (hpc : w'.server.pc t = w.server.loop (.others (P.uuid x).text) packet)
    (hy : y ∈ w.server.clients) (htells : Tells P x packet.message.bytes) : w'.Toward P x y := by
  refine Or.inl ⟨t, packet, ?_, htells⟩
  rw [hpc]
  exact GoServer.aims_loop hy

/-- The position that a reader has read is on its way to everybody, or another one is still to be
read. -/
lemma Sound.owes_of_read (h : Sound P w) {x y : ClientId} {frame now : Text} {s : Server}
    (ha : w.serves P (.readFrame x frame now))
    (hs : GoServer.Step w.server (.readFrame x frame now) s) (hy : y ∈ w.server.clients)
    (ho : (w.client x).Owes (w.server.frames x)) :
    (w.client x).Owes (w.server.frames x + 1) ∨
      x ∈ P.members ∧ World.Toward P { w with server := s, down := w.sent (.readFrame x frame now) }
        x y := by
  obtain ⟨f, rest, hup, rfl⟩ := up_of_serves ha
  rcases ho with hm | ⟨g, hg, hpos⟩
  · exact Or.inl (Or.inl hm)
  have hrest : (w.client x).session.written.drop (w.server.frames x + 1) = rest := by
    rw [← List.tail_drop, ← World.up, hup, List.tail_cons]
  rw [Session.unread, ← World.up, hup, List.cons_append] at hg
  rcases List.mem_cons.mp hg with hgf | hg
  · right
    rw [hgf] at hpos
    cases hs with
    | readFrame hread =>
      have hmem := h.joined.of_reading h.server.started (c := x) (by rw [hread]; simp)
      obtain ⟨hx, huuid⟩ := h.registered hmem
      obtain ⟨e, payload, car, he, hr, hwf⟩ := reply_of_position
        (h.honest_up (by rw [hup]; simp)) hpos (w.server.client x) now
      rw [huuid] at hr
      have hpc : (w.server.readFrame x f.bytes now).pc (.read x)
          = w.server.loop (.others (P.uuid x).text)
            ⟨x, .passthrough payload, .frame (w.server.frames x) e.type⟩ := by
        rw [GoServer.readFrame_pc, if_pos rfl, GoServer.handled_send he hr]
      exact ⟨hx, toward_of_loop hpc hy (verdict_position hwf)⟩
  · refine Or.inl (Or.inr ⟨g, ?_, hpos⟩)
    rw [Session.unread, hrest]
    exact hg

/-- What a client owes is announced, or read, or still owed. -/
lemma Sound.owes_server_step (h : Sound P w) {a : Act} {s : Server} (ha : w.serves P a)
    (hs : GoServer.Step w.server a s) {x y : ClientId} (hy : y ∈ w.server.clients)
    (ho : (w.meeting P).owes x) :
    (World.meeting P { w with server := s, down := w.sent a }).owes x ∨
      (World.meeting P { w with server := s, down := w.sent a }).toward x y := by
  rcases ho with hann | ho
  · -- the client has still to be announced: it stays so, or the announcement is under way
    have hmem : x ∈ w.server.clients := by
      refine h.joined x ?_
      rcases hann with hp | hp <;> simp [hp, Thread.Absent]
    obtain ⟨hx, huuid⟩ := h.registered hmem
    rcases hs.goes h.server.started (.serve x) with he | hg
    · refine Or.inl (Or.inl ?_)
      rw [Announcing, he]
      exact hann
    · rcases hann with hp | hp
      · rw [hp] at hg
        generalize hq : s.pc (.serve x) = q at hg
        cases hg with
        | unlockAdd => exact Or.inl (Or.inl (Or.inr hq))
      · rw [hp] at hg
        generalize hq : s.pc (.serve x) = q at hg
        cases hg with
        | @announce _ now =>
          obtain ⟨car, hwf⟩ := wellFormed_initPosition w.server x now
          rw [huuid] at hq hwf
          exact Or.inr ⟨hx, toward_of_loop hq hy (verdict_position hwf)⟩
  · -- its client has still to send, or has sent what the server has still to read
    rcases hs.frames_cases x with he | ⟨frame, now, rfl, hread, he⟩
    · refine Or.inl (Or.inr ?_)
      dsimp only
      rw [he]
      exact ho
    · rcases h.owes_of_read ha hs hy ho with ho | ht
      · refine Or.inl (Or.inr ?_)
        dsimp only
        rw [he]
        exact ho
      · exact Or.inr ht

/-- What `WriteMessage` has written is on the connection. -/
lemma mem_sent_of_down {a : Act} {i : ClientId} {m : Text} (hm : m ∈ w.down i) :
    m ∈ w.sent a i := by
  cases hf : a.finishes with
  | none =>
    rw [World.sent, hf]
    exact hm
  | some t =>
    rw [World.sent, hf]
    dsimp only
    by_cases hi : i = t.owner
    · subst hi
      rw [Function.update_self]
      exact List.mem_append_left _ hm
    · rw [Function.update_of_ne hi]
      exact hm

lemma mem_sent_of_writes {a : Act} {t : Thread} {m : Text} (hf : a.finishes = some t)
    (hm : m ∈ (w.server.pc t).writes) : m ∈ w.sent a t.owner := by
  rw [World.sent, hf]
  dsimp only
  rw [Function.update_self]
  exact List.mem_append_right _ hm

/-- A position on its way to a registered client stays on its way. -/
lemma Sound.toward_server_step (h : Sound P w) {a : Act} {s : Server}
    (hs : GoServer.Step w.server a s) (hno : ∀ t, s.pc t ≠ .removeLock) {x y : ClientId}
    (hne : x ≠ y) (hx : x ∈ P.members) (hy : y ∈ w.server.clients) (ht : w.Toward P x y) :
    World.Toward P { w with server := s, down := w.sent a } x y := by
  rcases ht with ⟨t, packet, haims, htells⟩ | ⟨m, hm, htells⟩ | hpend
  · obtain ⟨hy', huuid⟩ := h.registered hy
    have hadm : (Peers.others (P.uuid x).text).admits (w.server.client y).uuid := by
      rw [huuid, Peers.admits, bne_iff_ne]
      intro he
      exact hne (P.distinct x hx y hy' (UuidV4.ext he.symm))
    rcases hs.aims h.server.started haims hy hadm with haims | hwrite
    · exact Or.inl ⟨t, packet, haims, htells⟩
    · refine Or.inr (Or.inl ⟨packet.message.bytes, List.mem_append_left _ ?_, htells⟩)
      dsimp only
      rw [hwrite]
      exact List.mem_singleton_self _
  · refine Or.inr (Or.inl ⟨m, ?_, htells⟩)
    rcases List.mem_append.mp hm with hm | hm
    · rcases hs.writes_stay h.server.started hm with hm | hf | hlock
      · exact List.mem_append_left _ hm
      · exact List.mem_append_right _ (mem_sent_of_writes hf hm)
      · exact absurd hlock (hno _)
    · exact List.mem_append_right _ (mem_sent_of_down hm)
  · exact Or.inr (Or.inr hpend)

/-- A step of the server is a step of the meeting. -/
theorem Sound.meeting_server_step (h : Sound P w) {a : Act} {s : Server} (ha : w.serves P a)
    (hs : GoServer.Step w.server a s) (hno : ∀ t, s.pc t ≠ .removeLock) :
    Meeting.Step (w.meeting P)
      (World.meeting P { w with server := s, down := w.sent a }) where
  joined := fun x hx => hs.clients_subset h.unbroken hx
  newcomer := by
    intro x hx
    rcases hs.newcomer h.server hx with hx | hp
    · exact Or.inl hx
    · exact Or.inr (Or.inl (Or.inl hp))
  knows := fun x y hk => hk
  learns := fun x y hk => Or.inl hk
  owes := fun x y _ hy ho => h.owes_server_step ha hs hy ho
  toward := fun x y hne hy ht =>
    Or.inl ⟨ht.1, h.toward_server_step hs hno hne ht.1 hy ht.2⟩

/-! ### Steps of a client -/

section

variable {i : ClientId} {a : ClientAct} {c : Client} {down : ClientId → List Text}

lemma Sound.toward_client_step (h : Sound P w) (ho : Ordinary (w.client i) a)
    (hs : ClientStep (w.client i) a c)
    (hdown : ∀ j, ∀ m ∈ w.down j, m ∈ down j ∨ (j = i ∧ a = .onMessage m)) {x y : ClientId}
    (ht : w.Toward P x y) :
    World.Toward P { w with client := Function.update w.client i c, down := down } x y ∨
      World.Knows P { w with client := Function.update w.client i c, down := down } y x := by
  rcases ht with haims | ⟨m, hm, htells⟩ | hpend
  · exact Or.inl (Or.inl haims)
  · rcases List.mem_append.mp hm with hm | hm
    · exact Or.inl (Or.inr (Or.inl ⟨m, List.mem_append_left _ hm, htells⟩))
    · rcases hdown y m hm with hm | ⟨rfl, rfl⟩
      · exact Or.inl (Or.inr (Or.inl ⟨m, List.mem_append_right _ hm, htells⟩))
      · refine Or.inl (Or.inr (Or.inr ⟨m, ?_, htells⟩))
        dsimp only
        rw [Function.update_self]
        exact List.mem_append_left _ (mem_unrelayed_of_onMessage (h.player y).tidy hs)
  · by_cases hy : y = i
    · subst hy
      rcases (h.player y).pending_or_player ho hs hpend with hpend | hknows
      · refine Or.inl (Or.inr (Or.inr ?_))
        dsimp only
        rw [Function.update_self]
        exact hpend
      · right
        rw [World.Knows]
        dsimp only
        rw [Function.update_self]
        exact hknows
    · refine Or.inl (Or.inr (Or.inr ?_))
      dsimp only
      rw [Function.update_of_ne hy]
      exact hpend

/-- A step of a client is a step of the meeting. -/
theorem Sound.meeting_client_step (h : Sound P w) (hc : Civil (w.client i) a)
    (ho : Ordinary (w.client i) a) (hs : ClientStep (w.client i) a c)
    (hdown : ∀ j, ∀ m ∈ w.down j, m ∈ down j ∨ (j = i ∧ a = .onMessage m)) :
    Meeting.Step (w.meeting P)
      (World.meeting P { w with client := Function.update w.client i c, down := down }) where
  joined := fun x hx => hx
  newcomer := fun x hx => Or.inl hx
  knows := by
    rintro x y ⟨hy, hk⟩
    refine ⟨hy, ?_⟩
    exact forall_update (p := fun _ c => c.gui.externalplayers (P.uuid y).text ≠ none) hk
      ((h.player i).player_stays ho hs)
  learns := by
    rintro x y ⟨hy, hk⟩
    by_cases hx : x = i
    · subst hx
      rw [World.Knows] at hk
      dsimp only at hk
      rw [Function.update_self] at hk
      rcases (h.player x).newcomer ho hs hk with hk | ⟨⟨z, hz, huuid⟩, hmove⟩
      · exact Or.inl ⟨hy, hk⟩
      · -- the player is the registered client with that UUID
        have hyz : y = z := P.distinct y hy z (h.registered hz).1 (UuidV4.ext huuid)
        refine Or.inr ⟨hyz ▸ hz, Or.inr (Or.inl ?_)⟩
        dsimp only
        rw [Function.update_self]
        exact hmove
    · rw [World.Knows] at hk
      dsimp only at hk
      rw [Function.update_of_ne hx] at hk
      exact Or.inl ⟨hy, hk⟩
  owes := by
    rintro x y - - (hann | howes)
    · exact Or.inl (Or.inl hann)
    · refine Or.inl (Or.inr ?_)
      refine forall_update (p := fun x c => c.Owes (w.server.frames x)) howes fun howes => ?_
      refine howes.step (h.player i).paced (h.frames i) ?_ hs
      rintro ready rfl
      exact hc
  toward := by
    rintro x y - - ⟨hx, ht⟩
    rcases h.toward_client_step ho hs hdown ht with ht | hk
    · exact Or.inl ⟨hx, ht⟩
    · exact Or.inr ⟨hx, hk⟩

end

/-! ### Runs -/

/-- Every step of the world is a step of the meeting. -/
theorem Sound.meeting_step (h : Sound P w) {a : WorldAct} {w' : World} (ha : Honestly w a)
    (hs : WorldStep P w a w') (hno : Staying w') :
    Meeting.Step (w.meeting P) (w'.meeting P) := by
  cases hs with
  | server hserves hs => exact h.meeting_server_step hserves hs hno
  | @client i a c hm hs =>
    refine h.meeting_client_step ha ?_ hs fun j m hm => Or.inl hm
    have hmsg : ∀ msg, a = .onMessage msg → Welcome (w.present P) msg := fun msg he =>
      absurd he (hm msg)
    exact ordinary_of_civil ha hmsg
  | @deliver i msg rest c hd hs =>
    have hcivil : Civil (w.client i) (.onMessage msg) := trivial
    have hwelcome : Welcome (w.present P) msg := h.down i msg (by rw [hd]; simp)
    refine h.meeting_client_step hcivil hwelcome.wellFormed hs fun j m hm => ?_
    by_cases hj : j = i
    · subst hj
      rw [hd] at hm
      rcases List.mem_cons.mp hm with rfl | hm
      · exact Or.inr ⟨rfl, rfl⟩
      · refine Or.inl ?_
        rw [Function.update_self]
        exact hm
    · refine Or.inl ?_
      rw [Function.update_of_ne hj]
      exact hm

lemma mutual_start (P : Party) : Meeting.Mutual ((World.start P).meeting P) where
  known := by
    rintro x y ⟨-, hk⟩
    exact absurd rfl hk
  either := by
    intro x y _ hx
    exact absurd hx (Finset.notMem_empty x)
  answered := by
    intro x y _ hx
    exact absurd hx (Finset.notMem_empty x)

/-- In a run of honest clients in which nobody leaves, the world carries out a meeting. -/
theorem mutual_of_exec {l : List (World × WorldAct)} (h : (world P).Exec l w)
    (hhonest : Machine.Meets Honestly l) (hstay : Machine.Always Staying l w) :
    Sound P w ∧ (w.meeting P).Mutual := by
  refine h.invariant_of_always (P := fun w => Sound P w ∧ (w.meeting P).Mutual)
    ⟨Sound.start P, mutual_start P⟩ ?_ hhonest hstay
  rintro w a w' ⟨hsound, hmutual⟩ ha hno hs
  have hstep := worldStep_of_step hs
  exact ⟨hsound.step ha hstep hno, hmutual.step (hsound.meeting_step ha hstep hno)⟩

/-! ### Quiescent states -/

/-- Nothing goes on at a client: no handler is in progress, no message and no frame is on its way,
the queues are empty, and no position has to be sent. -/
structure AtRest (w : World) (i : ClientId) : Prop where
  serve : w.server.pc (.serve i) = .idle ∨ w.server.pc (.serve i) = .done
  read : w.server.pc (.read i) = .idle ∨ w.server.pc (.read i) = .reading
  write : w.server.pc (.write i) = .idle ∨ w.server.pc (.write i) = .select
  up : w.up i = []
  down : w.down i = []
  asyncWriteQueue : (w.client i).session.asyncWriteQueue = []
  drained : Drained (w.client i)
  move : (w.client i).gui.move = false

instance (w : World) (i : ClientId) : Decidable (AtRest w i) :=
  decidable_of_iff
    ((w.server.pc (.serve i) = .idle ∨ w.server.pc (.serve i) = .done)
      ∧ (w.server.pc (.read i) = .idle ∨ w.server.pc (.read i) = .reading)
      ∧ (w.server.pc (.write i) = .idle ∨ w.server.pc (.write i) = .select)
      ∧ w.up i = [] ∧ w.down i = [] ∧ (w.client i).session.asyncWriteQueue = []
      ∧ ((w.client i).wsUpdatedJsonQueue = [] ∧ (w.client i).positionJsonQueue = []
        ∧ (w.client i).guiJsonQueue = [])
      ∧ (w.client i).gui.move = false)
    ⟨fun ⟨hs, hr, hw, hu, hd, hq, ⟨h₁, h₂, h₃⟩, hm⟩ => ⟨hs, hr, hw, hu, hd, hq, ⟨h₁, h₂, h₃⟩, hm⟩,
      fun ⟨hs, hr, hw, hu, hd, hq, ⟨h₁, h₂, h₃⟩, hm⟩ => ⟨hs, hr, hw, hu, hd, hq, ⟨h₁, h₂, h₃⟩, hm⟩⟩

/-- Nothing goes on anywhere. -/
def Quiescent (P : Party) (w : World) : Prop := ∀ i ∈ P.members, AtRest w i

instance (P : Party) (w : World) : Decidable (Quiescent P w) :=
  inferInstanceAs (Decidable (∀ i ∈ P.members, AtRest w i))

/-- A goroutine that has been started belongs to a member. -/
lemma Sound.member_of_started (h : Sound P w) {t : Thread} (ht : w.server.pc t ≠ .idle) :
    t.owner ∈ P.members := by
  refine (h.member t.owner fun hidle => ht ?_).1
  cases t with
  | serve c => exact hidle
  | read c =>
    refine (h.server.started c).1.mpr ?_
    rw [show w.server.pc (.serve c) = .idle from hidle]
    exact id
  | write c =>
    refine (h.server.started c).2.mpr ?_
    rw [show w.server.pc (.serve c) = .idle from hidle]
    simp

lemma AtRest.not_owes {i : ClientId} (h : AtRest w i) : ¬ (w.meeting P).owes i := by
  rintro (hann | hm | ⟨f, hf, -⟩)
  · rcases h.serve with hp | hp <;> rw [hp] at hann <;> simp [Announcing] at hann
  · rw [h.move] at hm
    cases hm
  · have hpending : (w.client i).session.pending = [] := by
      rw [Session.pending, h.asyncWriteQueue]
      split <;> rfl
    rw [Session.unread, hpending, ← World.up, h.up] at hf
    simp at hf

/-- At rest no goroutine has anything to hand over. -/
lemma Sound.not_aims (h : Sound P w) (hq : Quiescent P w) (t : Thread) (peers : Peers)
    (packet : Packet) (y : ClientId) : ¬ (w.server.pc t).Aims peers packet y := by
  intro haims
  have hrest := hq t.owner (h.member_of_started fun hidle => by rw [hidle] at haims; exact haims)
  cases t with
  | serve c =>
    rcases hrest.serve with hp | hp <;> rw [show w.server.pc (.serve c) = _ from hp] at haims <;>
      exact haims
  | read c =>
    rcases hrest.read with hp | hp <;> rw [show w.server.pc (.read c) = _ from hp] at haims <;>
      exact haims
  | write c =>
    rcases hrest.write with hp | hp <;> rw [show w.server.pc (.write c) = _ from hp] at haims <;>
      exact haims

lemma Sound.not_toward (h : Sound P w) (hq : Quiescent P w) {x y : ClientId}
    (hy : y ∈ P.members) : ¬ w.Toward P x y := by
  have hrest := hq y hy
  rintro (⟨t, packet, haims, -⟩ | ⟨m, hm, -⟩ | ⟨m, hm, -⟩)
  · exact h.not_aims hq t _ _ _ haims
  · rw [hrest.down, List.append_nil] at hm
    rcases hrest.write with hp | hp <;> rw [hp] at hm <;> simp [Pc.writes] at hm
  · have hdrained := hrest.drained
    simp [Client.view, Client.unrelayed, Client.untaken, hdrained.ws, hdrained.pos] at hm

/-- Every registered client has every other one on its screen. -/
def Acquainted (P : Party) (w : World) : Prop :=
  ∀ x ∈ w.server.clients, ∀ y ∈ w.server.clients, x ≠ y →
    (w.client x).gui.externalplayers (P.uuid y).text ≠ none

/-- Where nothing is in progress after a run of honest clients, they have all met. -/
lemma acquainted_of_exec {l : List (World × WorldAct)} (h : (world P).Exec l w)
    (hhonest : Machine.Meets Honestly l) (hstay : Machine.Always Staying l w)
    (hq : Quiescent P w) : Acquainted P w := by
  intro x hx y hy hne
  obtain ⟨hsound, hmutual⟩ := mutual_of_exec h hhonest hstay
  have hmember : ∀ c ∈ w.server.clients, c ∈ P.members := fun c hc => (hsound.registered hc).1
  refine (hmutual.complete ?_ ?_ hne hx hy).2
  · intro c hc
    exact (hq c (hmember c hc)).not_owes
  · rintro a b ha hb ⟨-, ht⟩
    exact hsound.not_toward hq (hmember b hb) ht

/-- **Discovery is complete, unless a text hides a car.**  In every run of clients with UUIDs of
their own in which nobody leaves, the sessions are ready for all positions, none is thrown away,
and no text passes for a position, whenever nothing is in progress every registered client has
every other one on its screen. -/
theorem discovery_complete {l : List (World × WorldAct)} (h : (world P).Exec l w)
    (hsteady : Machine.Meets Steadily l) (hstay : Machine.Always Staying l w)
    (hinnocent : Machine.Meets Innocently l) (hq : Quiescent P w) : Acquainted P w :=
  acquainted_of_exec h (honestly_of_steadily hsteady hinnocent) hstay hq

end

/-! ### Two clients meet -/

/-- Nobody leaves in a run in which no reader fails and no write. -/
lemma staying_of_unbroken {P : Party} {l : List (World × WorldAct)} {w : World}
    (h : (world P).Exec l w)
    (hl : Machine.Meets (fun _ a => ∀ b, a = .server b → b.breaks = false) l) :
    Machine.Always Staying l w := by
  refine h.always_of_meets (fun l w h hl => ?_) hl
  have hboth : GoServer.Inv w.server ∧ Staying w := by
    refine h.invariant_of_meets (P := fun w => GoServer.Inv w.server ∧ Staying w)
      (I := fun _ => True) (fun _ _ _ => trivial) ⟨GoServer.Inv.init, ?_⟩ ?_ hl
    · intro t ht
      cases ht
    · rintro w a w' - ⟨hinv, hstay⟩ ha hs
      cases worldStep_of_step hs with
      | server hserves hstep =>
        refine ⟨hinv.step hstep, fun t ht => ?_⟩
        rcases hstep.breaks_of_removeLock hinv.started ht with hold | hbreaks
        · exact hstay t hold
        · rw [ha _ rfl] at hbreaks
          cases hbreaks
      | client => exact ⟨hinv, hstay⟩
      | deliver => exact ⟨hinv, hstay⟩
  exact hboth.2

def otherUuid : UuidV4 where
  text := "11111111-1111-4111-9111-111111111111".toList
  shape := by decide

def pair : Party where
  members := {0, 1}
  uuid := fun i => if i = 0 then someUuid else otherUuid
  distinct := by decide

/-- A client connects, is added, and comes to its announcement. -/
def joins (i : ClientId) : List WorldAct :=
  [.server (.connect i (pair.uuid i).text defaultColor.text), .server (.lockAdd i),
    .server (.insert i), .server (.unlockAdd i), .server (.announce i [])]

/-- `serveWS` starts the two loops. -/
def starts (i : ClientId) : List WorldAct := [.server (.spawnRead i), .server (.spawnWrite i)]

/-- A goroutine hands a message to a client, and its loop ends; the client relays the message. -/
def hands (t : Thread) (i : ClientId) : List WorldAct :=
  [.server (.pick t i), .server (.handoff t i), .server (.endRange t), .server (.wrote i),
    .deliver i, .client i .relayFront, .client i .relayMove, .client i .relayPop]

/-- The main loop takes a position, and the player does nothing. -/
def takes (i : ClientId) : List WorldAct :=
  (([.posEmpty, .posFront, .posPop, .guiEmpty] : List ClientAct) ++ idleFrame).map (.client i)

/-- A position is written, and read by the server. -/
def answers (i : ClientId) : List WorldAct :=
  [.client i .workerFront, .client i .workerWrite, .client i .workerPop,
    .server (.readFrame i (posFrame defaultColor.text (pair.uuid i).text 0 0) [])]

/-- A client joins, and nobody is there. -/
def opens : List WorldAct := joins 0 ++ [.server (.endRange (.serve 0))] ++ starts 0

/-- A second one joins, the first answers, and the second answers that. -/
def follows : List WorldAct :=
  joins 1 ++ hands (.serve 1) 0 ++ starts 1
    ++ takes 0 ++ answers 0 ++ hands (.read 0) 1
    ++ takes 1 ++ answers 1 ++ hands (.read 1) 0 ++ takes 0

def meet : List WorldAct := opens ++ follows

lemma meet_runs : ((world pair).run (world pair).init meet).isSome := by
  decide +kernel

@[irreducible] def metWorld : List (World × WorldAct) × World :=
  ((world pair).run (world pair).init meet).get meet_runs

lemma exec_meet : (world pair).Exec metWorld.1 metWorld.2 := by
  unfold metWorld
  exact Machine.exec_get_run meet_runs

/-- A check that the clients are steady, and that nothing breaks. -/
def isSteady (x : World × WorldAct) : Bool :=
  match x.2 with
  | .server a => !a.breaks
  | .client i .batch => !(x.1.client i).discards
  | .client _ (.move ready) => ready
  | _ => true

/-- A check that nobody sends a text. -/
def isSilent (x : World × WorldAct) : Bool :=
  match x.2 with
  | .client i (.text _) => !(x.1.client i).text
  | _ => true

section Checks

variable {l : List (World × WorldAct)}

lemma steadily_of_isSteady (h : l.all isSteady) : Machine.Meets Steadily l := by
  rintro ⟨w, a⟩ hx
  have hsteady := List.all_eq_true.mp h _ hx
  cases a with
  | client i a =>
    cases a with
    | batch =>
      have hno : (w.client i).discards = false := by simpa [isSteady] using hsteady
      exact hno
    | move ready =>
      intro _
      exact hsteady
    | _ => trivial
  | _ => trivial

lemma unbroken_of_isSteady (h : l.all isSteady) :
    Machine.Meets (fun _ a => ∀ b, a = .server b → b.breaks = false) l := by
  rintro ⟨w, a⟩ hx b hb
  have ha : a = .server b := hb
  have hsteady := List.all_eq_true.mp h _ hx
  simpa [isSteady, ha] using hsteady

lemma innocently_of_isSilent (h : l.all isSilent) : Machine.Meets Innocently l := by
  rintro ⟨w, a⟩ hx
  have hsilent := List.all_eq_true.mp h _ hx
  cases a with
  | client i a =>
    cases a with
    | text ready =>
      have hno : (w.client i).text = false := by simpa [isSilent] using hsilent
      intro _ ht
      rw [hno] at ht
      cases ht
    | _ => trivial
  | _ => trivial

end Checks

lemma meet_check : metWorld.1.all isSteady ∧ metWorld.1.all isSilent := by
  decide +kernel

lemma met_quiescent : Quiescent pair metWorld.2 ∧ 0 ∈ metWorld.2.server.clients ∧
    1 ∈ metWorld.2.server.clients := by
  decide +kernel

theorem discovery_complete_pair :
    (metWorld.2.client 0).gui.externalplayers (pair.uuid 1).text ≠ none ∧
      (metWorld.2.client 1).gui.externalplayers (pair.uuid 0).text ≠ none := by
  obtain ⟨hsteady, hsilent⟩ := meet_check
  have hstay := staying_of_unbroken exec_meet (unbroken_of_isSteady hsteady)
  obtain ⟨hq, h₀, h₁⟩ := met_quiescent
  have hne : (0 : ClientId) ≠ 1 := by decide
  have hcomplete := discovery_complete exec_meet (steadily_of_isSteady hsteady) hstay
    (innocently_of_isSilent hsilent) hq
  exact ⟨hcomplete 0 h₀ 1 h₁ hne, hcomplete 1 h₁ 0 h₀ hne.symm⟩

/-! ### A text that hides a car -/

/-- A text that nothing escapes.  It closes the payload of its frame, and makes the frame a position
whose payload says that the first client has left. -/
def exitText : TypedText where
  text := "\"\x7d,\"Type\":0,\"Payload\":\x7b\"Type\":3,\"UUID\":\"".toList ++ someUuid.text
    ++ "\"\x7d,\"x\":\x7b\"y\":\"".toList
  length := by decide
  range := by decide

/-- A client sends a text, and the server reads it. -/
def utters (i : ClientId) (t : TypedText) : List WorldAct :=
  ([.posEmpty, .guiEmpty, .keys ⟨false, false, false, false⟩, .mouse none false true, .move true,
    .typing t true, .text true, .batch] : List ClientAct).map (.client i)
    ++ [.server (.readFrame i (chatFrame (pair.uuid i) defaultColor t) [])]

/-- The main loop takes a message of the gui queue, and the player does nothing. -/
def takesGui (i : ClientId) : List WorldAct :=
  (([.posEmpty, .guiEmpty, .guiSize, .guiFront, .guiPop] : List ClientAct) ++ idleFrame).map
    (.client i)

/-- After the two have met, the first says that text, and the second takes what it receives. -/
def hide : List WorldAct := meet ++ utters 0 exitText ++ hands (.read 0) 1 ++ takesGui 1

lemma hide_runs : ((world pair).run (world pair).init hide).isSome := by
  decide +kernel

@[irreducible] def hiddenWorld : List (World × WorldAct) × World :=
  ((world pair).run (world pair).init hide).get hide_runs

lemma exec_hide : (world pair).Exec hiddenWorld.1 hiddenWorld.2 := by
  unfold hiddenWorld
  exact Machine.exec_get_run hide_runs

lemma hide_check : hiddenWorld.1.all isSteady ∧ Quiescent pair hiddenWorld.2 ∧
    0 ∈ hiddenWorld.2.server.clients ∧ 1 ∈ hiddenWorld.2.server.clients ∧
      (hiddenWorld.2.client 1).gui.externalplayers (pair.uuid 0).text = none := by
  decide +kernel

/-- A text can take a client off the screen of another one. -/
theorem car_hidden : ¬ ∀ l w, (world pair).Exec l w → Machine.Meets Steadily l →
    Machine.Always Staying l w → Quiescent pair w → Acquainted pair w := by
  intro h
  obtain ⟨hsteady, hq, h₀, h₁, hnone⟩ := hide_check
  have hstay := staying_of_unbroken exec_hide (unbroken_of_isSteady hsteady)
  have hmet := h _ _ exec_hide (steadily_of_isSteady hsteady) hstay hq
  exact hmet 1 h₁ 0 h₀ (by decide) hnone

end MultiplayerCars.Wire
