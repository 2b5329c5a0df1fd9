import MultiplayerCars.GoServer.Manager

/-!
# What one step of the server does, and what holds in every state

The step function is inverted once: each action has its condition on the state and its effect.
The invariants that every later argument rests on follow from that, each with one lemma for a
goroutine that moves: which places belong to which goroutine, who holds the mutex, when the two
loops of a client have been started, and when a client is out of the registry.
-/

namespace MultiplayerCars.GoServer

open Lib Lib.Json

/-- Goroutines that stand at different places are different. -/
lemma ne_of_pc {s : Server} {t t' : Thread} {p q : Pc} (ht : s.pc t = p) (ht' : s.pc t' = q)
    (h : p ≠ q) : t ≠ t' := by
  rintro rfl
  exact h (ht.symm.trans ht')

/-! ### One step -/

/-- What one step does: for each action, what it needs of the state and what it makes of it. -/
inductive Step (s : Server) : Act → Server → Prop
  | connect {c : ClientId} {uuid color : Text} (hc : s.pc (.serve c) = .idle) (hu : uuid ≠ [])
      (hk : color ≠ []) : Step s (.connect c uuid color)
        ({ s with client := Function.update s.client c ⟨uuid, color⟩ }.goto (.serve c) .addLock)
  | lockAdd {c : ClientId} (hc : s.pc (.serve c) = .addLock) (hl : s.lock = none) :
      Step s (.lockAdd c) ({ s with lock := some (.serve c) }.goto (.serve c) .addInsert)
  | insert {c : ClientId} (hc : s.pc (.serve c) = .addInsert) :
      Step s (.insert c) ({ s with clients := insert c s.clients }.goto (.serve c) .addUnlock)
  | unlockAdd {c : ClientId} (hc : s.pc (.serve c) = .addUnlock) :
      Step s (.unlockAdd c) ({ s with lock := none }.goto (.serve c) .announce)
  | announce {c : ClientId} {now : Text} (hc : s.pc (.serve c) = .announce) :
      Step s (.announce c now)
        (s.goto (.serve c) (s.loop (.others (s.client c).uuid) (s.initPosition c now)))
  | pick {t : Thread} {p : ClientId} {l : RangeLoop} (ht : s.pc t = .range l)
      (hp : s.Produces l p) : Step s (.pick t p) (s.goto t (.send (l.mark p) p))
  | handoff {t : Thread} {p : ClientId} {l : RangeLoop} (ht : s.pc t = .send l p)
      (hw : s.pc (.write p) = .select) : Step s (.handoff t p)
        (({ s with received := Function.update s.received p (s.received p ++ [l.packet]) }.goto
          t (.range l)).goto (.write p) (.writeText l.packet))
  | endRange {t : Thread} {l : RangeLoop} (ht : s.pc t = .range l) (hx : s.Exhausted l) :
      Step s (.endRange t) (s.goto t l.next)
  | spawnRead {c : ClientId} (hc : s.pc (.serve c) = .spawnRead) :
      Step s (.spawnRead c) ((s.goto (.serve c) .spawnWrite).goto (.read c) .reading)
  | spawnWrite {c : ClientId} (hc : s.pc (.serve c) = .spawnWrite) :
      Step s (.spawnWrite c) ((s.goto (.serve c) .done).goto (.write c) .select)
  | readFrame {c : ClientId} {frame now : Text} (hc : s.pc (.read c) = .reading)
      (hf : byteLength frame ≤ readLimit) :
      Step s (.readFrame c frame now) (s.readFrame c frame now)
  | readStop {c : ClientId} (hc : s.pc (.read c) = .reading) :
      Step s (.readStop c) (s.goto (.read c) .removeLock)
  | debugDone {c : ClientId} {payload : Text} (hc : s.pc (.read c) = .debugWrite payload) :
      Step s (.debugDone c) (s.goto (.read c) .reading)
  | wrote {c : ClientId} {packet : Packet} (hc : s.pc (.write c) = .writeText packet) :
      Step s (.wrote c) (s.goto (.write c) .select)
  | ping {c : ClientId} (hc : s.pc (.write c) = .select) :
      Step s (.ping c) (s.goto (.write c) .writePing)
  | pingDone {c : ClientId} {ok : Bool} (hc : s.pc (.write c) = .writePing) :
      Step s (.pingDone c ok) (s.written c ok)
  | tick {c : ClientId} {now : Text} (hc : s.pc (.write c) = .select) :
      Step s (.tick c now) (s.goto (.write c) (.writeTime (s.timeStamp c now)))
  | tickDone {c : ClientId} {ok : Bool} {e : BroadcastEvent} (hc : s.pc (.write c) = .writeTime e) :
      Step s (.tickDone c ok) (s.written c ok)
  | lockRemove {t : Thread} (ht : s.pc t = .removeLock) (hl : s.lock = none) :
      Step s (.lockRemove t) ({ s with lock := some t }.goto t .removeCheck)
  | check {t : Thread} (ht : s.pc t = .removeCheck) :
      Step s (.check t) (s.goto t (if t.owner ∈ s.clients then .removeClose else .removeUnlock))
  | close {t : Thread} (ht : s.pc t = .removeClose) :
      Step s (.close t) ({ s with
        closes := Function.update s.closes t.owner (s.closes t.owner + 1) }.goto t .removeDelete)
  | delete {t : Thread} {now : Text} (ht : s.pc t = .removeDelete) :
      Step s (.delete t now) ({ s with clients := s.clients.erase t.owner }.goto t
        (.range ⟨.others (s.client t.owner).uuid, s.clientExit t.owner now,
          s.clients.erase t.owner, ∅⟩))
  | unlockRemove {t : Thread} (ht : s.pc t = .removeUnlock) :
      Step s (.unlockRemove t) ({ s with lock := none }.goto t .done)

/-- Every step of the step function is one of those. -/
theorem step_cases {s s' : Server} {a : Act} (h : manager.step s a = some s') : Step s a s' := by
  cases a <;>
    simp only [manager, Server.step, Option.ite_none_right_eq_some, Option.some.injEq] at h
  case connect c uuid color =>
    obtain ⟨⟨hc, hu, hk⟩, rfl⟩ := h
    exact .connect hc hu hk
  case lockAdd c =>
    obtain ⟨⟨hc, hl⟩, rfl⟩ := h
    exact .lockAdd hc hl
  case insert c =>
    obtain ⟨hc, rfl⟩ := h
    exact .insert hc
  case unlockAdd c =>
    obtain ⟨hc, rfl⟩ := h
    exact .unlockAdd hc
  case announce c now =>
    obtain ⟨hc, rfl⟩ := h
    exact .announce hc
  case pick t p =>
    split at h
    · rename_i l ht
      obtain ⟨hp, rfl⟩ := by simpa only [Option.ite_none_right_eq_some, Option.some.injEq] using h
      exact .pick ht hp
    · cases h
  case handoff t p =>
    split at h
    · rename_i l q ht
      obtain ⟨⟨rfl, hw⟩, rfl⟩ := by
        simpa only [Option.ite_none_right_eq_some, Option.some.injEq] using h
      exact .handoff ht hw
    · cases h
  case endRange t =>
    split at h
    · rename_i l ht
      obtain ⟨hx, rfl⟩ := by simpa only [Option.ite_none_right_eq_some, Option.some.injEq] using h
      exact .endRange ht hx
    · cases h
  case spawnRead c =>
    obtain ⟨hc, rfl⟩ := h
    exact .spawnRead hc
  case spawnWrite c =>
    obtain ⟨hc, rfl⟩ := h
    exact .spawnWrite hc
  case readFrame c frame now =>
    obtain ⟨⟨hc, hf⟩, rfl⟩ := h
    exact .readFrame hc hf
  case readStop c =>
    obtain ⟨hc, rfl⟩ := h
    exact .readStop hc
  case debugDone c =>
    split at h
    · rename_i payload hc
      cases h
      exact .debugDone hc
    · cases h
  case wrote c =>
    split at h
    · rename_i packet hc
      cases h
      exact .wrote hc
    · cases h
  case ping c =>
    obtain ⟨hc, rfl⟩ := h
    exact .ping hc
  case pingDone c ok =>
    obtain ⟨hc, rfl⟩ := h
    exact .pingDone hc
  case tick c now =>
    obtain ⟨hc, rfl⟩ := h
    exact .tick hc
  case tickDone c ok =>
    split at h
    · rename_i e hc
      cases h
      exact .tickDone hc
    · cases h
  case lockRemove t =>
    obtain ⟨⟨ht, hl⟩, rfl⟩ := h
    exact .lockRemove ht hl
  case check t =>
    obtain ⟨ht, rfl⟩ := h
    exact .check ht
  case close t =>
    obtain ⟨ht, rfl⟩ := h
    exact .close ht
  case delete t now =>
    obtain ⟨ht, rfl⟩ := h
    exact .delete ht
  case unlockRemove t =>
    obtain ⟨ht, rfl⟩ := h
    exact .unlockRemove ht

/-- Where a reader can be after it has handled a frame. -/
inductive Handled (s : Server) (c : ClientId) (frame : Text) : Pc → Prop
  | bad : Handled s c frame .removeLock
  | nothing : Handled s c frame .reading
  | debug (payload : Text) : Handled s c frame (.debugWrite payload)
  | send {e : Event} (he : unmarshalEvent frame = some e) (peers : Peers) (m : Message) :
      Handled s c frame (s.loop peers ⟨c, m, .frame (s.frames c) e.type⟩)

lemma routeEvent_uuid (e : Event) (c : Client) (now : Text) :
    (routeEvent e c now).1.uuid = c.uuid := by
  simp only [routeEvent, handlePosition, handleColorUpdate, handleTextUpdate, handlePositionDebug]
  split_ifs
  · rfl
  · split <;> rfl
  · split <;> rfl
  · rfl
  · rfl

/-- A frame moves the reader, and changes the colour of its client at most. -/
lemma readFrame_cases (s : Server) (c : ClientId) (frame now : Text) :
    ∃ p color, Handled s c frame p ∧ s.readFrame c frame now = { s with
      frames := Function.update s.frames c (s.frames c + 1)
      client := Function.update s.client c ⟨(s.client c).uuid, color⟩ }.goto (.read c) p := by
  have hself : Function.update s.client c ⟨(s.client c).uuid, (s.client c).color⟩ = s.client := by
    simp
  rw [Server.readFrame]
  cases he : unmarshalEvent frame with
  | none =>
    refine ⟨.removeLock, (s.client c).color, .bad, ?_⟩
    rw [hself]
  | some e =>
    have huuid := routeEvent_uuid e (s.client c) now
    have heta : (routeEvent e (s.client c) now).1
        = ⟨(s.client c).uuid, (routeEvent e (s.client c) now).1.color⟩ := by
      rw [← huuid]
    dsimp only
    cases hr : (routeEvent e (s.client c) now).2 with
    | nothing => exact ⟨.reading, (routeEvent e (s.client c) now).1.color, .nothing, by rw [← heta]⟩
    | send peers m => exact ⟨_, (routeEvent e (s.client c) now).1.color, .send he peers m,
        by rw [← heta]⟩
    | debug payload => exact ⟨_, (routeEvent e (s.client c) now).1.color, .debug payload,
        by rw [← heta]⟩

/-! ### How a goroutine comes to a place -/

/-- The client on whose `egress` a goroutine at this place is blocked. -/
def Pc.receiver : Pc → Option ClientId
  | .send _ p => some p
  | _ => none

lemma exists_send_iff {q : Pc} {p : ClientId} : (∃ l, q = .send l p) ↔ q.receiver = some p := by
  cases q <;> simp [Pc.receiver]

lemma send_of_goto {s : Server} {t t' : Thread} {q : Pc} {l : RangeLoop} {p : ClientId}
    (h : (s.goto t' q).pc t = .send l p) (hq : ∀ l p, q ≠ .send l p) : s.pc t = .send l p := by
  rw [Server.goto_pc] at h
  split_ifs at h
  · exact absurd h (hq l p)
  · exact h

lemma idle_of_goto {s : Server} {t t' : Thread} {q : Pc} (h : (s.goto t' q).pc t = .idle)
    (hq : q ≠ .idle) : s.pc t = .idle := by
  rw [Server.goto_pc] at h
  split_ifs at h
  · exact absurd h hq
  · exact h

lemma Handled.not_send {s : Server} {c : ClientId} {frame : Text} {q : Pc}
    (h : Handled s c frame q) (l : RangeLoop)
    (p : ClientId) : q ≠ .send l p := by
  cases h <;> simp [Server.loop]

lemma next_not_send (l l' : RangeLoop) (p : ClientId) : l.next ≠ .send l' p := by
  rw [RangeLoop.next]
  split <;> simp

/-- A goroutine is at a send because it was there before, or because its range loop has just
produced the receiver. -/
theorem Step.send_cases {s s' : Server} {a : Act} (hs : Step s a s') {t : Thread}
    {l : RangeLoop} {p : ClientId} (h : s'.pc t = .send l p) :
    s.pc t = .send l p ∨
      (a = .pick t p ∧ ∃ l₀, s.pc t = .range l₀ ∧ s.Produces l₀ p ∧ l = l₀.mark p) := by
  cases hs with
  | connect => exact Or.inl (send_of_goto h (by simp))
  | lockAdd => exact Or.inl (send_of_goto h (by simp))
  | insert => exact Or.inl (send_of_goto h (by simp))
  | unlockAdd => exact Or.inl (send_of_goto h (by simp))
  | announce => exact Or.inl (send_of_goto h (by simp [Server.loop]))
  | @pick t₀ p₀ l₀ ht hp =>
    rw [Server.goto_pc] at h
    split_ifs at h with he
    · injection h with hl hp₀
      subst he hp₀
      exact Or.inr ⟨rfl, l₀, ht, hp, hl.symm⟩
    · exact Or.inl h
  | handoff => exact Or.inl (send_of_goto (send_of_goto h (by simp)) (by simp))
  | endRange => exact Or.inl (send_of_goto h (next_not_send _))
  | spawnRead => exact Or.inl (send_of_goto (send_of_goto h (by simp)) (by simp))
  | spawnWrite => exact Or.inl (send_of_goto (send_of_goto h (by simp)) (by simp))
  | readFrame =>
    obtain ⟨q, color, hq, heq⟩ := readFrame_cases s _ _ _
    rw [heq] at h
    exact Or.inl (send_of_goto h hq.not_send)
  | readStop => exact Or.inl (send_of_goto h (by simp))
  | debugDone => exact Or.inl (send_of_goto h (by simp))
  | wrote => exact Or.inl (send_of_goto h (by simp))
  | ping => exact Or.inl (send_of_goto h (by simp))
  | @pingDone c ok => exact Or.inl (send_of_goto h (by cases ok <;> simp))
  | tick => exact Or.inl (send_of_goto h (by simp))
  | @tickDone c ok => exact Or.inl (send_of_goto h (by cases ok <;> simp))
  | lockRemove => exact Or.inl (send_of_goto h (by simp))
  | check => exact Or.inl (send_of_goto h (by split_ifs <;> simp))
  | close => exact Or.inl (send_of_goto h (by simp))
  | delete => exact Or.inl (send_of_goto h (by simp))
  | unlockRemove => exact Or.inl (send_of_goto h (by simp))

/-- No goroutine goes back to where it was before it was started. -/
theorem Step.idle_of_idle {s s' : Server} {a : Act} (hs : Step s a s') {t : Thread}
    (h : s'.pc t = .idle) : s.pc t = .idle := by
  cases hs with
  | announce => exact idle_of_goto h (by simp [Server.loop])
  | handoff => exact idle_of_goto (idle_of_goto h (by simp)) (by simp)
  | endRange => exact idle_of_goto h (by rw [RangeLoop.next]; split <;> simp)
  | spawnRead => exact idle_of_goto (idle_of_goto h (by simp)) (by simp)
  | spawnWrite => exact idle_of_goto (idle_of_goto h (by simp)) (by simp)
  | readFrame =>
    obtain ⟨q, color, hq, heq⟩ := readFrame_cases s _ _ _
    rw [heq] at h
    exact idle_of_goto h (by cases hq <;> simp [Server.loop])
  | @pingDone c ok => exact idle_of_goto h (by cases ok <;> simp)
  | @tickDone c ok => exact idle_of_goto h (by cases ok <;> simp)
  | check => exact idle_of_goto h (by split_ifs <;> simp)
  | _ => exact idle_of_goto h (by simp)

lemma done_of_goto {s : Server} {t t' : Thread} {q : Pc} (h : (s.goto t' q).pc t = .done)
    (hq : q ≠ .done) : s.pc t = .done := by
  rw [Server.goto_pc] at h
  split_ifs at h
  · exact absurd h hq
  · exact h

lemma next_ne_done (l : RangeLoop) : l.next ≠ .done := by
  rw [RangeLoop.next]
  split <;> simp

/-- A writer returns by releasing the mutex, at the end of its `removeClient`. -/
theorem Step.done_cases {s s' : Server} {a : Act} (hs : Step s a s') {p : ClientId}
    (h : s'.pc (.write p) = .done) : s.pc (.write p) = .done ∨ a = .unlockRemove (.write p) := by
  cases hs with
  | announce => exact Or.inl (done_of_goto h (by simp [Server.loop]))
  | handoff => exact Or.inl (done_of_goto (done_of_goto h (by simp)) (by simp))
  | endRange => exact Or.inl (done_of_goto h (next_ne_done _))
  | spawnRead => exact Or.inl (done_of_goto (done_of_goto h (by simp)) (by simp))
  | spawnWrite =>
    have h₁ := done_of_goto h (by simp)
    rw [Server.goto_pc_of_ne (by simp)] at h₁
    exact Or.inl h₁
  | readFrame =>
    obtain ⟨q, color, hq, heq⟩ := readFrame_cases s _ _ _
    rw [heq] at h
    exact Or.inl (done_of_goto h (by cases hq <;> simp [Server.loop]))
  | @pingDone c ok => exact Or.inl (done_of_goto h (by cases ok <;> simp))
  | @tickDone c ok => exact Or.inl (done_of_goto h (by cases ok <;> simp))
  | check => exact Or.inl (done_of_goto h (by split_ifs <;> simp))
  | @unlockRemove t ht =>
    rw [Server.goto_pc] at h
    split_ifs at h with he
    · exact Or.inr (by rw [he])
    · exact Or.inl h
  | _ => exact Or.inl (done_of_goto h (by simp))

lemma removeLock_of_goto {s : Server} {t t' : Thread} {q : Pc}
    (h : (s.goto t' q).pc t = .removeLock) (hq : t = t' → q ≠ .removeLock) :
    s.pc t = .removeLock := by
  rw [Server.goto_pc] at h
  split_ifs at h with he
  · exact absurd h (hq he)
  · exact h

/-- A writer leaves its loop on a failed ping or a failed time stamp. -/
theorem Step.removeLock_cases {s s' : Server} {a : Act} (hs : Step s a s') {p : ClientId}
    (h : s'.pc (.write p) = .removeLock) :
    s.pc (.write p) = .removeLock ∨ a = .pingDone p false ∨ a = .tickDone p false := by
  cases hs with
  | announce => exact Or.inl (removeLock_of_goto h (by simp))
  | handoff => exact Or.inl (removeLock_of_goto (removeLock_of_goto h (by simp)) (by simp))
  | endRange =>
    exact Or.inl (removeLock_of_goto h fun _ => by rw [RangeLoop.next]; split <;> simp)
  | spawnRead => exact Or.inl (removeLock_of_goto (removeLock_of_goto h (by simp)) (by simp))
  | spawnWrite => exact Or.inl (removeLock_of_goto (removeLock_of_goto h (by simp)) (by simp))
  | readFrame =>
    obtain ⟨q, color, hq, heq⟩ := readFrame_cases s _ _ _
    rw [heq] at h
    exact Or.inl (removeLock_of_goto h (by simp))
  | @pingDone c ok =>
    cases ok with
    | true => exact Or.inl (removeLock_of_goto h (by simp))
    | false =>
      rw [Server.written, Server.goto_pc] at h
      split_ifs at h with he
      · injection he with he
        exact Or.inr (Or.inl (by rw [he]))
      · exact Or.inl h
  | @tickDone c ok =>
    cases ok with
    | true => exact Or.inl (removeLock_of_goto h (by simp))
    | false =>
      rw [Server.written, Server.goto_pc] at h
      split_ifs at h with he
      · injection he with he
        exact Or.inr (Or.inr (by rw [he]))
      · exact Or.inl h
  | check => exact Or.inl (removeLock_of_goto h fun _ => by split_ifs <;> simp)
  | _ => exact Or.inl (removeLock_of_goto h (by simp))

/-- A client is in the registry because it was, or because `addClient` has just inserted it. -/
theorem Step.mem_clients {s s' : Server} {a : Act} (hs : Step s a s') {p : ClientId}
    (h : p ∈ s'.clients) : p ∈ s.clients ∨ s.pc (.serve p) = .addInsert := by
  cases hs with
  | @insert c hc =>
    rcases Finset.mem_insert.mp h with rfl | hp
    · exact Or.inr hc
    · exact Or.inl hp
  | readFrame =>
    obtain ⟨q, color, hq, heq⟩ := readFrame_cases s _ _ _
    rw [heq] at h
    exact Or.inl h
  | delete => exact Or.inl (Finset.mem_of_mem_erase h)
  | _ => exact Or.inl h

/-- A writer receives a message when it is handed over, and never otherwise. -/
theorem Step.received_cases {s s' : Server} {a : Act} (hs : Step s a s') (b : ClientId) :
    s'.received b = s.received b ∨ ∃ t l, a = .handoff t b ∧ s.pc t = .send l b ∧
      s'.received b = s.received b ++ [l.packet] := by
  cases hs with
  | @handoff t p l ht hw =>
    by_cases hb : b = p
    · subst hb
      exact Or.inr ⟨t, l, rfl, ht, by simp⟩
    · exact Or.inl (by simp [hb])
  | readFrame =>
    obtain ⟨q, color, -, heq⟩ := readFrame_cases s _ _ _
    rw [heq]
    exact Or.inl rfl
  | _ => exact Or.inl rfl

/-! ### Which places belong to which goroutine -/

/-- The places a goroutine can be at.  A range loop of `serveWS` announces the client, one of the
writer carries the exit notice, and one of the reader carries either that or a frame. -/
def Thread.Hosts : Thread → Pc → Prop
  | .serve c, .range l | .serve c, .send l _ => l.packet.src = c ∧ l.packet.cause = .announce
  | .read c, .range l | .read c, .send l _ => l.packet.src = c ∧ l.packet.cause ≠ .announce
  | .write c, .range l | .write c, .send l _ => l.packet.src = c ∧ l.packet.cause = .exit
  | .serve _, .idle | .serve _, .addLock | .serve _, .addInsert | .serve _, .addUnlock
  | .serve _, .announce | .serve _, .spawnRead | .serve _, .spawnWrite | .serve _, .done => True
  | .serve _, _ => False
  | .read _, .reading | .read _, .debugWrite _ => True
  | .write _, .select | .write _, .writeText _ | .write _, .writePing | .write _, .writeTime _ =>
    True
  | _, .idle | _, .removeLock | _, .removeCheck | _, .removeClose | _, .removeDelete
  | _, .removeUnlock | _, .done => True
  | _, _ => False

/-- Every goroutine is at one of its places. -/
def Placed (s : Server) : Prop := ∀ t : Thread, t.Hosts (s.pc t)

lemma Placed.goto {s : Server} {t : Thread} {p : Pc} (h : Placed s) (hp : t.Hosts p) :
    Placed (s.goto t p) := by
  intro t'
  rw [Server.goto_pc]
  split_ifs with ht
  · rwa [ht]
  · exact h t'

lemma Handled.hosts {s : Server} {c : ClientId} {frame : Text} {p : Pc}
    (h : Handled s c frame p) :
    (Thread.read c).Hosts p := by
  cases h <;> simp [Thread.Hosts, Server.loop]

lemma hosts_send {t : Thread} {l : RangeLoop} {p : ClientId} :
    t.Hosts (.send l p) ↔ t.Hosts (.range l) := by
  cases t <;> rfl

lemma hosts_mark {t : Thread} {l : RangeLoop} {p : ClientId} :
    t.Hosts (.range (l.mark p)) ↔ t.Hosts (.range l) := by
  cases t <;> rfl

lemma hosts_next {t : Thread} {l : RangeLoop} (h : t.Hosts (.range l)) : t.Hosts l.next := by
  cases t <;> simp only [Thread.Hosts] at h <;> rw [RangeLoop.next]
  case serve => simp [h.2, Thread.Hosts]
  case read => cases hc : l.packet.cause <;> simp_all [Thread.Hosts]
  case write => simp [h.2, Thread.Hosts]

lemma Placed.hosts_of_eq {s : Server} {t : Thread} {p : Pc} (h : Placed s) (ht : s.pc t = p) :
    t.Hosts p := ht ▸ h t

/-- A goroutine inside `removeClient` is one of the two loops. -/
lemma Placed.remover {s : Server} {t : Thread} {p : Pc} (h : Placed s) (ht : s.pc t = p)
    (hp : p = .removeLock ∨ p = .removeCheck ∨ p = .removeClose ∨ p = .removeDelete
      ∨ p = .removeUnlock) : t = .read t.owner ∨ t = .write t.owner := by
  have hh := h.hosts_of_eq ht
  cases t with
  | serve c =>
    rcases hp with rfl | rfl | rfl | rfl | rfl <;> exact absurd hh (by simp [Thread.Hosts])
  | read c => exact Or.inl rfl
  | write c => exact Or.inr rfl

theorem Placed.step {s s' : Server} {a : Act} (h : Placed s) (hs : Step s a s') : Placed s' := by
  cases hs with
  | connect hc => exact Placed.goto h trivial
  | lockAdd hc => exact Placed.goto h trivial
  | insert hc => exact Placed.goto h trivial
  | unlockAdd hc => exact Placed.goto h trivial
  | announce hc => exact Placed.goto h ⟨rfl, rfl⟩
  | pick ht => exact Placed.goto h (hosts_send.mpr (hosts_mark.mpr (h.hosts_of_eq ht)))
  | handoff ht =>
    exact Placed.goto (Placed.goto h (hosts_send.mp (h.hosts_of_eq ht))) trivial
  | endRange ht => exact Placed.goto h (hosts_next (h.hosts_of_eq ht))
  | spawnRead hc => exact Placed.goto (Placed.goto h trivial) trivial
  | spawnWrite hc => exact Placed.goto (Placed.goto h trivial) trivial
  | readFrame hc =>
    obtain ⟨p, color, hp, heq⟩ := readFrame_cases s _ _ _
    rw [heq]
    exact Placed.goto h hp.hosts
  | readStop hc => exact Placed.goto h trivial
  | debugDone hc => exact Placed.goto h trivial
  | wrote hc => exact Placed.goto h trivial
  | ping hc => exact Placed.goto h trivial
  | @pingDone c ok hc => cases ok <;> exact Placed.goto h trivial
  | tick hc => exact Placed.goto h trivial
  | @tickDone c ok e hc => cases ok <;> exact Placed.goto h trivial
  | lockRemove ht =>
    rcases h.remover ht (by simp) with hr | hr <;> rw [hr] <;> exact Placed.goto h trivial
  | check ht =>
    rcases h.remover ht (by simp) with hr | hr <;> rw [hr] <;>
      exact Placed.goto h (by split_ifs <;> trivial)
  | close ht =>
    rcases h.remover ht (by simp) with hr | hr <;> rw [hr] <;> exact Placed.goto h trivial
  | delete ht =>
    rcases h.remover ht (by simp) with hr | hr <;> rw [hr] <;>
      exact Placed.goto h (by simp [Thread.Hosts, Server.clientExit, Thread.owner])
  | unlockRemove ht =>
    rcases h.remover ht (by simp) with hr | hr <;> rw [hr] <;> exact Placed.goto h trivial

/-! ### When the loops of a client are running -/

/-- `serveWS` has started the reader. -/
def Pc.ReadStarted : Pc → Prop
  | .spawnWrite | .done => True
  | _ => False

/-- `serveWS` starts the two loops, each once. -/
def Started (s : Server) : Prop := ∀ c,
  (s.pc (.read c) = .idle ↔ ¬ (s.pc (.serve c)).ReadStarted) ∧
    (s.pc (.write c) = .idle ↔ s.pc (.serve c) ≠ .done)

lemma Started.goto_serve {s : Server} {c : ClientId} {p : Pc} (h : Started s)
    (hr : p.ReadStarted ↔ (s.pc (.serve c)).ReadStarted)
    (hd : p = .done ↔ s.pc (.serve c) = .done) : Started (s.goto (.serve c) p) := by
  refine fun c' => ⟨?_, ?_⟩
  · rw [Server.goto_pc_of_ne (by simp), Server.goto_pc]
    split_ifs with hc
    · rw [hr, ← hc]
      exact (h c').1
    · exact (h c').1
  · rw [Server.goto_pc_of_ne (by simp), Server.goto_pc]
    split_ifs with hc
    · rw [ne_eq, hd, ← hc]
      exact (h c').2
    · exact (h c').2

lemma Started.goto_read {s : Server} {c : ClientId} {p : Pc} (h : Started s)
    (hi : p = .idle ↔ s.pc (.read c) = .idle) : Started (s.goto (.read c) p) := by
  refine fun c' => ⟨?_, ?_⟩
  · rw [Server.goto_pc_of_ne (by simp : Thread.serve c' ≠ _), Server.goto_pc]
    split_ifs with hc
    · rw [hi, ← hc]
      exact (h c').1
    · exact (h c').1
  · rw [Server.goto_pc_of_ne (by simp), Server.goto_pc_of_ne (by simp)]
    exact (h c').2

lemma Started.goto_write {s : Server} {c : ClientId} {p : Pc} (h : Started s)
    (hi : p = .idle ↔ s.pc (.write c) = .idle) : Started (s.goto (.write c) p) := by
  refine fun c' => ⟨?_, ?_⟩
  · rw [Server.goto_pc_of_ne (by simp), Server.goto_pc_of_ne (by simp)]
    exact (h c').1
  · rw [Server.goto_pc_of_ne (by simp : Thread.serve c' ≠ _), Server.goto_pc]
    split_ifs with hc
    · rw [hi, ← hc]
      exact (h c').2
    · exact (h c').2

/-- A place between the start of a goroutine and its return. -/
def Pc.Middle : Pc → Prop
  | .idle | .spawnWrite | .done => False
  | _ => True

lemma Started.goto {s : Server} {t : Thread} {p : Pc} (h : Started s) (ht : (s.pc t).Middle)
    (hp : p.Middle) : Started (s.goto t p) := by
  have hidle : ∀ q : Pc, q.Middle → q ≠ .idle := by
    rintro q hq rfl
    exact hq
  have hdone : ∀ q : Pc, q.Middle → q ≠ .done := by
    rintro q hq rfl
    exact hq
  have hread : ∀ q : Pc, q.Middle → ¬ q.ReadStarted := by
    intro q hq
    cases q <;> simp_all [Pc.Middle, Pc.ReadStarted]
  cases t with
  | serve c =>
    exact h.goto_serve (iff_of_false (hread _ hp) (hread _ ht))
      (iff_of_false (hdone _ hp) (hdone _ ht))
  | read c => exact h.goto_read (iff_of_false (hidle _ hp) (hidle _ ht))
  | write c => exact h.goto_write (iff_of_false (hidle _ hp) (hidle _ ht))

lemma Handled.middle {s : Server} {c : ClientId} {frame : Text} {p : Pc}
    (h : Handled s c frame p) : p.Middle := by
  cases h <;> trivial

lemma middle_next (l : RangeLoop) : l.next.Middle := by
  rw [RangeLoop.next]
  split <;> trivial

theorem Started.step {s s' : Server} {a : Act} (h : Started s) (hp : Placed s)
    (hs : Step s a s') : Started s' := by
  cases hs with
  | connect hc => exact Started.goto_serve h (by simp [hc, Pc.ReadStarted]) (by simp [hc])
  | lockAdd hc => exact Started.goto h (by simp [hc, Pc.Middle]) trivial
  | insert hc => exact Started.goto h (by simp [hc, Pc.Middle]) trivial
  | unlockAdd hc => exact Started.goto h (by simp [hc, Pc.Middle]) trivial
  | announce hc => exact h.goto (by simp [hc, Pc.Middle]) trivial
  | pick ht => exact h.goto (by simp [ht, Pc.Middle]) trivial
  | @handoff t p l ht hw =>
    have hne : Thread.write p ≠ t := ne_of_pc hw ht (by simp)
    refine Started.goto (Started.goto h (by simp [ht, Pc.Middle]) trivial) ?_ trivial
    rw [Server.goto_pc_of_ne hne]
    simp [hw, Pc.Middle]
  | endRange ht => exact h.goto (by simp [ht, Pc.Middle]) (middle_next _)
  | @spawnRead c hc =>
    intro c'
    by_cases he : c' = c
    · subst he
      have hw : s.pc (.write c') = .idle := (h c').2.mpr (by simp [hc])
      simp [Server.goto_pc, Pc.ReadStarted, hw]
    · simpa [Server.goto_pc, he] using h c'
  | @spawnWrite c hc =>
    intro c'
    by_cases he : c' = c
    · subst he
      have hr : s.pc (.read c') ≠ .idle := fun hi => (h c').1.mp hi (by simp [hc, Pc.ReadStarted])
      simp [Server.goto_pc, Pc.ReadStarted, hr]
    · simpa [Server.goto_pc, he] using h c'
  | readFrame hc =>
    obtain ⟨p, color, hp, heq⟩ := readFrame_cases s _ _ _
    rw [heq]
    exact Started.goto h (by simp [hc, Pc.Middle]) hp.middle
  | readStop hc => exact h.goto (by simp [hc, Pc.Middle]) trivial
  | debugDone hc => exact h.goto (by simp [hc, Pc.Middle]) trivial
  | wrote hc => exact h.goto (by simp [hc, Pc.Middle]) trivial
  | ping hc => exact h.goto (by simp [hc, Pc.Middle]) trivial
  | @pingDone c ok hc => cases ok <;> exact h.goto (by simp [hc, Pc.Middle]) trivial
  | tick hc => exact h.goto (by simp [hc, Pc.Middle]) trivial
  | @tickDone c ok e hc => cases ok <;> exact h.goto (by simp [hc, Pc.Middle]) trivial
  | lockRemove ht => exact Started.goto h (by simp [ht, Pc.Middle]) trivial
  | check ht => exact h.goto (by simp [ht, Pc.Middle]) (by split_ifs <;> trivial)
  | close ht => exact Started.goto h (by simp [ht, Pc.Middle]) trivial
  | delete ht => exact Started.goto h (by simp [ht, Pc.Middle]) trivial
  | unlockRemove ht =>
    rcases hp.remover ht (by simp) with hr | hr <;> rw [hr] at ht ⊢
    · exact Started.goto_read h (by simp [ht])
    · exact Started.goto_write h (by simp [ht])

/-- A goroutine that has returned, or is blocked on a send, stays where it is until its message
is handed over. -/
theorem Step.stays {s s' : Server} {a : Act} (hs : Step s a s') (hst : Started s) {t : Thread}
    {q : Pc} (h : s.pc t = q) (hq : q = .done ∨ ∃ l p, q = .send l p) :
    s'.pc t = q ∨ ∃ l p, a = .handoff t p ∧ q = .send l p ∧ s.pc (.write p) = .select := by
  -- every step but a hand-over moves goroutines that are elsewhere
  have apart : ∀ {t' : Thread} {r : Pc}, s.pc t' = r → r ≠ .done → (∀ l p, r ≠ .send l p) →
      t ≠ t' := by
    rintro t' r hr hd hsend rfl
    rcases hq with rfl | ⟨l, p, rfl⟩
    · exact hd (hr.symm.trans h)
    · exact hsend l p (hr.symm.trans h)
  have stay : ∀ {s₁ : Server} {t' : Thread} {r r' : Pc}, s₁.pc = s.pc → s.pc t' = r →
      r ≠ .done → (∀ l p, r ≠ .send l p) → (s₁.goto t' r').pc t = q := by
    intro s₁ t' r r' hpc hr hd hsend
    rw [Server.goto_pc_of_ne (apart hr hd hsend), hpc, h]
  cases hs with
  | connect hc => exact Or.inl (stay rfl hc (by simp) (by simp))
  | lockAdd hc => exact Or.inl (stay rfl hc (by simp) (by simp))
  | insert hc => exact Or.inl (stay rfl hc (by simp) (by simp))
  | unlockAdd hc => exact Or.inl (stay rfl hc (by simp) (by simp))
  | announce hc => exact Or.inl (stay rfl hc (by simp) (by simp))
  | pick ht => exact Or.inl (stay rfl ht (by simp) (by simp))
  | @handoff t₀ p₀ l₀ ht hw =>
    by_cases he : t = t₀
    · subst he
      exact Or.inr ⟨l₀, p₀, rfl, h.symm.trans ht, hw⟩
    · left
      rw [Server.goto_pc_of_ne (apart hw (by simp) (by simp)), Server.goto_pc_of_ne he]
      exact h
  | endRange ht => exact Or.inl (stay rfl ht (by simp) (by simp))
  | @spawnRead c hc =>
    have hidle : s.pc (.read c) = .idle := (hst c).1.mpr (by simp [hc, Pc.ReadStarted])
    left
    rw [Server.goto_pc_of_ne (apart hidle (by simp) (by simp))]
    exact stay rfl hc (by simp) (by simp)
  | @spawnWrite c hc =>
    have hidle : s.pc (.write c) = .idle := (hst c).2.mpr (by simp [hc])
    left
    rw [Server.goto_pc_of_ne (apart hidle (by simp) (by simp))]
    exact stay rfl hc (by simp) (by simp)
  | readFrame hc =>
    obtain ⟨q, color, hq, heq⟩ := readFrame_cases s _ _ _
    rw [heq]
    exact Or.inl (stay rfl hc (by simp) (by simp))
  | readStop hc => exact Or.inl (stay rfl hc (by simp) (by simp))
  | debugDone hc => exact Or.inl (stay rfl hc (by simp) (by simp))
  | wrote hc => exact Or.inl (stay rfl hc (by simp) (by simp))
  | ping hc => exact Or.inl (stay rfl hc (by simp) (by simp))
  | pingDone hc => exact Or.inl (stay rfl hc (by simp) (by simp))
  | tick hc => exact Or.inl (stay rfl hc (by simp) (by simp))
  | tickDone hc => exact Or.inl (stay rfl hc (by simp) (by simp))
  | lockRemove ht => exact Or.inl (stay rfl ht (by simp) (by simp))
  | check ht => exact Or.inl (stay rfl ht (by simp) (by simp))
  | close ht => exact Or.inl (stay rfl ht (by simp) (by simp))
  | delete ht => exact Or.inl (stay rfl ht (by simp) (by simp))
  | unlockRemove ht => exact Or.inl (stay rfl ht (by simp) (by simp))

/-! ### Who holds the mutex -/

/-- The places at which a goroutine holds the mutex: inside `addClient`, and inside
`removeClient` with its exit broadcast. -/
def Pc.Holds : Pc → Prop
  | .addInsert | .addUnlock | .removeCheck | .removeClose | .removeDelete | .removeUnlock => True
  | .range l | .send l _ => l.packet.cause = .exit
  | _ => False

/-- The mutex belongs to the goroutine that is at a place where it is held, if there is one. -/
def Guarded (s : Server) : Prop := ∀ t, s.lock = some t ↔ (s.pc t).Holds

lemma Guarded.goto {s : Server} {t : Thread} {p : Pc} (h : Guarded s)
    (hp : p.Holds ↔ (s.pc t).Holds) : Guarded (s.goto t p) := by
  intro t'
  rw [Server.goto_pc, Server.goto_lock]
  split_ifs with ht
  · rw [ht, hp]
    exact h t
  · exact h t'

lemma Guarded.acquire {s : Server} {t : Thread} {p : Pc} (h : Guarded s) (hl : s.lock = none)
    (hp : p.Holds) : Guarded ({ s with lock := some t }.goto t p) := by
  intro t'
  rw [Server.goto_pc, Server.goto_lock]
  split_ifs with ht
  · simp [ht, hp]
  · have hn : ¬ (s.pc t').Holds := by
      rw [← h t', hl]
      simp
    simp [Ne.symm ht, hn]

lemma Guarded.release {s : Server} {t : Thread} {p : Pc} (h : Guarded s)
    (ht : (s.pc t).Holds) (hp : ¬ p.Holds) : Guarded ({ s with lock := none }.goto t p) := by
  have hl : s.lock = some t := (h t).mpr ht
  intro t'
  rw [Server.goto_pc, Server.goto_lock]
  split_ifs with he
  · simp [hp]
  · have hn : ¬ (s.pc t').Holds := by
      rw [← h t', hl]
      simp [Ne.symm he]
    simp [hn]

lemma Handled.not_holds {s : Server} {c : ClientId} {frame : Text} {p : Pc}
    (h : Handled s c frame p) :
    ¬ p.Holds := by
  cases h <;> simp [Pc.Holds, Server.loop]

lemma holds_next {l : RangeLoop} : l.next.Holds ↔ (Pc.range l).Holds := by
  cases h : l.packet.cause <;> simp [RangeLoop.next, Pc.Holds, h]

theorem Guarded.step {s s' : Server} {a : Act} (h : Guarded s) (hst : Started s)
    (hs : Step s a s') : Guarded s' := by
  cases hs with
  | connect hc => exact Guarded.goto h (by simp [hc, Pc.Holds])
  | lockAdd hc hl => exact h.acquire hl trivial
  | insert hc => exact Guarded.goto h (by simp [hc, Pc.Holds])
  | unlockAdd hc => exact h.release (by simp [hc, Pc.Holds]) (by simp [Pc.Holds])
  | announce hc => exact h.goto (by simp [hc, Pc.Holds, Server.loop, Server.initPosition])
  | pick ht => exact h.goto (by simp [ht, Pc.Holds, RangeLoop.mark])
  | @handoff t p l ht hw =>
    have hne : Thread.write p ≠ t := ne_of_pc hw ht (by simp)
    refine Guarded.goto (Guarded.goto h (by simp [ht, Pc.Holds])) ?_
    rw [Server.goto_pc_of_ne hne]
    simp [hw, Pc.Holds]
  | endRange ht => exact h.goto (by rw [ht, holds_next])
  | @spawnRead c hc =>
    have hidle : s.pc (.read c) = .idle := (hst c).1.mpr (by simp [hc, Pc.ReadStarted])
    refine Guarded.goto (h.goto (by simp [hc, Pc.Holds])) ?_
    rw [Server.goto_pc_of_ne (by simp)]
    simp [hidle, Pc.Holds]
  | @spawnWrite c hc =>
    have hidle : s.pc (.write c) = .idle := (hst c).2.mpr (by simp [hc])
    refine Guarded.goto (h.goto (by simp [hc, Pc.Holds])) ?_
    rw [Server.goto_pc_of_ne (by simp)]
    simp [hidle, Pc.Holds]
  | readFrame hc =>
    obtain ⟨p, color, hp, heq⟩ := readFrame_cases s _ _ _
    rw [heq]
    exact Guarded.goto h (iff_of_false hp.not_holds (by simp [hc, Pc.Holds]))
  | readStop hc => exact h.goto (by simp [hc, Pc.Holds])
  | debugDone hc => exact h.goto (by simp [hc, Pc.Holds])
  | wrote hc => exact h.goto (by simp [hc, Pc.Holds])
  | ping hc => exact h.goto (by simp [hc, Pc.Holds])
  | @pingDone c ok hc => cases ok <;> exact h.goto (by simp [hc, Pc.Holds])
  | tick hc => exact h.goto (by simp [hc, Pc.Holds])
  | @tickDone c ok e hc => cases ok <;> exact h.goto (by simp [hc, Pc.Holds])
  | lockRemove ht hl => exact h.acquire hl trivial
  | check ht => exact h.goto (by split_ifs <;> simp [ht, Pc.Holds])
  | close ht => exact Guarded.goto h (by simp [ht, Pc.Holds])
  | delete ht => exact Guarded.goto h (by simp [ht, Pc.Holds, Server.clientExit])
  | unlockRemove ht => exact h.release (by simp [ht, Pc.Holds]) (by simp [Pc.Holds])

/-! ### When a client is out of the registry -/

/-- The places of a goroutine at which its client is not in the registry: those of `serveWS`
before the insertion, and those of the two loops from the deletion on. -/
def Thread.Absent : Thread → Pc → Prop
  | .serve _, .idle | .serve _, .addLock | .serve _, .addInsert => True
  | .serve _, _ => False
  | _, .removeUnlock | _, .done => True
  | _, .range l | _, .send l _ => l.packet.cause = .exit
  | _, _ => False

/-- A client is out of the registry while one of its goroutines is at such a place. -/
def Registered (s : Server) : Prop := ∀ t : Thread, t.Absent (s.pc t) → t.owner ∉ s.clients

lemma Registered.goto {s : Server} {t : Thread} {p : Pc} (h : Registered s)
    (hp : t.Absent p → t.owner ∉ s.clients) : Registered (s.goto t p) := by
  intro t' ht'
  rw [Server.goto_clients]
  rw [Server.goto_pc] at ht'
  split_ifs at ht' with he
  · rw [he] at ht' ⊢
    exact hp ht'
  · exact h t' ht'

lemma Registered.absent {s : Server} {t : Thread} {p q : Pc} (h : Registered s)
    (hq : s.pc t = q) (hpq : t.Absent p → t.Absent q) : t.Absent p → t.owner ∉ s.clients := by
  intro hp
  exact h t (hq ▸ hpq hp)

lemma absent_send {t : Thread} {l : RangeLoop} {p : ClientId} :
    t.Absent (.send l p) ↔ t.Absent (.range l) := by
  cases t <;> rfl

lemma absent_mark {t : Thread} {l : RangeLoop} {p : ClientId} :
    t.Absent (.range (l.mark p)) ↔ t.Absent (.range l) := by
  cases t <;> rfl

lemma absent_next {t : Thread} {l : RangeLoop} : t.Absent l.next → t.Absent (.range l) := by
  cases t <;> cases hc : l.packet.cause <;> simp [RangeLoop.next, Thread.Absent, hc]

theorem Registered.step {s s' : Server} {a : Act} (h : Registered s) (hp : Placed s)
    (hst : Started s) (hs : Step s a s') : Registered s' := by
  cases hs with
  | connect hc => exact Registered.goto h (h.absent hc fun _ => trivial)
  | lockAdd hc => exact Registered.goto h (h.absent hc fun _ => trivial)
  | @insert c hc =>
    -- the two loops of the client have not been started, so neither is past its end
    have hr : s.pc (.read c) = .idle := (hst c).1.mpr (by simp [hc, Pc.ReadStarted])
    have hw : s.pc (.write c) = .idle := (hst c).2.mpr (by simp [hc])
    intro t ht
    simp only [Server.goto_clients, Finset.mem_insert, not_or]
    rw [Server.goto_pc] at ht
    split_ifs at ht with he
    · rw [he] at ht
      exact absurd ht (by simp [Thread.Absent])
    · refine ⟨?_, h t ht⟩
      intro hc'
      cases t with
      | serve c' => exact he (congrArg Thread.serve hc')
      | read c' =>
        have hidle : s.pc (.read c') = .idle := by rw [show c' = c from hc', hr]
        have hab : (Thread.read c').Absent .idle := hidle ▸ ht
        exact hab
      | write c' =>
        have hidle : s.pc (.write c') = .idle := by rw [show c' = c from hc', hw]
        have hab : (Thread.write c').Absent .idle := hidle ▸ ht
        exact hab
  | unlockAdd hc => exact Registered.goto h (fun ha => absurd ha (by simp [Thread.Absent]))
  | announce hc => exact h.goto (fun ha => absurd ha (by simp [Thread.Absent, Server.loop]))
  | pick ht => exact h.goto (h.absent ht fun ha => absent_mark.mp (absent_send.mp ha))
  | @handoff t p l ht hw =>
    refine Registered.goto (Registered.goto h (h.absent ht fun ha => absent_send.mpr ha)) ?_
    exact fun ha => absurd ha (by simp [Thread.Absent])
  | endRange ht => exact h.goto (h.absent ht absent_next)
  | spawnRead hc =>
    exact Registered.goto (h.goto (fun ha => absurd ha (by simp [Thread.Absent])))
      (fun ha => absurd ha (by simp [Thread.Absent]))
  | spawnWrite hc =>
    exact Registered.goto (h.goto (fun ha => absurd ha (by simp [Thread.Absent])))
      (fun ha => absurd ha (by simp [Thread.Absent]))
  | readFrame hc =>
    obtain ⟨p, color, hp, heq⟩ := readFrame_cases s _ _ _
    rw [heq]
    refine Registered.goto h (fun ha => absurd ha ?_)
    cases hp <;> simp [Thread.Absent, Server.loop]
  | readStop hc => exact h.goto (fun ha => absurd ha (by simp [Thread.Absent]))
  | debugDone hc => exact h.goto (fun ha => absurd ha (by simp [Thread.Absent]))
  | wrote hc => exact h.goto (fun ha => absurd ha (by simp [Thread.Absent]))
  | ping hc => exact h.goto (fun ha => absurd ha (by simp [Thread.Absent]))
  | @pingDone c ok hc =>
    cases ok <;> exact h.goto (fun ha => absurd ha (by simp [Thread.Absent]))
  | tick hc => exact h.goto (fun ha => absurd ha (by simp [Thread.Absent]))
  | @tickDone c ok e hc =>
    cases ok <;> exact h.goto (fun ha => absurd ha (by simp [Thread.Absent]))
  | lockRemove ht =>
    rcases hp.remover ht (by simp) with hr | hr <;> rw [hr] <;>
      exact Registered.goto h (fun ha => absurd ha (by simp [Thread.Absent]))
  | @check t ht =>
    refine h.goto fun ha => ?_
    split_ifs at ha with hmem
    · rcases hp.remover ht (by simp) with hr | hr <;> rw [hr] at ha <;>
        exact absurd ha (by simp [Thread.Absent])
    · exact hmem
  | close ht =>
    rcases hp.remover ht (by simp) with hr | hr <;> rw [hr] <;>
      exact Registered.goto h (fun ha => absurd ha (by simp [Thread.Absent]))
  | @delete t now ht =>
    -- the registry only shrinks, and the client itself is what goes
    refine Registered.goto (fun t' ht' hmem => ?_) fun _ => Finset.notMem_erase _ _
    exact h t' ht' (Finset.mem_of_mem_erase hmem)
  | unlockRemove ht =>
    rcases hp.remover ht (by simp) with hr | hr <;> rw [hr] at ht ⊢ <;>
      exact Registered.goto h (h.absent ht fun _ => trivial)

/-! ### The invariant of the server -/

/-- What holds in every state of the server. -/
structure Inv (s : Server) : Prop where
  placed : Placed s
  started : Started s
  guarded : Guarded s
  registered : Registered s

theorem Inv.init : Inv Server.init where
  placed := fun t => by cases t <;> trivial
  started := fun c => by simp [Server.init, Pc.ReadStarted]
  guarded := fun t => by simp [Server.init, Pc.Holds]
  registered := fun t _ => by simp [Server.init]

theorem Inv.step {s s' : Server} {a : Act} (h : Inv s) (hs : Step s a s') : Inv s' where
  placed := h.placed.step hs
  started := h.started.step h.placed hs
  guarded := h.guarded.step h.started hs
  registered := h.registered.step h.placed h.started hs

/-- Every state that the server reaches satisfies the invariant. -/
theorem inv_of_exec (l : List (Server × Act)) (s : Server) (h : manager.Exec l s) : Inv s :=
  h.invariant Inv.init fun _ _ _ hi hs => hi.step (step_cases hs)

end MultiplayerCars.GoServer
