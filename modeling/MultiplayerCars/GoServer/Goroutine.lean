import MultiplayerCars.GoServer.Invariant

/-!
# One goroutine at a time

What one step of the server does to one goroutine, and what follows for the messages that the
goroutines hold.  A message that a range loop has still to hand to a client stays with the loop
until the writer of the client has it; the writer keeps it until its `WriteMessage` returns; and
as long as nobody leaves, the registry holds everybody whom `addClient` has inserted.
-/

namespace MultiplayerCars.GoServer

open Lib Lib.Json

/-! ### Where a goroutine goes -/

/-- Where a reader is after it has handled a frame. -/
def Server.handled (s : Server) (c : ClientId) (frame now : Text) : Pc :=
  match unmarshalEvent frame with
  | none => .removeLock
  | some e =>
    match (routeEvent e (s.client c) now).2 with
    | .nothing => .reading
    | .send peers m => s.loop peers ⟨c, m, .frame (s.frames c) e.type⟩
    | .debug payload => .debugWrite payload

/-- `Goes s a t p q`: in the state `s` the action `a` takes the goroutine `t` from `p` to `q`. -/
inductive Goes (s : Server) : Act → Thread → Pc → Pc → Prop
  | connect {c : ClientId} {uuid color : Text} :
      Goes s (.connect c uuid color) (.serve c) .idle .addLock
  | lockAdd {c : ClientId} : Goes s (.lockAdd c) (.serve c) .addLock .addInsert
  | insert {c : ClientId} : Goes s (.insert c) (.serve c) .addInsert .addUnlock
  | unlockAdd {c : ClientId} : Goes s (.unlockAdd c) (.serve c) .addUnlock .announce
  | announce {c : ClientId} {now : Text} : Goes s (.announce c now) (.serve c) .announce
      (s.loop (.others (s.client c).uuid) (s.initPosition c now))
  | pick {t : Thread} {p : ClientId} {l : RangeLoop} (hp : s.Produces l p) :
      Goes s (.pick t p) t (.range l) (.send (l.mark p) p)
  | handoff {t : Thread} {p : ClientId} {l : RangeLoop} :
      Goes s (.handoff t p) t (.send l p) (.range l)
  | receive {t : Thread} {p : ClientId} {l : RangeLoop} (ht : s.pc t = .send l p) :
      Goes s (.handoff t p) (.write p) .select (.writeText l.packet)
  | endRange {t : Thread} {l : RangeLoop} (hx : s.Exhausted l) :
      Goes s (.endRange t) t (.range l) l.next
  | spawnRead {c : ClientId} : Goes s (.spawnRead c) (.serve c) .spawnRead .spawnWrite
  | startRead {c : ClientId} : Goes s (.spawnRead c) (.read c) .idle .reading
  | spawnWrite {c : ClientId} : Goes s (.spawnWrite c) (.serve c) .spawnWrite .done
  | startWrite {c : ClientId} : Goes s (.spawnWrite c) (.write c) .idle .select
  | readFrame {c : ClientId} {frame now : Text} :
      Goes s (.readFrame c frame now) (.read c) .reading (s.handled c frame now)
  | readStop {c : ClientId} : Goes s (.readStop c) (.read c) .reading .removeLock
  | debugDone {c : ClientId} {payload : Text} :
      Goes s (.debugDone c) (.read c) (.debugWrite payload) .reading
  | wrote {c : ClientId} {packet : Packet} :
      Goes s (.wrote c) (.write c) (.writeText packet) .select
  | ping {c : ClientId} : Goes s (.ping c) (.write c) .select .writePing
  | pingDone {c : ClientId} {ok : Bool} :
      Goes s (.pingDone c ok) (.write c) .writePing (if ok then .select else .removeLock)
  | tick {c : ClientId} {now : Text} :
      Goes s (.tick c now) (.write c) .select (.writeTime (s.timeStamp c now))
  | tickDone {c : ClientId} {ok : Bool} {e : BroadcastEvent} :
      Goes s (.tickDone c ok) (.write c) (.writeTime e) (if ok then .select else .removeLock)
  | lockRemove {t : Thread} : Goes s (.lockRemove t) t .removeLock .removeCheck
  | check {t : Thread} : Goes s (.check t) t .removeCheck
      (if t.owner ∈ s.clients then .removeClose else .removeUnlock)
  | close {t : Thread} : Goes s (.close t) t .removeClose .removeDelete
  | delete {t : Thread} {now : Text} : Goes s (.delete t now) t .removeDelete
      (.range ⟨.others (s.client t.owner).uuid, s.clientExit t.owner now,
        s.clients.erase t.owner, ∅⟩)
  | unlockRemove {t : Thread} : Goes s (.unlockRemove t) t .removeUnlock .done

lemma readFrame_pc (s : Server) (c : ClientId) (frame now : Text) (t : Thread) :
    (s.readFrame c frame now).pc t
      = if t = .read c then s.handled c frame now else s.pc t := by
  rw [Server.readFrame, Server.handled]
  cases unmarshalEvent frame with
  | none => exact Server.goto_pc _ _ _ _
  | some e =>
    dsimp only
    cases (routeEvent e (s.client c) now).2 <;> exact Server.goto_pc _ _ _ _

lemma handled_send {s : Server} {c : ClientId} {frame now : Text} {e : Event} {peers : Peers}
    {m : Message} (he : unmarshalEvent frame = some e)
    (hr : (routeEvent e (s.client c) now).2 = .send peers m) :
    s.handled c frame now = s.loop peers ⟨c, m, .frame (s.frames c) e.type⟩ := by
  rw [Server.handled, he]
  dsimp only
  rw [hr]

lemma goes_of_pc {s s' : Server} {a : Act} {t t' : Thread} {p q : Pc}
    (hpc : s'.pc t = if t = t' then q else s.pc t) (ht : s.pc t' = p) (hg : Goes s a t' p q) :
    s'.pc t = s.pc t ∨ Goes s a t (s.pc t) (s'.pc t) := by
  rw [hpc]
  split_ifs with he
  · rw [he, ht]
    exact Or.inr hg
  · exact Or.inl rfl

/-- A step leaves a goroutine where it is, or takes it along one of those ways. -/
theorem Step.goes {s s' : Server} {a : Act} (hs : Step s a s') (hst : Started s) (t : Thread) :
    s'.pc t = s.pc t ∨ Goes s a t (s.pc t) (s'.pc t) := by
  cases hs with
  | connect hc => exact goes_of_pc (Server.goto_pc _ _ _ _) hc .connect
  | lockAdd hc => exact goes_of_pc (Server.goto_pc _ _ _ _) hc .lockAdd
  | insert hc => exact goes_of_pc (Server.goto_pc _ _ _ _) hc .insert
  | unlockAdd hc => exact goes_of_pc (Server.goto_pc _ _ _ _) hc .unlockAdd
  | announce hc => exact goes_of_pc (Server.goto_pc _ _ _ _) hc .announce
  | pick ht hp => exact goes_of_pc (Server.goto_pc _ _ _ _) ht (.pick hp)
  | @handoff t₀ p l ht hw =>
    by_cases he : t = .write p
    · subst he
      right
      rw [Server.goto_pc_self, hw]
      exact .receive ht
    · rw [Server.goto_pc_of_ne he]
      exact goes_of_pc (Server.goto_pc _ _ _ _) ht .handoff
  | endRange ht hx => exact goes_of_pc (Server.goto_pc _ _ _ _) ht (.endRange hx)
  | @spawnRead c hc =>
    have hidle : s.pc (.read c) = .idle := (hst c).1.mpr (by simp [hc, Pc.ReadStarted])
    by_cases he : t = .read c
    · subst he
      right
      rw [Server.goto_pc_self, hidle]
      exact .startRead
    · rw [Server.goto_pc_of_ne he]
      exact goes_of_pc (Server.goto_pc _ _ _ _) hc .spawnRead
  | @spawnWrite c hc =>
    have hidle : s.pc (.write c) = .idle := (hst c).2.mpr (by simp [hc])
    by_cases he : t = .write c
    · subst he
      right
      rw [Server.goto_pc_self, hidle]
      exact .startWrite
    · rw [Server.goto_pc_of_ne he]
      exact goes_of_pc (Server.goto_pc _ _ _ _) hc .spawnWrite
  | readFrame hc => exact goes_of_pc (readFrame_pc _ _ _ _ _) hc .readFrame
  | readStop hc => exact goes_of_pc (Server.goto_pc _ _ _ _) hc .readStop
  | debugDone hc => exact goes_of_pc (Server.goto_pc _ _ _ _) hc .debugDone
  | wrote hc => exact goes_of_pc (Server.goto_pc _ _ _ _) hc .wrote
  | ping hc => exact goes_of_pc (Server.goto_pc _ _ _ _) hc .ping
  | pingDone hc => exact goes_of_pc (Server.goto_pc _ _ _ _) hc .pingDone
  | tick hc => exact goes_of_pc (Server.goto_pc _ _ _ _) hc .tick
  | tickDone hc => exact goes_of_pc (Server.goto_pc _ _ _ _) hc .tickDone
  | lockRemove ht => exact goes_of_pc (Server.goto_pc _ _ _ _) ht .lockRemove
  | check ht => exact goes_of_pc (Server.goto_pc _ _ _ _) ht .check
  | close ht => exact goes_of_pc (Server.goto_pc _ _ _ _) ht .close
  | delete ht => exact goes_of_pc (Server.goto_pc _ _ _ _) ht .delete
  | unlockRemove ht => exact goes_of_pc (Server.goto_pc _ _ _ _) ht .unlockRemove

/-! ### The messages that goroutines hold -/

/-- The message in a `WriteMessage` call. -/
def Pc.writes : Pc → List Text
  | .writeText packet => [packet.message.bytes]
  | .writeTime e => [e.marshal]
  | .debugWrite payload => [payload]
  | _ => []

/-- The messages that a goroutine holds, for its peers or in a `WriteMessage` call. -/
def Pc.messages : Pc → List Text
  | .range l | .send l _ => [l.packet.message.bytes]
  | p => p.writes

/-- The goroutine whose `WriteMessage` call an action ends with success. -/
def Act.finishes : Act → Option Thread
  | .wrote c => some (.write c)
  | .tickDone c true => some (.write c)
  | .debugDone c => some (.read c)
  | _ => none

/-- The messages that an action makes: announcements, what follows from a frame, time stamps and
exit notices. -/
inductive Fresh (s : Server) : Act → Text → Prop
  | announce {c : ClientId} {now : Text} (hc : s.pc (.serve c) = .announce) :
      Fresh s (.announce c now) (s.initPosition c now).message.bytes
  | reply {c : ClientId} {frame now : Text} {e : Event} {peers : Peers} {m : Message}
      (hc : s.pc (.read c) = .reading) (he : unmarshalEvent frame = some e)
      (hr : (routeEvent e (s.client c) now).2 = .send peers m) :
      Fresh s (.readFrame c frame now) m.bytes
  | debug {c : ClientId} {frame now : Text} {e : Event} {payload : Text}
      (he : unmarshalEvent frame = some e)
      (hr : (routeEvent e (s.client c) now).2 = .debug payload) :
      Fresh s (.readFrame c frame now) payload
  | tick (c : ClientId) (now : Text) : Fresh s (.tick c now) (s.timeStamp c now).marshal
  | exit {t : Thread} (now : Text) (ht : s.pc t = .removeDelete) :
      Fresh s (.delete t now) (s.clientExit t.owner now).message.bytes

lemma writes_subset_messages (p : Pc) : p.writes ⊆ p.messages := by
  cases p <;> simp [Pc.writes, Pc.messages]

lemma messages_next (l : RangeLoop) : l.next.messages = [] := by
  rw [RangeLoop.next]
  split <;> rfl

lemma fresh_of_handled {s : Server} {c : ClientId} {frame now m : Text}
    (hc : s.pc (.read c) = .reading) (hm : m ∈ (s.handled c frame now).messages) :
    Fresh s (.readFrame c frame now) m := by
  rw [Server.handled] at hm
  split at hm
  · simp [Pc.messages, Pc.writes] at hm
  · rename_i e he
    split at hm
    · simp [Pc.messages, Pc.writes] at hm
    · rename_i peers msg hr
      rw [List.mem_singleton.mp hm]
      exact .reply hc he hr
    · rename_i payload hr
      rw [List.mem_singleton.mp hm]
      exact .debug he hr

/-- A message that a goroutine holds was held before, or has just been made. -/
theorem Step.messages_cases {s s' : Server} {a : Act} (hs : Step s a s') (hst : Started s)
    {t : Thread} {m : Text} (hm : m ∈ (s'.pc t).messages) :
    (∃ t', m ∈ (s.pc t').messages) ∨ Fresh s a m := by
  rcases hs.goes hst t with he | hg
  · rw [he] at hm
    exact Or.inl ⟨t, hm⟩
  · generalize hp : s.pc t = p at hg
    generalize s'.pc t = q at hg hm
    cases hg with
    | announce =>
      rw [List.mem_singleton.mp hm]
      exact Or.inr (.announce hp)
    | @pick _ _ l =>
      refine Or.inl ⟨t, ?_⟩
      rw [hp]
      exact hm
    | handoff =>
      refine Or.inl ⟨t, ?_⟩
      rw [hp]
      exact hm
    | @receive t₀ _ l ht =>
      refine Or.inl ⟨t₀, ?_⟩
      rw [ht]
      exact hm
    | endRange =>
      rw [messages_next] at hm
      simp at hm
    | readFrame => exact Or.inr (fresh_of_handled hp hm)
    | @pingDone _ ok => cases ok <;> simp [Pc.messages, Pc.writes] at hm
    | tick =>
      rw [List.mem_singleton.mp hm]
      exact Or.inr (.tick _ _)
    | @tickDone _ ok => cases ok <;> simp [Pc.messages, Pc.writes] at hm
    | check => split_ifs at hm <;> simp [Pc.messages, Pc.writes] at hm
    | delete =>
      rw [List.mem_singleton.mp hm]
      exact Or.inr (.exit _ hp)
    | _ => simp [Pc.messages, Pc.writes] at hm

/-- A message that is being written stays in its `WriteMessage` call until the call returns. -/
theorem Step.writes_stay {s s' : Server} {a : Act} (hs : Step s a s') (hst : Started s)
    {t : Thread} {m : Text} (hm : m ∈ (s.pc t).writes) :
    m ∈ (s'.pc t).writes ∨ a.finishes = some t ∨ s'.pc t = .removeLock := by
  rcases hs.goes hst t with he | hg
  · rw [he]
    exact Or.inl hm
  · generalize s.pc t = p at hg hm
    generalize s'.pc t = q at hg
    cases hg with
    | debugDone => exact Or.inr (Or.inl rfl)
    | wrote => exact Or.inr (Or.inl rfl)
    | @tickDone _ ok =>
      cases ok
      · exact Or.inr (Or.inr rfl)
      · exact Or.inr (Or.inl rfl)
    | _ => simp [Pc.writes] at hm

/-- What a goroutine writes it wrote before, or it has just received it, or it has made it itself: a
time stamp, or the payload of a debug frame. -/
theorem Step.writes_cases {s s' : Server} {a : Act} (hs : Step s a s') (hst : Started s)
    {t : Thread} {m : Text} (hm : m ∈ (s'.pc t).writes) :
    m ∈ (s.pc t).writes ∨
      (∃ t' l, s.pc t' = .send l t.owner ∧ m = l.packet.message.bytes) ∨
      (∃ now, m = (s.timeStamp t.owner now).marshal) ∨
      ∃ frame now e, a = .readFrame t.owner frame now ∧ unmarshalEvent frame = some e ∧
        (routeEvent e (s.client t.owner) now).2 = .debug m := by
  rcases hs.goes hst t with he | hg
  · rw [he] at hm
    exact Or.inl hm
  · generalize s.pc t = p at hg
    generalize s'.pc t = q at hg hm
    cases hg with
    | @receive t₀ y l ht =>
      rw [List.mem_singleton.mp hm]
      exact Or.inr (Or.inl ⟨t₀, l, ht, rfl⟩)
    | @tick c now =>
      rw [List.mem_singleton.mp hm]
      exact Or.inr (Or.inr (Or.inl ⟨now, rfl⟩))
    | @readFrame c frame now =>
      rw [Server.handled] at hm
      split at hm
      · simp [Pc.writes] at hm
      · rename_i e he
        split at hm
        · simp [Pc.writes] at hm
        · simp [Pc.writes, Server.loop] at hm
        · rename_i payload hr
          rw [List.mem_singleton.mp hm]
          exact Or.inr (Or.inr (Or.inr ⟨frame, now, e, rfl, he, hr⟩))
    | @endRange _ l =>
      rw [RangeLoop.next] at hm
      split at hm <;> simp [Pc.writes] at hm
    | @pingDone _ ok => cases ok <;> simp [Pc.writes] at hm
    | @tickDone _ ok => cases ok <;> simp [Pc.writes] at hm
    | check => split_ifs at hm <;> simp [Pc.writes] at hm
    | _ => simp [Pc.writes, Server.loop] at hm

/-! ### Range loops -/

/-- The range loop that a goroutine is in. -/
def Pc.loop? : Pc → Option RangeLoop
  | .range l | .send l _ => some l
  | _ => none

/-- The range loops that an action begins, and the goroutines that begin them. -/
inductive Begins (s : Server) : Act → Thread → Peers → Packet → Prop
  | announce (c : ClientId) (now : Text) : Begins s (.announce c now) (.serve c)
      (.others (s.client c).uuid) (s.initPosition c now)
  | reply {c : ClientId} {frame now : Text} {e : Event} {peers : Peers} {m : Message}
      (he : unmarshalEvent frame = some e)
      (hr : (routeEvent e (s.client c) now).2 = .send peers m) :
      Begins s (.readFrame c frame now) (.read c) peers ⟨c, m, .frame (s.frames c) e.type⟩
  | exit (t : Thread) (now : Text) : Begins s (.delete t now) t
      (.others (s.client t.owner).uuid) (s.clientExit t.owner now)

lemma loop_next (l : RangeLoop) : l.next.loop? = none := by
  rw [RangeLoop.next]
  split <;> rfl

lemma begins_of_handled {s : Server} {c : ClientId} {frame now : Text} {l : RangeLoop}
    (h : (s.handled c frame now).loop? = some l) :
    Begins s (.readFrame c frame now) (.read c) l.peers l.packet := by
  rw [Server.handled] at h
  split at h
  · cases h
  · rename_i e he
    split at h
    · cases h
    · rename_i peers m hr
      injection h with h
      subst h
      exact .reply he hr
    · cases h

/-- A goroutine is in a range loop because it was, with the same message for the same peers, or
because the step begins the loop. -/
theorem Step.packet_cases {s s' : Server} {a : Act} (hs : Step s a s') (hst : Started s)
    {t : Thread} {l : RangeLoop} (h : (s'.pc t).loop? = some l) :
    (∃ l₀, (s.pc t).loop? = some l₀ ∧ l.peers = l₀.peers ∧ l.packet = l₀.packet) ∨
      Begins s a t l.peers l.packet := by
  rcases hs.goes hst t with he | hg
  · rw [he] at h
    exact Or.inl ⟨l, h, rfl, rfl⟩
  · generalize s.pc t = p at hg
    generalize s'.pc t = q at hg h
    cases hg with
    | @pick _ p l₀ =>
      injection h with h
      subst h
      exact Or.inl ⟨l₀, rfl, rfl, rfl⟩
    | handoff => exact Or.inl ⟨l, h, rfl, rfl⟩
    | @announce c now =>
      injection h with h
      subst h
      exact Or.inr (.announce c now)
    | endRange =>
      rw [loop_next] at h
      cases h
    | readFrame => exact Or.inr (begins_of_handled h)
    | @delete t now =>
      injection h with h
      subst h
      exact Or.inr (.exit t now)
    | @pingDone _ ok => cases ok <;> cases h
    | @tickDone _ ok => cases ok <;> cases h
    | check => split_ifs at h <;> cases h
    | _ => cases h

/-! ### Messages on their way to a client -/

/-- The goroutine has still to hand `packet` to `y`: it is blocked on `y`, or its range loop has
still to come to it. -/
def Pc.Aims (peers : Peers) (packet : Packet) (y : ClientId) : Pc → Prop
  | .range l => l.peers = peers ∧ l.packet = packet ∧ y ∈ l.present ∧ y ∉ l.seen
  | .send l p => l.peers = peers ∧ l.packet = packet ∧ (p = y ∨ y ∈ l.present ∧ y ∉ l.seen)
  | _ => False

lemma aims_loop {s : Server} {peers : Peers} {packet : Packet} {y : ClientId}
    (hy : y ∈ s.clients) : (s.loop peers packet).Aims peers packet y :=
  ⟨rfl, rfl, hy, Finset.notMem_empty y⟩

/-- A range loop does not end before it has handed its message to everybody who was there when it
began and still is. -/
theorem Step.aims_cases {s s' : Server} {a : Act} (hs : Step s a s') (hst : Started s)
    {t : Thread} {peers : Peers} {packet : Packet} {y : ClientId}
    (h : (s.pc t).Aims peers packet y) (hy : y ∈ s.clients)
    (hadm : peers.admits (s.client y).uuid) :
    (s'.pc t).Aims peers packet y ∨
      (a = .handoff t y ∧ ∃ l, s.pc t = .send l y ∧ l.packet = packet) := by
  rcases hs.goes hst t with he | hg
  · rw [he]
    exact Or.inl h
  · generalize s.pc t = p at hg h
    generalize s'.pc t = q at hg
    cases hg with
    | @pick _ p l =>
      left
      obtain ⟨hpeers, hpacket, hpresent, hseen⟩ := h
      refine ⟨hpeers, hpacket, ?_⟩
      by_cases he : p = y
      · exact Or.inl he
      · refine Or.inr ⟨hpresent, ?_⟩
        simp only [RangeLoop.mark, Finset.mem_insert, not_or]
        exact ⟨Ne.symm he, hseen⟩
    | @handoff _ p l =>
      obtain ⟨hpeers, hpacket, rfl | ⟨hpresent, hseen⟩⟩ := h
      · exact Or.inr ⟨rfl, l, rfl, hpacket⟩
      · exact Or.inl ⟨hpeers, hpacket, hpresent, hseen⟩
    | @endRange _ l hx =>
      obtain ⟨rfl, -, hpresent, hseen⟩ := h
      exact absurd (hx y hpresent hy hadm) hseen
    | _ => exact h.elim

/-- What is handed over, the writer has received and is about to write. -/
lemma Step.handed {s s' : Server} {t : Thread} {y : ClientId} {l : RangeLoop}
    (hs : Step s (.handoff t y) s') (ht : s.pc t = .send l y) :
    s'.received y = s.received y ++ [l.packet] ∧ s'.pc (.write y) = .writeText l.packet := by
  cases hs with
  | handoff ht₀ hw =>
    rw [ht] at ht₀
    injection ht₀ with hl _
    subst hl
    exact ⟨by simp, Server.goto_pc_self _ _ _⟩

/-- A message is on its way to a client until the writer of the client has it. -/
theorem Step.aims {s s' : Server} {a : Act} (hs : Step s a s') (hst : Started s) {t : Thread}
    {peers : Peers} {packet : Packet} {y : ClientId} (h : (s.pc t).Aims peers packet y)
    (hy : y ∈ s.clients) (hadm : peers.admits (s.client y).uuid) :
    (s'.pc t).Aims peers packet y ∨ s'.pc (.write y) = .writeText packet := by
  rcases hs.aims_cases hst h hy hadm with haims | ⟨rfl, l, ht, rfl⟩
  · exact Or.inl haims
  · exact Or.inr (hs.handed ht).2

/-! ### As long as nobody leaves -/

/-- The places of a goroutine that is inside `removeClient`. -/
def Pc.Leaving : Pc → Prop
  | .removeLock | .removeCheck | .removeClose | .removeDelete | .removeUnlock => True
  | .range l | .send l _ => l.packet.cause = .exit
  | _ => False

/-- No client is being removed. -/
def Unbroken (s : Server) : Prop := ∀ t, ¬ (s.pc t).Leaving

lemma not_leaving_next {l : RangeLoop} (h : ¬ (Pc.range l).Leaving) : ¬ l.next.Leaving := by
  rw [RangeLoop.next]
  cases hc : l.packet.cause with
  | exit => exact absurd hc h
  | _ => simp [Pc.Leaving]

lemma leaving_handled {s : Server} {c : ClientId} {frame now : Text}
    (h : (s.handled c frame now).Leaving) : s.handled c frame now = .removeLock := by
  rw [Server.handled] at h ⊢
  split at h
  · rfl
  · split at h <;> exact absurd h (by simp [Pc.Leaving, Server.loop])

/-- `removeClient` begins where it takes the mutex. -/
theorem Unbroken.step {s s' : Server} {a : Act} (h : Unbroken s) (hst : Started s)
    (hs : Step s a s') (hno : ∀ t, s'.pc t ≠ .removeLock) : Unbroken s' := by
  intro t hl
  have hpt := h t
  have hqt := hno t
  rcases hs.goes hst t with he | hg
  · rw [he] at hl
    exact hpt hl
  · generalize s.pc t = p at hg hpt
    generalize s'.pc t = q at hg hl hqt
    cases hg with
    | pick => exact hpt hl
    | handoff => exact hpt hl
    | endRange => exact not_leaving_next hpt hl
    | readFrame => exact hqt (leaving_handled hl)
    | readStop => exact hqt rfl
    | @pingDone _ ok =>
      cases ok
      · exact hqt rfl
      · exact hl
    | @tickDone _ ok =>
      cases ok
      · exact hqt rfl
      · exact hl
    | lockRemove => exact hpt trivial
    | check => exact hpt trivial
    | close => exact hpt trivial
    | delete => exact hpt trivial
    | unlockRemove => exact hpt trivial
    | announce => exact absurd hl (by simp [Pc.Leaving, Server.loop, Server.initPosition])
    | _ => exact hl

/-- What makes a client leave: its reader fails, or reads what is no event, or a ping or a time
stamp cannot be written. -/
def Act.breaks : Act → Bool
  | .readFrame _ frame _ => (unmarshalEvent frame).isNone
  | .readStop _ => true
  | .pingDone _ ok | .tickDone _ ok => !ok
  | _ => false

lemma Step.breaks_of_removeLock {s s' : Server} {a : Act} (hs : Step s a s') (hst : Started s)
    {t : Thread} (h : s'.pc t = .removeLock) : s.pc t = .removeLock ∨ a.breaks := by
  rcases hs.goes hst t with he | hg
  · exact Or.inl (he.symm.trans h)
  · rw [h] at hg
    generalize s.pc t = p at hg
    generalize hq : Pc.removeLock = q at hg
    cases hg with
    | @endRange _ l =>
      rw [RangeLoop.next] at hq
      split at hq <;> cases hq
    | @readFrame c frame now =>
      right
      rw [Server.handled] at hq
      split at hq
      · rename_i he
        simp [Act.breaks, he]
      · split at hq <;> cases hq
    | readStop => exact Or.inr rfl
    | @pingDone c ok =>
      cases ok
      · exact Or.inr rfl
      · cases hq
    | @tickDone c ok =>
      cases ok
      · exact Or.inr rfl
      · cases hq
    | check => split_ifs at hq
    | _ => cases hq

/-- The registry shrinks by a deletion only. -/
lemma Step.clients_subset {s s' : Server} {a : Act} (hs : Step s a s') (h : Unbroken s) :
    s.clients ⊆ s'.clients := by
  cases hs with
  | insert => exact Finset.subset_insert _ _
  | readFrame =>
    obtain ⟨q, color, -, heq⟩ := readFrame_cases s _ _ _
    rw [heq]
    exact Finset.Subset.refl _
  | @delete t now ht =>
    refine absurd ?_ (h t)
    rw [ht]
    trivial
  | _ => exact Finset.Subset.refl _

/-- Everybody whom `addClient` has inserted is in the registry. -/
def Joined (s : Server) : Prop := ∀ c, ¬ (Thread.serve c).Absent (s.pc (.serve c)) → c ∈ s.clients

theorem Joined.step {s s' : Server} {a : Act} (h : Joined s) (hst : Started s)
    (hu : Unbroken s) (hs : Step s a s') : Joined s' := by
  intro c hc
  rcases hs.goes hst (.serve c) with he | hg
  · rw [he] at hc
    exact hs.clients_subset hu (h c hc)
  · have hold := h c
    have hleave := hu (.serve c)
    generalize s.pc (.serve c) = p at hg hold hleave
    generalize s'.pc (.serve c) = q at hg hc
    cases hg with
    | connect => exact absurd trivial hc
    | lockAdd => exact absurd trivial hc
    | insert =>
      cases hs with
      | insert => exact Finset.mem_insert_self _ _
    | check => exact absurd trivial hleave
    | close => exact absurd trivial hleave
    | lockRemove => exact absurd trivial hleave
    | delete => exact absurd trivial hleave
    | unlockRemove => exact absurd trivial hleave
    | _ => exact hs.clients_subset hu (hold (by simp [Thread.Absent]))

/-- A client whose reader has been started is in the registry. -/
lemma Joined.of_reading {s : Server} (h : Joined s) (hst : Started s) {c : ClientId}
    (hc : s.pc (.read c) ≠ .idle) : c ∈ s.clients := by
  refine h c fun ha => hc ((hst c).1.mpr fun hr => ?_)
  generalize s.pc (.serve c) = p at ha hr
  cases p <;> simp_all [Thread.Absent, Pc.ReadStarted]

/-- A newcomer has still to be announced. -/
lemma Step.newcomer {s s' : Server} {a : Act} (hs : Step s a s') (hi : Inv s) {c : ClientId}
    (hc : c ∈ s'.clients) : c ∈ s.clients ∨ s'.pc (.serve c) = .addUnlock := by
  rcases hs.mem_clients hc with hold | hp
  · exact Or.inl hold
  · right
    rcases hs.goes hi.started (.serve c) with he | hg
    · refine absurd hc ((hi.step hs).registered (.serve c) ?_)
      rw [he, hp]
      trivial
    · rw [hp] at hg
      generalize s'.pc (.serve c) = q at hg
      cases hg
      rfl

/-! ### Clients and their frames -/

/-- The UUID of a client is set by the request that connects it. -/
lemma Step.uuid_cases {s s' : Server} {a : Act} (hs : Step s a s') (c : ClientId) :
    (s'.client c).uuid = (s.client c).uuid ∨
      ∃ uuid color, a = .connect c uuid color ∧ (s'.client c).uuid = uuid := by
  cases hs with
  | @connect c₀ uuid color =>
    by_cases he : c = c₀
    · subst he
      exact Or.inr ⟨uuid, color, rfl, by simp⟩
    · exact Or.inl (by simp [he])
  | @readFrame c₀ =>
    obtain ⟨q, color, -, heq⟩ := readFrame_cases s _ _ _
    rw [heq]
    by_cases he : c = c₀
    · subst he
      exact Or.inl (by simp)
    · exact Or.inl (by simp [he])
  | _ => exact Or.inl rfl

/-- A client is connected by its request, which says what its fields are. -/
lemma Step.connected {s s' : Server} {a : Act} (hs : Step s a s') (hst : Started s) {c : ClientId}
    (hidle : s.pc (.serve c) = .idle) (hc : s'.pc (.serve c) ≠ .idle) :
    ∃ uuid color, a = .connect c uuid color ∧ uuid ≠ [] ∧ color ≠ [] ∧
      s'.client c = ⟨uuid, color⟩ := by
  rcases hs.goes hst (.serve c) with he | hg
  · exact absurd (he.trans hidle) hc
  · rw [hidle] at hg
    generalize s'.pc (.serve c) = q at hg
    cases hg
    cases hs with
    | connect _ hu hk => exact ⟨_, _, rfl, hu, hk, by simp⟩

/-- A client that has been connected keeps its UUID. -/
theorem Leads.uuid {s s' : Server} (h : manager.Leads s s') {c : ClientId}
    (hc : s.pc (.serve c) ≠ .idle) : (s'.client c).uuid = (s.client c).uuid := by
  have hstep : ∀ s₁ a s₂, (s₁.pc (.serve c) ≠ .idle ∧ (s₁.client c).uuid = (s.client c).uuid) →
      manager.step s₁ a = some s₂ →
        s₂.pc (.serve c) ≠ .idle ∧ (s₂.client c).uuid = (s.client c).uuid := by
    rintro s₁ a s₂ ⟨hne, hu⟩ hs
    have hs := step_cases hs
    refine ⟨fun hidle => hne (hs.idle_of_idle hidle), ?_⟩
    rcases hs.uuid_cases c with he | ⟨uuid, color, rfl, -⟩
    · rw [he, hu]
    · cases hs with
      | connect hc => exact absurd hc hne
  exact (Machine.Leads.stable hstep h ⟨hc, rfl⟩).2

lemma uuid_of_mem {l : List (Server × Act)} {s : Server} (h : manager.Exec l s)
    {x : Server × Act} (hx : x ∈ l) {c : ClientId} (hc : x.1.pc (.serve c) ≠ .idle) :
    (x.1.client c).uuid = (s.client c).uuid := by
  obtain ⟨s₁, hstep, hleads⟩ := h.leads_of_mem hx
  exact (Leads.uuid (hleads.head ⟨x.2, hstep⟩) hc).symm

/-- A client in the registry has been connected. -/
lemma Inv.serve_ne_idle {s : Server} (hi : Inv s) {c : ClientId} (hc : c ∈ s.clients) :
    s.pc (.serve c) ≠ .idle := by
  intro hidle
  refine hi.registered (.serve c) ?_ hc
  rw [hidle]
  trivial

/-- A client of which a goroutine has been started has been connected. -/
lemma Inv.serve_ne_idle_of_pc {s : Server} (hi : Inv s) {t : Thread} (ht : s.pc t ≠ .idle) :
    s.pc (.serve t.owner) ≠ .idle := by
  intro hidle
  cases t with
  | serve c => exact ht hidle
  | read c =>
    change s.pc (.serve c) = .idle at hidle
    refine ht ((hi.started c).1.mpr ?_)
    rw [hidle]
    exact id
  | write c =>
    change s.pc (.serve c) = .idle at hidle
    refine ht ((hi.started c).2.mpr ?_)
    rw [hidle]
    simp

/-- A frame is counted when it is read. -/
lemma Step.frames_cases {s s' : Server} {a : Act} (hs : Step s a s') (c : ClientId) :
    s'.frames c = s.frames c ∨ ∃ frame now, a = .readFrame c frame now ∧
      s.pc (.read c) = .reading ∧ s'.frames c = s.frames c + 1 := by
  cases hs with
  | @readFrame c₀ frame now hc =>
    obtain ⟨q, color, -, heq⟩ := readFrame_cases s c₀ frame now
    rw [heq]
    by_cases he : c = c₀
    · subst he
      exact Or.inr ⟨frame, now, rfl, hc, by simp⟩
    · exact Or.inl (by simp [he])
  | _ => exact Or.inl rfl

end MultiplayerCars.GoServer
