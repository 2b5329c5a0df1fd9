import MultiplayerCars.Wire.World

/-!
# From a channel to the client behind it

The writer of a client receives packets from the channel of the client, puts time stamps between
them, and writes one after the other; what it has written is on the connection until it arrives.
As long as nobody leaves, the packets that have arrived, that are on the connection and that are
about to be written are those that the writer has received, in the order in which it received
them.
-/

namespace MultiplayerCars.Wire

open Lib Lib.Json CPPClient
open GoServer (ClientId Act Server Pc Thread Packet Unbroken)

/-- What has come out of the server for a client: what has arrived, what is on the connection, and
what is about to be written. -/
def World.inbox (w : World) (i : ClientId) : List Text :=
  (w.client i).arrived ++ w.down i ++ (w.server.pc (.write i)).writes

/-- No reader is in the debug handler. -/
def Undebugged (s : Server) : Prop := ∀ c payload, s.pc (.read c) ≠ .debugWrite payload

/-- What `f` finds in the messages that have come out of the server is what it finds in the packets
that the writers have received. -/
def Passed {β : Type} (f : Text → Option β) (w : World) : Prop :=
  ∀ i, (w.inbox i).filterMap f = (w.server.received i).filterMap fun k => f k.message.bytes

/-- `f` finds nothing in a time stamp. -/
def Timeless {β : Type} (f : Text → Option β) : Prop :=
  ∀ (s : Server) c now, f (s.timeStamp c now).marshal = none

section

variable {P : Party} {w : World} {β : Type} {f : Text → Option β}

/-! ### Steps of the server -/

/-- What a step puts into the hands of a writer: nothing, a packet, or a time stamp. -/
inductive Outflow (s : Server) (i : ClientId) : List Text → List Packet → Prop
  | quiet : Outflow s i [] []
  | packet (k : Packet) : Outflow s i [k.message.bytes] [k]
  | timeStamp (now : Text) : Outflow s i [(s.timeStamp i now).marshal] []

lemma Undebugged.step {a : Act} {s : Server} (h : Undebugged w.server) (hhosted : Hosted P w)
    (ha : w.serves P a) (hs : GoServer.Step w.server a s) : Undebugged s := by
  intro c payload hc
  rcases hs.goes hhosted.server.started (.read c) with he | hg
  · exact h c payload (he.symm.trans hc)
  · rw [hc] at hg
    generalize hp : w.server.pc (.read c) = p at hg
    generalize hq : Pc.debugWrite payload = q at hg
    cases hg with
    | @readFrame _ frame now =>
      -- the reader comes to the debug handler from a frame, which is honest
      obtain ⟨g, rest, hup, rfl⟩ := up_of_serves ha
      rw [Server.handled] at hq
      split at hq
      · cases hq
      · rename_i e he
        have hno := (welcome_reply (hhosted.honest_up (by rw [hup]; simp)) he
          (w.server.client c) now).2 payload
        split at hq
        · cases hq
        · cases hq
        · rename_i payload' hr
          cases hq
          exact hno hr
    | @endRange _ l =>
      rw [GoServer.RangeLoop.next] at hq
      split at hq <;> cases hq
    | check => split_ifs at hq
    | _ => cases hq

/-- A writer that is done with a call is back at its `select`. -/
lemma select_of_finishes {a : Act} {s : Server} {i : ClientId}
    (hs : GoServer.Step w.server a s) (hf : a.finishes = some (.write i)) :
    s.pc (.write i) = .select ∧ ∀ j, s.received j = w.server.received j := by
  cases hs with
  | wrote hc =>
    cases hf
    exact ⟨Server.goto_pc_self _ _ _, fun j => rfl⟩
  | @tickDone c ok e hc =>
    cases ok
    · cases hf
    · cases hf
      exact ⟨Server.goto_pc_self _ _ _, fun j => rfl⟩
  | debugDone => cases hf
  | _ => cases hf

/-- Only the writer of a client adds to its connection. -/
lemma sent_of_not_finishes (hu : Undebugged w.server) {a : Act} {s : Server} {i : ClientId}
    (hs : GoServer.Step w.server a s) (hf : a.finishes ≠ some (.write i)) :
    w.sent a i = w.down i := by
  cases hfin : a.finishes with
  | none => rw [World.sent, hfin]
  | some t =>
    have hne : i ≠ t.owner := by
      rintro rfl
      cases t with
      | serve c =>
        cases hs with
        | @tickDone c ok e hc => cases ok <;> cases hfin
        | _ => cases hfin
      | read c =>
        cases hs with
        | debugDone hc => exact hu _ _ hc
        | @tickDone c ok e hc => cases ok <;> cases hfin
        | _ => cases hfin
      | write c => exact hf hfin
    rw [World.sent, hfin]
    exact Function.update_of_ne hne _ _

/-- A step of the server brings at most one message into the inbox of a client, and it is a time
stamp or the packet that the writer receives. -/
theorem outflow_of_step (hi : GoServer.Inv w.server) (hu : Undebugged w.server) {a : Act}
    {s : Server} (hs : GoServer.Step w.server a s) (hno : ∀ t, s.pc t ≠ .removeLock)
    (i : ClientId) : ∃ new packets, Outflow w.server i new packets ∧
      w.sent a i ++ (s.pc (.write i)).writes
        = w.down i ++ (w.server.pc (.write i)).writes ++ new ∧
      s.received i = w.server.received i ++ packets := by
  by_cases hf : a.finishes = some (.write i)
  · -- what was in hand is on the connection
    obtain ⟨hpc, hr⟩ := select_of_finishes hs hf
    refine ⟨[], [], .quiet, ?_, by rw [hr, List.append_nil]⟩
    have hsent : w.sent a i = w.down i ++ (w.server.pc (.write i)).writes := by
      rw [World.sent, hf]
      exact Function.update_self _ _ _
    rw [hsent, hpc]
    simp [Pc.writes]
  rw [sent_of_not_finishes hu hs hf]
  rcases hs.received_cases i with hr | ⟨t, l, rfl, ht, hr⟩
  · rcases hs.goes hi.started (.write i) with he | hg
    · exact ⟨[], [], .quiet, by rw [he, List.append_nil], by rw [hr, List.append_nil]⟩
    · have hquiet : (s.pc (.write i)).writes = (w.server.pc (.write i)).writes ∨
          ∃ now, (w.server.pc (.write i)).writes = [] ∧
            (s.pc (.write i)).writes = [(w.server.timeStamp i now).marshal] := by
        have hnolock := hno (.write i)
        generalize w.server.pc (.write i) = p at hg
        generalize hq : s.pc (.write i) = q at hg hnolock
        cases hg with
        | @tick _ now => exact Or.inr ⟨now, rfl, rfl⟩
        | receive ht =>
          -- a packet that is handed over is received
          have hlen := congrArg List.length ((hs.handed ht).1.symm.trans hr)
          simp at hlen
        | wrote => exact absurd rfl hf
        | @pingDone _ ok =>
          cases ok
          · exact absurd rfl hnolock
          · exact Or.inl rfl
        | @tickDone _ ok =>
          cases ok
          · exact absurd rfl hnolock
          · exact absurd rfl hf
        | @endRange _ l =>
          rw [GoServer.RangeLoop.next]
          left
          split <;> rfl
        | check =>
          left
          split_ifs <;> rfl
        | _ => exact Or.inl rfl
      rcases hquiet with he | ⟨now, he, he'⟩
      · exact ⟨[], [], .quiet, by rw [he, List.append_nil], by rw [hr, List.append_nil]⟩
      · exact ⟨_, [], .timeStamp now, by rw [he, he', List.append_nil],
          by rw [hr, List.append_nil]⟩
  · have hselect : w.server.pc (.write i) = .select := by
      cases hs with
      | handoff _ hw => exact hw
    refine ⟨_, _, .packet l.packet, ?_, hr⟩
    rw [(hs.handed ht).2, hselect]
    simp [Pc.writes]

lemma Passed.server_step (h : Passed f w) (hf : Timeless f) (hi : GoServer.Inv w.server)
    (hu : Undebugged w.server) {a : Act} {s : Server} (hs : GoServer.Step w.server a s)
    (hno : ∀ t, s.pc t ≠ .removeLock) :
    Passed f { w with server := s, down := w.sent a } := by
  intro i
  obtain ⟨new, packets, hout, hnew, hreceived⟩ := outflow_of_step hi hu hs hno i
  have hinbox : World.inbox { w with server := s, down := w.sent a } i = w.inbox i ++ new := by
    simp only [World.inbox, List.append_assoc] at hnew ⊢
    rw [hnew]
  rw [hinbox, List.filterMap_append, h i]
  dsimp only
  rw [hreceived, List.filterMap_append]
  cases hout with
  | quiet => rfl
  | packet k => simp only [List.filterMap_cons, List.filterMap_nil]
  | timeStamp now => simp [hf w.server i now]

/-! ### Steps of a client -/

lemma inbox_client_step {i : ClientId} {a : ClientAct} {c : Client}
    (hm : ∀ msg, a ≠ .onMessage msg) (hs : ClientStep (w.client i) a c) (j : ClientId) :
    World.inbox { w with client := Function.update w.client i c } j = w.inbox j := by
  have harrived : (Function.update w.client i c j).arrived = (w.client j).arrived := by
    by_cases hj : j = i
    · subst hj
      rw [Function.update_self]
      rcases arrived_of_step hs with he | ⟨msg, ha, -⟩
      · exact he
      · exact absurd ha (hm msg)
    · rw [Function.update_of_ne hj]
  simp only [World.inbox, harrived]

/-- A message that arrives is no longer on the connection. -/
lemma inbox_deliver {i : ClientId} {msg : Text} {rest : List Text} {c : Client}
    (hd : w.down i = msg :: rest) (hs : ClientStep (w.client i) (.onMessage msg) c)
    (j : ClientId) :
    World.inbox { w with
      client := Function.update w.client i c, down := Function.update w.down i rest } j
        = w.inbox j := by
  by_cases hj : j = i
  · subst hj
    cases hs with
    | onMessage => simp [World.inbox, hd]
  · simp [World.inbox, Function.update_of_ne hj]

/-! ### Runs -/

/-- Besides the soundness of the world, no reader is in the debug handler, and what `f` finds has
passed. -/
structure Passage (P : Party) (f : Text → Option β) (w : World) : Prop where
  sound : Sound P w
  undebugged : Undebugged w.server
  passed : Passed f w

lemma Passage.start (P : Party) (f : Text → Option β) : Passage P f (World.start P) where
  sound := Sound.start P
  undebugged := by
    intro c payload hc
    cases hc
  passed := fun i => rfl

theorem Passage.step (h : Passage P f w) (hf : Timeless f) {a : WorldAct} {w' : World}
    (ha : Honestly w a) (hs : WorldStep P w a w') (hno : Staying w') : Passage P f w' := by
  refine ⟨h.sound.step ha hs hno, ?_, ?_⟩
  · cases hs with
    | server hserves hs => exact h.undebugged.step h.sound.hosted hserves hs
    | client => exact h.undebugged
    | deliver => exact h.undebugged
  · cases hs with
    | server hserves hs => exact h.passed.server_step hf h.sound.server h.undebugged hs hno
    | client hm hs =>
      intro j
      rw [inbox_client_step hm hs]
      exact h.passed j
    | deliver hd hs =>
      intro j
      rw [inbox_deliver hd hs]
      exact h.passed j

end

end MultiplayerCars.Wire
