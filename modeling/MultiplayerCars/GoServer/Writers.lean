import MultiplayerCars.GoServer.Setup
import MultiplayerCars.GoServer.Goroutine

/-!
# Writers on a connection

A connection takes one `WriteMessage` at a time.  Two goroutines call it for the same client:
`writeMessages`, from the three cases of its `select`, and `readMessages`, from the handler of
debug events, which answers on the connection and not through `egress`.  A `WriteMessage` call
begins with the step that takes a goroutine into it and ends with the step that takes it out.
-/

namespace MultiplayerCars.GoServer

open Lib Lib.Json Lib.Machine

/-- The goroutine is between the begin and the end of a `WriteMessage` call, which is on the
connection of its client. -/
def Pc.Writing : Pc → Prop
  | .writeText _ | .writePing | .writeTime _ | .debugWrite _ => True
  | _ => False

instance (p : Pc) : Decidable p.Writing :=
  match p with
  | .writeText _ | .writePing | .writeTime _ | .debugWrite _ => isTrue trivial
  | .idle | .addLock | .addInsert | .addUnlock | .announce | .range _ | .send _ _ | .spawnRead
  | .spawnWrite | .reading | .select | .removeLock | .removeCheck | .removeClose | .removeDelete
  | .removeUnlock | .done => isFalse id

/-- At most one goroutine is inside a `WriteMessage` call on the connection of a client. -/
def OneWriter (s : Server) : Prop :=
  ∀ t t' : Thread, t.owner = t'.owner → (s.pc t).Writing → (s.pc t').Writing → t = t'

/-- The goroutine whose `WriteMessage` call an action begins: the reader for an event that asks
for debugging, the writer for what it receives and for the ticks of its two tickers. -/
def Act.begins : Act → Option Thread
  | .readFrame c frame _ =>
    if (unmarshalEvent frame).map (·.type) = some eventPositionDebugMessage then some (.read c)
    else none
  | .handoff _ p => some (.write p)
  | .ping c | .tick c _ => some (.write c)
  | _ => none

/-- The step begins no `WriteMessage` call while a goroutine is inside one on the same
connection. -/
def Alternating (s : Server) (a : Act) : Prop :=
  ∀ t t' : Thread, a.begins = some t → t'.owner = t.owner → ¬ (s.pc t').Writing

/-- What the handler of debug events asks of a step: that no such event is read from a client
whose writer is inside a `WriteMessage` call, and that the writer of a client begins none while
the reader is answering such an event. -/
structure DebuggedApart (s : Server) (a : Act) : Prop where
  answer : ∀ c frame now, a = .readFrame c frame now →
    (unmarshalEvent frame).map (·.type) = some eventPositionDebugMessage →
      ¬ (s.pc (.write c)).Writing
  write : ∀ c payload, s.pc (.read c) = .debugWrite payload → a.begins ≠ some (.write c)

/-! ### Where a call begins -/

/-- Only an event that asks for debugging makes the reader write. -/
lemma routeEvent_debug_iff {e : Event} {c : Client} {now : Text} :
    (∃ payload, (routeEvent e c now).2 = .debug payload) ↔ e.type = eventPositionDebugMessage := by
  simp only [routeEvent, handlePosition, handleColorUpdate, handleTextUpdate, handlePositionDebug]
  split_ifs with h₁ h₂ h₃ h₄
  · simp [h₁, eventPositionMessage, eventPositionDebugMessage]
  · split <;> simp [h₂, eventColorUpdateMessage, eventPositionDebugMessage]
  · split <;> simp [h₃, eventTextUpdateMessage, eventPositionDebugMessage]
  · simp [h₄]
  · simp [h₄]

lemma writing_handled {s : Server} {c : ClientId} {frame now : Text} :
    (s.handled c frame now).Writing
      ↔ (unmarshalEvent frame).map (·.type) = some eventPositionDebugMessage := by
  rw [Server.handled]
  cases he : unmarshalEvent frame with
  | none => simp [Pc.Writing]
  | some e =>
    rw [Option.map_some, Option.some.injEq, ← @routeEvent_debug_iff e (s.client c) now]
    dsimp only
    cases (routeEvent e (s.client c) now).2 <;> simp [Pc.Writing, Server.loop]

/-- A goroutine is inside a call because it was, or because the step begins the call. -/
theorem Step.writing_cases {s s' : Server} {a : Act} (hs : Step s a s') (hst : Started s)
    {t : Thread} (h : (s'.pc t).Writing) : (s.pc t).Writing ∨ a.begins = some t := by
  rcases hs.goes hst t with he | hg
  · rw [he] at h
    exact Or.inl h
  · generalize s.pc t = p at hg
    generalize s'.pc t = q at hg h
    cases hg with
    | receive => exact Or.inr rfl
    | readFrame => exact Or.inr (if_pos (writing_handled.mp h))
    | ping => exact Or.inr rfl
    | tick => exact Or.inr rfl
    | endRange =>
      rw [RangeLoop.next] at h
      split at h <;> exact h.elim
    | @pingDone _ ok => cases ok <;> exact h.elim
    | @tickDone _ ok => cases ok <;> exact h.elim
    | check => split_ifs at h <;> exact h.elim
    | _ => exact h.elim

/-- The goroutine whose call begins was not inside one, and is inside it after the step. -/
theorem Step.begins {s s' : Server} {a : Act} (hs : Step s a s') {t : Thread}
    (ha : a.begins = some t) : ¬ (s.pc t).Writing ∧ (s'.pc t).Writing := by
  cases hs with
  | @handoff t₀ p l ht hw =>
    injection ha with ha
    subst ha
    rw [hw, Server.goto_pc_self]
    exact ⟨id, trivial⟩
  | @readFrame c frame now hc =>
    rw [Act.begins, Option.ite_none_right_eq_some] at ha
    obtain ⟨htype, ha⟩ := ha
    injection ha with ha
    subst ha
    rw [hc, readFrame_pc, if_pos rfl]
    exact ⟨id, writing_handled.mpr htype⟩
  | ping hc =>
    injection ha with ha
    subst ha
    rw [hc, Server.goto_pc_self]
    exact ⟨id, trivial⟩
  | tick hc =>
    injection ha with ha
    subst ha
    rw [hc, Server.goto_pc_self]
    exact ⟨id, trivial⟩
  | _ => cases ha

/-- A step that begins a call ends no other. -/
lemma Step.writing_stays {s s' : Server} {a : Act} (hs : Step s a s') (hst : Started s)
    {t t' : Thread} (ha : a.begins = some t) (h : (s.pc t').Writing) : (s'.pc t').Writing := by
  rcases hs.goes hst t' with he | hg
  · rw [he]
    exact h
  · generalize s.pc t' = p at hg h
    generalize s'.pc t' = q at hg
    cases hg with
    | debugDone => cases ha
    | wrote => cases ha
    | pingDone => cases ha
    | tickDone => cases ha
    | _ => exact h.elim

/-- A step leaves one writer on each connection exactly if it begins no call beside another. -/
theorem oneWriter_step {s s' : Server} {a : Act} (hst : Started s) (h : OneWriter s)
    (hs : Step s a s') : OneWriter s' ↔ Alternating s a := by
  constructor
  · intro h' t t' ha ho hw
    obtain ⟨hn, hw'⟩ := hs.begins ha
    have he : t' = t := h' t' t ho (hs.writing_stays hst ha hw) hw'
    rw [he] at hw
    exact hn hw
  · intro hok t t' ho hw hw'
    rcases hs.writing_cases hst hw with hw₀ | ha
    · rcases hs.writing_cases hst hw' with hw₀' | ha'
      · exact h t t' ho hw₀ hw₀'
      · exact absurd hw₀ (hok t' t ha' ho)
    · rcases hs.writing_cases hst hw' with hw₀' | ha'
      · exact absurd hw₀' (hok t t' ha ho.symm)
      · rw [ha] at ha'
        exact Option.some.inj ha'

/-! ### Whose calls can meet -/

/-- Of the goroutines of a client only the two loops write. -/
lemma Inv.writer_of_writing {s : Server} (hi : Inv s) {t : Thread} (h : (s.pc t).Writing) :
    t = .read t.owner ∨ t = .write t.owner := by
  have hh := hi.placed t
  cases t with
  | serve c =>
    generalize s.pc (.serve c) = p at h hh
    cases p <;> first | exact h.elim | exact hh.elim
  | read c => exact Or.inl rfl
  | write c => exact Or.inr rfl

/-- All that a reader writes is the answer to a debug event. -/
lemma Inv.debugWrite_of_writing {s : Server} (hi : Inv s) {c : ClientId}
    (h : (s.pc (.read c)).Writing) : ∃ payload, s.pc (.read c) = .debugWrite payload := by
  have hh := hi.placed (.read c)
  generalize s.pc (.read c) = p at h hh
  cases p with
  | debugWrite payload => exact ⟨payload, rfl⟩
  | writeText | writePing | writeTime => exact hh.elim
  | _ => exact h.elim

/-- A call of a reader begins with a debug event. -/
lemma begins_read_iff {a : Act} {c : ClientId} :
    a.begins = some (.read c) ↔ ∃ frame now, a = .readFrame c frame now ∧
      (unmarshalEvent frame).map (·.type) = some eventPositionDebugMessage := by
  constructor
  · intro ha
    cases a with
    | readFrame c' frame now =>
      rw [Act.begins, Option.ite_none_right_eq_some] at ha
      obtain ⟨htype, ha⟩ := ha
      cases ha
      exact ⟨frame, now, rfl, htype⟩
    | _ => cases ha
  · rintro ⟨frame, now, rfl, htype⟩
    exact if_pos htype

lemma begins_ne_serve {a : Act} {c : ClientId} : a.begins ≠ some (.serve c) := by
  cases a with
  | readFrame => simp [Act.begins]
  | _ => simp [Act.begins]

/-- Calls of one goroutine follow each other, so that only a debug event makes two meet. -/
theorem alternating_iff {s s' : Server} {a : Act} (hi : Inv s) (hs : Step s a s') :
    Alternating s a ↔ DebuggedApart s a := by
  constructor
  · intro hok
    refine ⟨fun c frame now he htype => ?_, fun c payload hc ha => ?_⟩
    · exact hok (.read c) (.write c) (begins_read_iff.mpr ⟨frame, now, he, htype⟩) rfl
    · exact hok (.write c) (.read c) ha rfl (hc ▸ trivial)
  · intro hok t t' ha ho hw
    have hn := (hs.begins ha).1
    have ht' := hi.writer_of_writing hw
    rw [ho] at ht'
    cases t with
    | serve c => exact begins_ne_serve ha
    | read c =>
      obtain ⟨frame, now, he, htype⟩ := begins_read_iff.mp ha
      rcases ht' with rfl | rfl
      · exact hn hw
      · exact hok.answer c frame now he htype hw
    | write c =>
      rcases ht' with rfl | rfl
      · obtain ⟨payload, hc⟩ := hi.debugWrite_of_writing hw
        exact hok.write c payload hc ha
      · exact hn hw

/-- **One writer on each connection, exactly.**  In no state of a run are two goroutines inside a
`WriteMessage` call on the same connection if and only if no debug event is read while the writer
of its sender is inside one, and no writer begins one while its reader answers a debug event. -/
theorem one_writer_iff {l : List (Server × Act)} {s : Server} (h : manager.Exec l s) :
    Always OneWriter l s ↔ Meets DebuggedApart l := by
  have h₀ : OneWriter Server.init := fun _ _ _ hw => hw.elim
  refine h.always_iff_meets inv_of_exec h₀ fun s a s' hi hw hs => ?_
  have hstep := step_cases hs
  rw [← alternating_iff hi hstep]
  exact oneWriter_step hi.started hw hstep

/-! ### Without debug events -/

/-- The step does not read an event that asks for debugging. -/
def Undebugged (_ : Server) (a : Act) : Prop := ∀ c, a.begins ≠ some (.read c)

/-- Where no client asks for debugging, all that is written on a connection its writer writes. -/
theorem only_writers_write {l : List (Server × Act)} {s : Server} (h : manager.Exec l s)
    (hok : Meets Undebugged l) (t : Thread) (ht : (s.pc t).Writing) : t = .write t.owner := by
  have hread : ∀ c, ¬ (s.pc (.read c)).Writing := by
    refine h.invariant_of_meets (P := fun s => ∀ c, ¬ (s.pc (.read c)).Writing) inv_of_exec
      (fun _ hw => hw) ?_ hok
    intro s a s' hi hn ha hs c hw
    rcases (step_cases hs).writing_cases hi.started hw with hw₀ | hb
    · exact hn c hw₀
    · exact ha c hb
  rcases (inv_of_exec l s h).writer_of_writing ht with he | he
  · rw [he] at ht
    exact absurd ht (hread _)
  · exact he

/-! ### A debug event between two messages -/

/-- The writer of `0` is writing the time when its reader answers a debug event. -/
def debugged : List Act := inTurn ++
  [.tick 0 [], .readFrame 0 "\x7b\"Type\":20,\"Payload\":\x7b\x7d\x7d".toList []]

lemma debugged_runs : (manager.run manager.init debugged).isSome := by
  decide +kernel

def debuggedRun : List (Server × Act) × Server :=
  (manager.run manager.init debugged).get debugged_runs

lemma exec_debugged : manager.Exec debuggedRun.1 debuggedRun.2 := exec_get_run debugged_runs

/-- Two goroutines can write on a connection at the same time. -/
theorem two_writers : ¬ ∀ s, manager.Reachable s → OneWriter s := by
  intro h
  have he := h debuggedRun.2 ⟨_, exec_debugged⟩ (.read 0) (.write 0) rfl (by decide +kernel)
    (by decide +kernel)
  cases he

theorem one_writer_iff_debugged :
    Always OneWriter debuggedRun.1 debuggedRun.2 ↔ Meets DebuggedApart debuggedRun.1 :=
  one_writer_iff exec_debugged

end MultiplayerCars.GoServer
