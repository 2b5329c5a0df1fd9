import MultiplayerCars.Lib.Machine
import MultiplayerCars.Lib.Json.Lexical

/-!
# The connection flag and the shutdown

`m_isConnected` is written by `workerRead` after the handshake and by the main thread in
`closeConnection` and in the destructor, and it is tested by the calls of the session and by the
loops of the two workers.  `connectWebSocket` returns before the handshake has begun, and
`workerRead` does not look at the flag before it sets it; so a session that is closed early is
connected afterwards, and `closeConnection` waits for ever for its workers.  Nor does a read that
fails clear the flag.
-/

namespace MultiplayerCars.CPPClient

open Lib Lib.Json Lib.Machine

/-! ### The threads of a session -/

inductive SessionThread
  | workerRead
  | workerWrite
deriving DecidableEq, Repr

/-- Where the main thread stands: before `connectWebSocket`, in the main loop, about to push the
frame of `sendPosition`; then in `closeConnection` after it has cleared the flag, joining the
threads that are left, and past it. -/
inductive CallerPc
  | connect
  | running
  | push (frame : Text)
  | pushEmpty
  | join (threads : List SessionThread)
  | closed
  | destroyed
deriving DecidableEq, Repr

/-- `workerRead`: up to the handshake, about to set the flag, about to start `workerWrite`, at
the head of its loop, in `m_wss.read`, at the test of its loop. -/
inductive ReaderPc
  | notStarted
  | handshake
  | setFlag
  | spawn
  | loop
  | read
  | test
  | exited
deriving DecidableEq, Repr

/-- `workerWrite`: at the head of its loop, waiting at the front of the queue, writing, popping,
at the test of its loop. -/
inductive WriterPc
  | notStarted
  | loop
  | front
  | write (tmp : Text)
  | pop
  | test
  | exited
deriving DecidableEq, Repr

structure Connection where
  isConnected : Bool
  asyncWriteQueue : List Text
  threadList : List SessionThread
  caller : CallerPc
  reader : ReaderPc
  writer : WriterPc
  /-- The handshake has completed. -/
  handshaken : Bool
  /-- A read has returned a fatal error. -/
  failed : Bool
  /-- `closeConnection` has set the flag to false. -/
  cleared : Bool
  /-- The iterations that the two loops have started since then. -/
  readsSince : ℕ
  writesSince : ℕ
deriving DecidableEq

/-- What `m_wss.read` returns: a message, an error, or one after which every read fails. -/
inductive ReadResult
  | message
  | error
  | fatal
deriving DecidableEq, Repr

inductive ConnAct
  /-- The main thread; a call of the session tests the flag together with `is_message_done()`,
  and if it is `sendPosition` it goes on to push its frame. -/
  | connectWebSocket
  | send (done : Bool) (frame : Option Text) | push
  | closeConnection | pushEmpty | join | cancel | destroy
  /-- `workerRead`; everything up to the end of the handshake succeeds, or throws. -/
  | handshake (ok : Bool) | setConnected | spawnWrite
  | startRead | read (r : ReadResult) | testRead
  | startWrite | front | write | pop | testWrite
deriving DecidableEq

namespace Connection

/-- What the constructor leaves. -/
def init : Connection :=
  ⟨false, [], [], .connect, .notStarted, .notStarted, false, false, false, 0, 0⟩

/-- One iteration more, if the flag has been cleared. -/
def count (s : Connection) (n : ℕ) : ℕ := if s.cleared then n + 1 else n

def step (s : Connection) : ConnAct → Option Connection
  | .connectWebSocket =>
    if s.caller = .connect then
      some { s with threadList := [.workerRead], reader := .handshake, caller := .running }
    else none
  | .send done frame =>
    if s.caller = .running then
      match frame with
      | some f => some { s with caller := if s.isConnected && done then .push f else .running }
      | none => some s
    else none
  | .push =>
    match s.caller with
    | .push f =>
      some { s with asyncWriteQueue := s.asyncWriteQueue ++ [f], caller := .running }
    | _ => none
  | .closeConnection =>
    if s.caller = .running then
      some { s with isConnected := false, cleared := true, caller := .pushEmpty }
    else none
  | .pushEmpty =>
    -- the range of the joins is fixed here: a thread that is added later is not in it
    if s.caller = .pushEmpty then
      some { s with asyncWriteQueue := s.asyncWriteQueue ++ [[]], caller := .join s.threadList }
    else none
  | .join =>
    match s.caller with
    | .join (.workerRead :: ts) =>
      if s.reader = .exited then some { s with caller := .join ts } else none
    | .join (.workerWrite :: ts) =>
      if s.writer = .exited then some { s with caller := .join ts } else none
    | _ => none
  | .cancel => if s.caller = .join [] then some { s with caller := .closed } else none
  | .destroy =>
    if s.caller = .closed then some { s with isConnected := false, caller := .destroyed } else none
  | .handshake ok =>
    if s.reader = .handshake then
      some (if ok then { s with handshaken := true, reader := .setFlag }
        else { s with reader := .exited })
    else none
  | .setConnected =>
    if s.reader = .setFlag then some { s with isConnected := true, reader := .spawn } else none
  | .spawnWrite =>
    if s.reader = .spawn then
      some { s with threadList := s.threadList ++ [.workerWrite], writer := .loop, reader := .loop }
    else none
  | .startRead =>
    if s.reader = .loop then
      some { s with reader := .read, readsSince := s.count s.readsSince }
    else none
  | .read r =>
    if s.reader = .read ∧ (s.failed → r = .fatal) then
      some { s with reader := .test, failed := decide (r = .fatal) }
    else none
  | .testRead =>
    if s.reader = .test then
      some { s with reader := if s.isConnected then .loop else .exited }
    else none
  | .startWrite =>
    if s.writer = .loop then
      some { s with writer := .front, writesSince := s.count s.writesSince }
    else none
  | .front =>
    match s.writer, s.asyncWriteQueue with
    | .front, tmp :: _ => some { s with writer := .write tmp }
    | _, _ => none
  | .write =>
    -- an error of this write is only logged
    match s.writer with
    | .write _ => some { s with writer := .pop }
    | _ => none
  | .pop =>
    if s.writer = .pop then
      some { s with asyncWriteQueue := s.asyncWriteQueue.tail, writer := .test }
    else none
  | .testWrite =>
    if s.writer = .test then
      some { s with writer := if s.isConnected then .loop else .exited }
    else none

end Connection

/-- A session with its threads, once it is constructed. -/
def connection : Machine Connection ConnAct where
  init := Connection.init
  step := Connection.step

/-! ### One step -/

/-- What one step does: for each action, what it needs of the state and what it makes of it. -/
inductive ConnStep (s : Connection) : ConnAct → Connection → Prop
  | connectWebSocket (hc : s.caller = .connect) : ConnStep s .connectWebSocket
      { s with threadList := [.workerRead], reader := .handshake, caller := .running }
  | send {done : Bool} {frame : Option Text} {p : CallerPc} (hc : s.caller = .running)
      (hp : p = .running ∨ ∃ f, p = .push f) : ConnStep s (.send done frame) { s with caller := p }
  | push {f : Text} (hc : s.caller = .push f) : ConnStep s .push
      { s with asyncWriteQueue := s.asyncWriteQueue ++ [f], caller := .running }
  | closeConnection (hc : s.caller = .running) : ConnStep s .closeConnection
      { s with isConnected := false, cleared := true, caller := .pushEmpty }
  | pushEmpty (hc : s.caller = .pushEmpty) : ConnStep s .pushEmpty
      { s with asyncWriteQueue := s.asyncWriteQueue ++ [[]], caller := .join s.threadList }
  | joinRead {ts : List SessionThread} (hc : s.caller = .join (.workerRead :: ts))
      (hr : s.reader = .exited) : ConnStep s .join { s with caller := .join ts }
  | joinWrite {ts : List SessionThread} (hc : s.caller = .join (.workerWrite :: ts))
      (hw : s.writer = .exited) : ConnStep s .join { s with caller := .join ts }
  | cancel (hc : s.caller = .join []) : ConnStep s .cancel { s with caller := .closed }
  | destroy (hc : s.caller = .closed) : ConnStep s .destroy
      { s with isConnected := false, caller := .destroyed }
  | handshake (hr : s.reader = .handshake) : ConnStep s (.handshake true)
      { s with handshaken := true, reader := .setFlag }
  | throws (hr : s.reader = .handshake) : ConnStep s (.handshake false)
      { s with reader := .exited }
  | setConnected (hr : s.reader = .setFlag) : ConnStep s .setConnected
      { s with isConnected := true, reader := .spawn }
  | spawnWrite (hr : s.reader = .spawn) : ConnStep s .spawnWrite
      { s with threadList := s.threadList ++ [.workerWrite], writer := .loop, reader := .loop }
  | startRead (hr : s.reader = .loop) : ConnStep s .startRead
      { s with reader := .read, readsSince := s.count s.readsSince }
  | read {r : ReadResult} (hr : s.reader = .read) (hf : s.failed → r = .fatal) :
      ConnStep s (.read r) { s with reader := .test, failed := decide (r = .fatal) }
  | testRead (hr : s.reader = .test) : ConnStep s .testRead
      { s with reader := if s.isConnected then .loop else .exited }
  | startWrite (hw : s.writer = .loop) : ConnStep s .startWrite
      { s with writer := .front, writesSince := s.count s.writesSince }
  | front {tmp : Text} {q : List Text} (hw : s.writer = .front)
      (hq : s.asyncWriteQueue = tmp :: q) : ConnStep s .front { s with writer := .write tmp }
  | write {tmp : Text} (hw : s.writer = .write tmp) : ConnStep s .write { s with writer := .pop }
  | pop (hw : s.writer = .pop) : ConnStep s .pop
      { s with asyncWriteQueue := s.asyncWriteQueue.tail, writer := .test }
  | testWrite (hw : s.writer = .test) : ConnStep s .testWrite
      { s with writer := if s.isConnected then .loop else .exited }

theorem connStep_cases {s s' : Connection} {a : ConnAct} (h : connection.step s a = some s') :
    ConnStep s a s' := by
  cases a <;>
    simp only [connection, Connection.step, Option.ite_none_right_eq_some, Option.some.injEq] at h
  case connectWebSocket =>
    obtain ⟨hc, rfl⟩ := h
    exact .connectWebSocket hc
  case send done frame =>
    obtain ⟨hc, h⟩ := h
    split at h
    · rename_i f
      rw [← Option.some.inj h]
      refine .send hc ?_
      split_ifs
      · exact Or.inr ⟨f, rfl⟩
      · exact Or.inl rfl
    · rw [← Option.some.inj h]
      have hs : s = { s with caller := .running } := by rw [← hc]
      rw [hs]
      exact .send rfl (Or.inl rfl)
  case push =>
    split at h
    · rename_i f hc
      rw [← Option.some.inj h]
      exact .push hc
    · cases h
  case closeConnection =>
    obtain ⟨hc, rfl⟩ := h
    exact .closeConnection hc
  case pushEmpty =>
    obtain ⟨hc, rfl⟩ := h
    exact .pushEmpty hc
  case join =>
    split at h
    · rename_i ts hc
      split_ifs at h with hr
      rw [← Option.some.inj h]
      exact .joinRead hc hr
    · rename_i ts hc
      split_ifs at h with hw
      rw [← Option.some.inj h]
      exact .joinWrite hc hw
    · cases h
  case cancel =>
    obtain ⟨hc, rfl⟩ := h
    exact .cancel hc
  case destroy =>
    obtain ⟨hc, rfl⟩ := h
    exact .destroy hc
  case handshake ok =>
    obtain ⟨hr, rfl⟩ := h
    cases ok
    · exact .throws hr
    · exact .handshake hr
  case setConnected =>
    obtain ⟨hr, rfl⟩ := h
    exact .setConnected hr
  case spawnWrite =>
    obtain ⟨hr, rfl⟩ := h
    exact .spawnWrite hr
  case startRead =>
    obtain ⟨hr, rfl⟩ := h
    exact .startRead hr
  case read r =>
    obtain ⟨⟨hr, hf⟩, rfl⟩ := h
    exact .read hr hf
  case testRead =>
    obtain ⟨hr, rfl⟩ := h
    exact .testRead hr
  case startWrite =>
    obtain ⟨hw, rfl⟩ := h
    exact .startWrite hw
  case front =>
    split at h
    · rename_i hw hq
      rw [← Option.some.inj h]
      exact .front hw hq
    · cases h
  case write =>
    split at h
    · rename_i tmp hw
      rw [← Option.some.inj h]
      exact .write hw
    · cases h
  case pop =>
    obtain ⟨hw, rfl⟩ := h
    exact .pop hw
  case testWrite =>
    obtain ⟨hw, rfl⟩ := h
    exact .testWrite hw

/-! ### What holds in every state -/

/-- `workerRead` has not set the flag yet. -/
def ReaderPc.Before : ReaderPc → Prop
  | .notStarted | .handshake | .setFlag => True
  | _ => False

/-- The handshake behind it, `workerRead` is about to set the flag or has set it. -/
def ReaderPc.Through : ReaderPc → Prop
  | .setFlag | .spawn | .loop | .read | .test => True
  | _ => False

/-- `workerRead` has not come to its loop yet. -/
def ReaderPc.Early : ReaderPc → Prop
  | .notStarted | .handshake | .setFlag | .spawn => True
  | _ => False

/-- The main thread is past the first line of `closeConnection`. -/
def CallerPc.Closing : CallerPc → Prop
  | .pushEmpty | .join _ | .closed | .destroyed => True
  | _ => False

/-- The main thread is past the joins. -/
def CallerPc.Joined : CallerPc → Prop
  | .closed | .destroyed => True
  | _ => False

/-- The flag comes up after the handshake and stays up as long as `workerRead` runs, unless it is
cleared; only reads fail. -/
structure Raised (s : Connection) : Prop where
  fresh : s.caller = .connect → s.reader = .notStarted
  before : s.reader.Before → s.isConnected = false
  through : s.reader.Through → s.handshaken
  flag : s.isConnected → s.handshaken
  early : s.reader.Early → s.failed = false
  exited : s.reader = .exited → s.isConnected = false

/-- `closeConnection` waits for `workerRead`. -/
structure Closing (s : Connection) : Prop where
  cleared : s.cleared ↔ s.caller.Closing
  listed : s.caller ≠ .connect → .workerRead ∈ s.threadList
  joining : ∀ ts, s.caller = .join ts → .workerRead ∈ ts ∨ s.reader = .exited
  joined : s.caller.Joined → s.reader = .exited

/-- The main thread moves on. -/
lemma Raised.call {s : Connection} (h : Raised s) {p : CallerPc} (hp : p ≠ .connect) :
    Raised { s with caller := p } :=
  ⟨fun hc => absurd hc hp, h.before, h.through, h.flag, h.early, h.exited⟩

/-- The main thread clears the flag. -/
lemma Raised.clear {s : Connection} (h : Raised s) {p : CallerPc} (hp : p ≠ .connect) {b : Bool} :
    Raised { s with isConnected := false, cleared := b, caller := p } :=
  ⟨fun hc => absurd hc hp, fun _ => rfl, h.through, fun hf => by simp at hf, h.early, fun _ => rfl⟩

theorem Raised.step {s s' : Connection} {a : ConnAct} (h : Raised s) (hs : ConnStep s a s') :
    Raised s' := by
  cases hs with
  | connectWebSocket hc =>
    have hr := h.fresh hc
    have hflag : s.isConnected = false := h.before (by rw [hr]; trivial)
    exact ⟨by simp, fun _ => hflag, fun ht => ht.elim, h.flag,
      fun _ => h.early (by rw [hr]; trivial), by simp⟩
  | send hc hp => exact h.call (by rcases hp with rfl | ⟨f, rfl⟩ <;> simp)
  | push hc => exact ⟨by simp, h.before, h.through, h.flag, h.early, h.exited⟩
  | closeConnection hc => exact h.clear (by simp)
  | pushEmpty hc => exact ⟨by simp, h.before, h.through, h.flag, h.early, h.exited⟩
  | joinRead hc hr => exact h.call (by simp)
  | joinWrite hc hw => exact h.call (by simp)
  | cancel hc => exact h.call (by simp)
  | destroy hc => exact h.clear (by simp)
  | handshake hr =>
    have hflag : s.isConnected = false := h.before (by rw [hr]; trivial)
    refine ⟨fun hc => ?_, fun _ => hflag, fun _ => rfl, fun _ => rfl,
      fun _ => h.early (by rw [hr]; trivial), by simp⟩
    rw [h.fresh hc] at hr
    cases hr
  | throws hr =>
    have hflag : s.isConnected = false := h.before (by rw [hr]; trivial)
    refine ⟨fun hc => ?_, fun hb => hb.elim, fun ht => ht.elim, h.flag, fun he => he.elim,
      fun _ => hflag⟩
    rw [h.fresh hc] at hr
    cases hr
  | setConnected hr =>
    have hshake : s.handshaken := h.through (by rw [hr]; trivial)
    refine ⟨fun hc => ?_, fun hb => hb.elim, fun _ => hshake, fun _ => hshake,
      fun _ => h.early (by rw [hr]; trivial), by simp⟩
    rw [h.fresh hc] at hr
    cases hr
  | spawnWrite hr =>
    have hshake : s.handshaken := h.through (by rw [hr]; trivial)
    exact ⟨fun hc => absurd (h.fresh hc) (by simp [hr]), fun hb => hb.elim, fun _ => hshake,
      h.flag, fun he => he.elim, by simp⟩
  | startRead hr =>
    have hshake : s.handshaken := h.through (by rw [hr]; trivial)
    exact ⟨fun hc => absurd (h.fresh hc) (by simp [hr]), fun hb => hb.elim, fun _ => hshake,
      h.flag, fun he => he.elim, by simp⟩
  | read hr hf =>
    have hshake : s.handshaken := h.through (by rw [hr]; trivial)
    exact ⟨fun hc => absurd (h.fresh hc) (by simp [hr]), fun hb => hb.elim, fun _ => hshake,
      h.flag, fun he => he.elim, by simp⟩
  | testRead hr =>
    have hshake : s.handshaken := h.through (by rw [hr]; trivial)
    refine ⟨fun hc => absurd (h.fresh hc) (by simp [hr]), fun hb => ?_, fun _ => hshake, h.flag,
      fun he => ?_, fun hx => ?_⟩
    · split_ifs at hb <;> exact hb.elim
    · split_ifs at he <;> exact he.elim
    · simpa using hx
  | startWrite hw => exact ⟨h.fresh, h.before, h.through, h.flag, h.early, h.exited⟩
  | front hw hq => exact ⟨h.fresh, h.before, h.through, h.flag, h.early, h.exited⟩
  | write hw => exact ⟨h.fresh, h.before, h.through, h.flag, h.early, h.exited⟩
  | pop hw => exact ⟨h.fresh, h.before, h.through, h.flag, h.early, h.exited⟩
  | testWrite hw => exact ⟨h.fresh, h.before, h.through, h.flag, h.early, h.exited⟩

/-- A thread that has returned does not go on. -/
lemma ConnStep.exited_stays {s s' : Connection} {a : ConnAct} (hs : ConnStep s a s')
    (h : Raised s) (hr : s.reader = .exited) : s'.reader = .exited := by
  cases hs with
  | connectWebSocket hc =>
    rw [h.fresh hc] at hr
    cases hr
  | throws hr' => rfl
  | handshake hr' | setConnected hr' | spawnWrite hr' | startRead hr' | read hr' _
  | testRead hr' =>
    rw [hr'] at hr
    cases hr
  | _ => exact hr

theorem Closing.step {s s' : Connection} {a : ConnAct} (h : Closing s) (hr : Raised s)
    (hs : ConnStep s a s') : Closing s' := by
  have hjoined : ∀ {p : CallerPc}, s.caller = p → p.Joined → s'.reader = .exited := by
    rintro p rfl hp
    exact hs.exited_stays hr (h.joined hp)
  have hjoining : ∀ ts, s.caller = .join ts → .workerRead ∈ ts ∨ s'.reader = .exited := by
    intro ts hts
    exact (h.joining ts hts).imp id fun he => hs.exited_stays hr he
  cases hs with
  | connectWebSocket hc =>
    refine ⟨h.cleared.trans ?_, by simp, by simp, fun hj => hj.elim⟩
    rw [hc]
    rfl
  | send hc hp =>
    have hcl : s.cleared ↔ False := h.cleared.trans (by rw [hc]; rfl)
    rcases hp with rfl | ⟨f, rfl⟩
    · exact ⟨hcl, fun _ => h.listed (by simp [hc]), by simp, fun hj => hj.elim⟩
    · exact ⟨hcl, fun _ => h.listed (by simp [hc]), by simp, fun hj => hj.elim⟩
  | push hc =>
    have hcl : s.cleared ↔ False := h.cleared.trans (by rw [hc]; rfl)
    exact ⟨hcl, fun _ => h.listed (by simp [hc]), by simp, fun hj => hj.elim⟩
  | closeConnection hc =>
    exact ⟨by simp [CallerPc.Closing], fun _ => h.listed (by simp [hc]), by simp, fun hj => hj.elim⟩
  | pushEmpty hc =>
    have hcl : s.cleared := h.cleared.mpr (by rw [hc]; trivial)
    refine ⟨iff_of_true hcl trivial, fun _ => h.listed (by simp [hc]), fun ts hts => ?_,
      fun hj => hj.elim⟩
    cases hts
    exact Or.inl (h.listed (by simp [hc]))
  | joinRead hc hr' =>
    have hcl : s.cleared := h.cleared.mpr (by rw [hc]; trivial)
    exact ⟨iff_of_true hcl trivial, fun _ => h.listed (by simp [hc]), fun _ _ => Or.inr hr',
      fun hj => hj.elim⟩
  | joinWrite hc hw =>
    have hcl : s.cleared := h.cleared.mpr (by rw [hc]; trivial)
    refine ⟨iff_of_true hcl trivial, fun _ => h.listed (by simp [hc]), fun ts hts => ?_,
      fun hj => hj.elim⟩
    cases hts
    simpa using hjoining _ hc
  | cancel hc =>
    have hcl : s.cleared := h.cleared.mpr (by rw [hc]; trivial)
    refine ⟨iff_of_true hcl trivial, fun _ => h.listed (by simp [hc]), by simp, fun _ => ?_⟩
    simpa using h.joining _ hc
  | destroy hc =>
    have hcl : s.cleared := h.cleared.mpr (by rw [hc]; trivial)
    exact ⟨iff_of_true hcl trivial, fun _ => h.listed (by simp [hc]), by simp,
      fun _ => hjoined hc trivial⟩
  | spawnWrite hr' =>
    exact ⟨h.cleared, fun hc => List.mem_append_left _ (h.listed hc), hjoining,
      fun hj => hjoined rfl hj⟩
  | _ => exact ⟨h.cleared, h.listed, hjoining, fun hj => hjoined rfl hj⟩

/-- Both loops have gone round once at most since the flag was cleared, as long as it is down. -/
structure Counted (s : Connection) : Prop where
  unstarted : s.reader.Early → s.writer = .notStarted
  early : s.reader.Early → s.readsSince = 0 ∧ s.writesSince = 0
  uncleared : s.cleared = false → s.readsSince = 0 ∧ s.writesSince = 0
  reads : s.isConnected = false → s.readsSince ≤ 1 ∧ (s.reader = .loop → s.readsSince = 0)
  writes : s.isConnected = false → s.writesSince ≤ 1 ∧ (s.writer = .loop → s.writesSince = 0)

@[simp] lemma count_of_not_cleared {s : Connection} (h : s.cleared = false) (n : ℕ) :
    s.count n = n := by
  simp [Connection.count, h]

lemma count_le (s : Connection) (n : ℕ) : s.count n ≤ n + 1 := by
  rw [Connection.count]
  split_ifs <;> omega

/-- `workerRead` is not about to start an iteration. -/
lemma Counted.readAt {s : Connection} (h : Counted s) {p : ReaderPc} (hp : ¬ p.Early)
    (hl : s.isConnected = false → p ≠ .loop) {b : Bool} :
    Counted { s with reader := p, failed := b } :=
  ⟨fun he => absurd he hp, fun he => absurd he hp, h.uncleared,
    fun hf => ⟨(h.reads hf).1, fun he => absurd he (hl hf)⟩, h.writes⟩

/-- `workerWrite` is not about to start an iteration. -/
lemma Counted.writeAt {s : Connection} (h : Counted s) {p : WriterPc} {q : List Text}
    (hw : s.writer ≠ .notStarted) (hl : s.isConnected = false → p ≠ .loop) :
    Counted { s with writer := p, asyncWriteQueue := q } :=
  ⟨fun he => absurd (h.unstarted he) hw, h.early, h.uncleared, h.reads,
    fun hf => ⟨(h.writes hf).1, fun he => absurd he (hl hf)⟩⟩

theorem Counted.step {s s' : Connection} {a : ConnAct} (h : Counted s) (hr : Raised s)
    (hc : Closing s) (hs : ConnStep s a s') : Counted s' := by
  cases hs with
  | connectWebSocket hcall =>
    have hearly : s.reader.Early := by rw [hr.fresh hcall]; trivial
    exact ⟨fun _ => h.unstarted hearly, fun _ => h.early hearly, h.uncleared,
      fun hf => ⟨(h.reads hf).1, by simp⟩, h.writes⟩
  | closeConnection hcall =>
    -- the flag is cleared here for the first time, so nothing has been counted yet
    have hun : s.cleared = false := by
      rw [← Bool.not_eq_true, hc.cleared, hcall]
      exact id
    obtain ⟨hreads, hwrites⟩ := h.uncleared hun
    exact ⟨h.unstarted, h.early, fun hf => by simp at hf,
      fun _ => ⟨le_of_eq_of_le hreads (Nat.zero_le 1), fun _ => hreads⟩,
      fun _ => ⟨le_of_eq_of_le hwrites (Nat.zero_le 1), fun _ => hwrites⟩⟩
  | destroy hcall =>
    have hflag : s.isConnected = false := hr.exited (hc.joined (by rw [hcall]; trivial))
    exact ⟨h.unstarted, h.early, h.uncleared, fun _ => h.reads hflag, fun _ => h.writes hflag⟩
  | handshake hrd =>
    have hearly : s.reader.Early := by rw [hrd]; trivial
    exact ⟨fun _ => h.unstarted hearly, fun _ => h.early hearly, h.uncleared,
      fun hf => ⟨(h.reads hf).1, by simp⟩, h.writes⟩
  | throws hrd => exact h.readAt (b := s.failed) id (by simp)
  | setConnected hrd =>
    have hearly : s.reader.Early := by rw [hrd]; trivial
    exact ⟨fun _ => h.unstarted hearly, fun _ => h.early hearly, h.uncleared,
      fun hf => by simp at hf, fun hf => by simp at hf⟩
  | spawnWrite hrd =>
    have hearly : s.reader.Early := by rw [hrd]; trivial
    obtain ⟨hreads, hwrites⟩ := h.early hearly
    exact ⟨fun he => he.elim, fun he => he.elim, h.uncleared,
      fun hf => ⟨(h.reads hf).1, fun _ => hreads⟩, fun hf => ⟨(h.writes hf).1, fun _ => hwrites⟩⟩
  | startRead hrd =>
    refine ⟨fun he => he.elim, fun he => he.elim, fun hun => ?_, fun hf => ⟨?_, by simp⟩, h.writes⟩
    · obtain ⟨hreads, hwrites⟩ := h.uncleared hun
      exact ⟨(count_of_not_cleared hun _).trans hreads, hwrites⟩
    · -- the worker was at the head of its loop, so this iteration is the first
      have hzero : s.readsSince = 0 := (h.reads hf).2 hrd
      have hle := count_le s s.readsSince
      show s.count s.readsSince ≤ 1
      omega
  | read hrd _ => exact h.readAt id (by simp)
  | testRead hrd =>
    refine h.readAt (b := s.failed) (p := if s.isConnected then .loop else .exited) ?_ ?_
    · split_ifs <;> exact id
    · intro hf
      simp [hf]
  | startWrite hw =>
    refine ⟨fun he => ?_, fun he => ?_, fun hun => ?_, h.reads, fun hf => ⟨?_, by simp⟩⟩
    · rw [h.unstarted he] at hw
      cases hw
    · rw [h.unstarted he] at hw
      cases hw
    · obtain ⟨hreads, hwrites⟩ := h.uncleared hun
      exact ⟨hreads, (count_of_not_cleared hun _).trans hwrites⟩
    · have hzero : s.writesSince = 0 := (h.writes hf).2 hw
      have hle := count_le s s.writesSince
      show s.count s.writesSince ≤ 1
      omega
  | front hw _ => exact h.writeAt (q := s.asyncWriteQueue) (by simp [hw]) (by simp)
  | write hw => exact h.writeAt (q := s.asyncWriteQueue) (by simp [hw]) (by simp)
  | pop hw => exact h.writeAt (by simp [hw]) (by simp)
  | testWrite hw =>
    refine h.writeAt (q := s.asyncWriteQueue) (p := if s.isConnected then .loop else .exited)
      (by simp [hw]) ?_
    intro hf
    simp [hf]
  | _ => exact ⟨h.unstarted, h.early, h.uncleared, h.reads, h.writes⟩

structure ConnectionInv (s : Connection) : Prop where
  raised : Raised s
  closing : Closing s
  counted : Counted s

theorem ConnectionInv.init : ConnectionInv Connection.init where
  raised := ⟨fun _ => rfl, fun _ => rfl, fun h => h.elim, fun h => (by cases h), fun _ => rfl,
    fun _ => rfl⟩
  closing := ⟨by simp [Connection.init, CallerPc.Closing], fun h => absurd rfl h,
    by simp [Connection.init], fun h => h.elim⟩
  counted := ⟨fun _ => rfl, fun _ => ⟨rfl, rfl⟩, fun _ => ⟨rfl, rfl⟩, by simp [Connection.init],
    by simp [Connection.init]⟩

theorem ConnectionInv.step {s s' : Connection} {a : ConnAct} (h : ConnectionInv s)
    (hs : ConnStep s a s') : ConnectionInv s' where
  raised := h.raised.step hs
  closing := h.closing.step h.raised hs
  counted := h.counted.step h.raised h.closing hs

theorem connectionInv_of_exec (l : List (Connection × ConnAct)) (s : Connection)
    (h : connection.Exec l s) : ConnectionInv s :=
  h.invariant ConnectionInv.init fun _ _ _ hi hs => hi.step (connStep_cases hs)

/-! ### When the flag tells the truth -/

/-- The flag is up only between the handshake and the end of the connection, which comes with a
read that fails or with `closeConnection`; and after `closeConnection` each loop goes round once
more at most. -/
structure Faithful (s : Connection) : Prop where
  handshaken : s.isConnected → s.handshaken
  sound : s.isConnected → s.failed = false
  uncleared : s.isConnected → s.cleared = false
  reads : s.readsSince ≤ 1
  writes : s.writesSince ≤ 1

/-- The flag is not set after it was cleared, and a read fails for good only when it is down. -/
def Timely (s : Connection) (a : ConnAct) : Prop :=
  (a = .setConnected → s.cleared = false) ∧ (a = .read .fatal → s.isConnected = false)

lemma ConnectionInv.faithful {s : Connection} (h : ConnectionInv s)
    (hsound : s.isConnected → s.failed = false) (hun : s.isConnected → s.cleared = false) :
    Faithful s := by
  refine ⟨h.raised.flag, hsound, hun, ?_, ?_⟩
  · cases hf : s.isConnected with
    | true =>
      have hzero := (h.counted.uncleared (hun hf)).1
      omega
    | false => exact (h.counted.reads hf).1
  · cases hf : s.isConnected with
    | true =>
      have hzero := (h.counted.uncleared (hun hf)).2
      omega
    | false => exact (h.counted.writes hf).1

/-- A step keeps the flag faithful exactly if it is timely. -/
theorem faithful_step {s s' : Connection} {a : ConnAct} (hi : ConnectionInv s) (h : Faithful s)
    (hs : ConnStep s a s') : Faithful s' ↔ Timely s a := by
  have hi' : ConnectionInv s' := hi.step hs
  constructor
  · intro h'
    constructor
    · rintro rfl
      cases hs with
      | setConnected hr => exact h'.uncleared rfl
    · rintro rfl
      cases hs with
      | read hr hf =>
        rw [← Bool.not_eq_true]
        intro hflag
        have hfailed := h'.sound hflag
        simp at hfailed
  · rintro ⟨hset, hread⟩
    cases hs with
    | closeConnection hc => exact hi'.faithful (fun hf => by simp at hf) fun hf => by simp at hf
    | destroy hc => exact hi'.faithful (fun hf => by simp at hf) fun hf => by simp at hf
    | setConnected hr =>
      exact hi'.faithful (fun _ => hi.raised.early (by rw [hr]; trivial)) fun _ => hset rfl
    | @read r hr hf =>
      refine hi'.faithful (fun hflag => ?_) h.uncleared
      rw [decide_eq_false_iff_not]
      rintro rfl
      rw [hread rfl] at hflag
      cases hflag
    | _ => exact hi'.faithful h.sound h.uncleared

/-- **The connection flag, exactly.**  In every state of a run the flag is up only between the
handshake and the end of the connection, and the loops stop after `closeConnection`, if and only
if the run never sets the flag after clearing it and no read fails for good while it is up. -/
theorem flag_faithful_iff {l : List (Connection × ConnAct)} {s : Connection}
    (h : connection.Exec l s) : Always Faithful l s ↔ Meets Timely l := by
  have h₀ : Faithful connection.init :=
    ⟨fun hf => (by cases hf), fun _ => rfl, fun _ => rfl, Nat.zero_le 1, Nat.zero_le 1⟩
  exact h.always_iff_meets connectionInv_of_exec h₀ fun _ _ _ hi hf hs =>
    faithful_step hi hf (connStep_cases hs)

/-! ### The end of the workers -/

/-- The step is one of `workerRead` or `workerWrite`. -/
def ConnAct.ofWorker : ConnAct → Bool
  | .handshake _ | .setConnected | .spawnWrite | .startRead | .read _ | .testRead => true
  | .startWrite | .front | .write | .pop | .testWrite => true
  | _ => false

/-- The steps that `workerRead` has left while the flag is down. -/
def ReaderPc.work : ReaderPc → ℕ
  | .notStarted => 7
  | .handshake => 6
  | .setFlag => 5
  | .spawn => 4
  | .loop => 3
  | .read => 2
  | .test => 1
  | .exited => 0

/-- The steps that `workerWrite` has left while the flag is down. -/
def WriterPc.work : WriterPc → ℕ
  | .notStarted => 6
  | .loop => 5
  | .front => 4
  | .write _ => 3
  | .pop => 2
  | .test => 1
  | .exited => 0

def Connection.work (s : Connection) : ℕ := s.reader.work + s.writer.work

/-- The workers only move on while the flag is down. -/
lemma ConnStep.work {s s' : Connection} {a : ConnAct} (hs : ConnStep s a s')
    (hi : ConnectionInv s) (hf : s.isConnected = false) :
    s'.work + (if a.ofWorker then 1 else 0) ≤ s.work := by
  cases hs with
  | connectWebSocket hc =>
    have hr := hi.raised.fresh hc
    simp only [Connection.work, ConnAct.ofWorker, hr, ReaderPc.work, Bool.false_eq_true, if_false]
    omega
  | spawnWrite hr =>
    have hw := hi.counted.unstarted (by rw [hr]; trivial)
    simp only [Connection.work, ConnAct.ofWorker, hr, hw, ReaderPc.work, WriterPc.work, if_true]
    omega
  | handshake hr | throws hr | setConnected hr | startRead hr | read hr _ =>
    simp only [Connection.work, ConnAct.ofWorker, hr, ReaderPc.work, if_true]
    omega
  | testRead hr =>
    simp only [Connection.work, ConnAct.ofWorker, hr, hf, Bool.false_eq_true, if_false, if_true,
      ReaderPc.work]
    omega
  | startWrite hw | front hw _ | write hw | pop hw =>
    simp only [Connection.work, ConnAct.ofWorker, hw, WriterPc.work, if_true]
    omega
  | testWrite hw =>
    simp only [Connection.work, ConnAct.ofWorker, hw, hf, Bool.false_eq_true, if_false, if_true,
      WriterPc.work]
    omega
  | _ => exact le_refl _

/-- The steps that the workers have taken since the flag was cleared. -/
def workSince (l : List (Connection × ConnAct)) : ℕ :=
  (l.filter fun x => x.1.cleared && x.2.ofWorker).length

lemma workSince_snoc (l : List (Connection × ConnAct)) (s : Connection) (a : ConnAct) :
    workSince (l ++ [(s, a)]) = workSince l + (if s.cleared && a.ofWorker then 1 else 0) := by
  rw [workSince, List.filter_append, List.length_append, workSince]
  congr 1
  cases hx : s.cleared && a.ofWorker <;> simp [hx]

lemma work_le (s : Connection) : s.work ≤ 13 := by
  have hr : s.reader.work ≤ 7 := by cases s.reader <;> simp [ReaderPc.work]
  have hw : s.writer.work ≤ 6 := by cases s.writer <;> simp [WriterPc.work]
  rw [Connection.work]
  omega

lemma ConnStep.cleared_stays {s s' : Connection} {a : ConnAct} (hs : ConnStep s a s')
    (h : s.cleared) : s'.cleared := by
  cases hs with
  | closeConnection => rfl
  | _ => exact h

lemma workSince_eq_zero {l : List (Connection × ConnAct)} {s : Connection}
    (h : connection.Exec l s) (hc : s.cleared = false) : workSince l = 0 := by
  induction h with
  | nil => rfl
  | @snoc l s s' a hl hs ih =>
    have hc₀ : s.cleared = false := by
      rw [← Bool.not_eq_true]
      intro h
      rw [(connStep_cases hs).cleared_stays h] at hc
      cases hc
    rw [workSince_snoc, ih hc₀, hc₀]
    rfl

/-- In a timely run the two workers take 13 steps at most after `closeConnection` has cleared
the flag: `closeConnection` does not wait for a loop that runs for ever. -/
theorem workSince_le {l : List (Connection × ConnAct)} {s : Connection}
    (h : connection.Exec l s) (hok : Meets Timely l) :
    workSince l + (if s.cleared then s.work else 0) ≤ 13 := by
  induction h with
  | nil => simp [workSince, connection, Connection.init]
  | @snoc l s s' a hl hs ih =>
    obtain ⟨hok', ha⟩ := meets_snoc.mp hok
    have hstep := connStep_cases hs
    have hi := connectionInv_of_exec l s hl
    have hih := ih hok'
    rw [workSince_snoc]
    cases hc : s.cleared with
    | false =>
      have hle := work_le s'
      have hzero := workSince_eq_zero hl hc
      simp only [Bool.false_and, Bool.false_eq_true, if_false]
      split_ifs <;> omega
    | true =>
      have hflag : s.isConnected = false := by
        rw [← Bool.not_eq_true]
        intro hf
        have hun := ((flag_faithful_iff hl).mpr hok').2.uncleared hf
        rw [hc] at hun
        cases hun
      have hwork := hstep.work hi hflag
      simp only [hc, Bool.true_and, if_true] at hih ⊢
      split_ifs at hwork ⊢ <;> omega

/-! ### A session that is closed too early -/

/-- Nothing takes the flag down again once it has come up after `closeConnection`. -/
lemma ConnStep.up_stays {s s' : Connection} {a : ConnAct} (hs : ConnStep s a s')
    (hi : ConnectionInv s) (hc : s.cleared) (hf : s.isConnected) : s'.isConnected := by
  cases hs with
  | closeConnection hcall =>
    rw [hi.closing.cleared, hcall] at hc
    exact hc.elim
  | destroy hcall =>
    rw [hi.raised.exited (hi.closing.joined (by rw [hcall]; trivial))] at hf
    cases hf
  | setConnected => rfl
  | _ => exact hf

/-- If the handshake completes after the session was closed, `workerRead` never returns, and
`closeConnection` waits for it for ever. -/
theorem shutdown_hangs {l : List (Connection × ConnAct)} {s s' : Connection}
    (h : connection.Exec l s) (hc : s.cleared) (hf : s.isConnected)
    (hleads : connection.Leads s s') : s'.reader ≠ .exited ∧ ¬ s'.caller.Joined := by
  have hend : ConnectionInv s' ∧ s'.cleared ∧ s'.isConnected := by
    refine hleads.stable (P := fun s => ConnectionInv s ∧ s.cleared ∧ s.isConnected) ?_
      ⟨connectionInv_of_exec l s h, hc, hf⟩
    rintro s a s' ⟨hi, hc, hf⟩ hs
    have hstep := connStep_cases hs
    exact ⟨hi.step hstep, hstep.cleared_stays hc, hstep.up_stays hi hc hf⟩
  obtain ⟨hi, -, hf'⟩ := hend
  have hr : s'.reader ≠ .exited := by
    intro hr
    rw [hi.raised.exited hr] at hf'
    cases hf'
  exact ⟨hr, fun hj => hr (hi.closing.joined hj)⟩

/-- The window is closed while `workerRead` is still connecting. -/
def early : List ConnAct :=
  [.connectWebSocket, .closeConnection, .pushEmpty, .handshake true, .setConnected]

lemma early_runs : (connection.run connection.init early).isSome := by
  decide

/-- The flag can be set after `closeConnection` has cleared it. -/
theorem connected_after_close : ¬ ∀ s, connection.Reachable s → Faithful s := by
  intro h
  have hs := h _ ⟨_, exec_get_run early_runs⟩
  have hun := hs.uncleared (by decide)
  exact absurd hun (by decide)

/-- A message is read and a position written before the session is closed. -/
def timely : List ConnAct :=
  [.connectWebSocket, .handshake true, .setConnected, .spawnWrite, .startRead, .startWrite,
    .send true (some ['p']), .push, .read .message, .front, .testRead, .closeConnection, .pushEmpty,
    .write, .pop, .testWrite, .startRead, .read .message, .testRead, .join, .join, .cancel,
    .destroy]

lemma timely_runs : (connection.run connection.init timely).isSome := by
  decide

theorem flag_faithful_iff_timely :
    Always Faithful ((connection.run connection.init timely).get timely_runs).1
        ((connection.run connection.init timely).get timely_runs).2
      ↔ Meets Timely ((connection.run connection.init timely).get timely_runs).1 :=
  flag_faithful_iff (exec_get_run timely_runs)

end MultiplayerCars.CPPClient
