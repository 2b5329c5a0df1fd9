import MultiplayerCars.CPPClient.Connection

/-!
# Writers on the stream

The stream of a session takes one `write` or `close` at a time.  `sendPosition` leaves its frame to
`workerWrite`; `sendColorUpdate` and `sendTextMessage` write theirs at once, in the main thread, and
so does `closeConnection` close.  The three calls are taken apart here into their beginning and
their end.  Nothing keeps the main thread from writing while `workerWrite` is, nor the other way
round.  The joins keep `closeConnection` from it, unless `workerWrite` has been started after the
range of the joins was fixed.
-/

namespace MultiplayerCars.CPPClient

open Lib Lib.Json Lib.Machine

/-- Where the main thread stands in a call that writes or closes. -/
inductive StreamCall
  | idle
  | toWrite | writing
  | toClose | closing
deriving DecidableEq, Repr

structure Stream where
  conn : Connection
  call : StreamCall
  /-- `workerWrite` is inside its `m_wss.write`. -/
  busy : Bool
  /-- `workerWrite` has been started after `closeConnection` fixed the range of its joins. -/
  late : Bool
deriving DecidableEq

inductive StreamAct
  /-- A step that neither writes nor closes. -/
  | conn (a : ConnAct)
  /-- `sendColorUpdate` or `sendTextMessage` tests the flag together with `is_message_done()`. -/
  | send (done : Bool)
  | beginSend | endSend
  /-- The `m_wss.write` of `workerWrite`. -/
  | beginWrite | endWrite
  /-- `closeConnection` after its joins. -/
  | cancel | beginClose | endClose
deriving DecidableEq

/-- The step is one of the main thread. -/
def ConnAct.ofMain : ConnAct → Bool
  | .connectWebSocket | .send _ _ | .push | .closeConnection | .pushEmpty | .join | .cancel
  | .destroy => true
  | _ => false

/-- The step writes on the stream or closes it, or stands for a call that does. -/
def ConnAct.streams : ConnAct → Bool
  | .send _ none | .write | .cancel => true
  | _ => false

/-- The main thread is joining. -/
def CallerPc.joins : CallerPc → Bool
  | .join _ => true
  | _ => false

namespace Stream

def init : Stream := ⟨Connection.init, .idle, false, false⟩

def step (s : Stream) : StreamAct → Option Stream
  | .conn a =>
    if a.streams = false ∧ (a.ofMain → s.call = .idle) then
      (s.conn.step a).map fun c => { s with
        conn := c, late := s.late || (decide (a = .spawnWrite) && s.conn.caller.joins) }
    else none
  | .send done =>
    if s.conn.caller = .running ∧ s.call = .idle then
      some { s with call := if s.conn.isConnected && done then .toWrite else .idle }
    else none
  | .beginSend => if s.call = .toWrite then some { s with call := .writing } else none
  | .endSend => if s.call = .writing then some { s with call := .idle } else none
  | .beginWrite =>
    match s.conn.writer with
    | .write _ => if s.busy = false then some { s with busy := true } else none
    | _ => none
  | .endWrite =>
    if s.busy then (s.conn.step .write).map fun c => { s with conn := c, busy := false } else none
  | .cancel =>
    if s.conn.caller = .join [] ∧ s.call = .idle then some { s with call := .toClose } else none
  | .beginClose => if s.call = .toClose then some { s with call := .closing } else none
  | .endClose =>
    if s.call = .closing then (s.conn.step .cancel).map fun c => { s with conn := c, call := .idle }
    else none

end Stream

/-- A session with its threads and its stream. -/
def stream : Machine Stream StreamAct where
  init := Stream.init
  step := Stream.step

/-- No two threads are inside a `write` or `close` on the stream: `workerWrite` is not inside its
`write` while the main thread is inside one or inside its `close`. -/
def OneWriter (s : Stream) : Prop := s.busy → s.call ≠ .writing ∧ s.call ≠ .closing

/-- The step begins no call beside another: no colour or text is written while `workerWrite` is
writing, `workerWrite` does not begin while one is, and if it has been started late, neither it nor
`closeConnection` begins while the other one is at it. -/
structure Apart (s : Stream) (a : StreamAct) : Prop where
  send : a = .beginSend → s.busy = false
  write : a = .beginWrite → s.call ≠ .writing
  close : s.late → a = .beginClose → s.busy = false
  closing : s.late → a = .beginWrite → s.call ≠ .closing

/-! ### One step -/

inductive StreamStep (s : Stream) : StreamAct → Stream → Prop
  | conn {a : ConnAct} {c : Connection} (ha : a.streams = false)
      (hm : a.ofMain → s.call = .idle) (hs : ConnStep s.conn a c) : StreamStep s (.conn a)
        { s with conn := c, late := s.late || (decide (a = .spawnWrite) && s.conn.caller.joins) }
  | send {done : Bool} {p : StreamCall} (hc : s.conn.caller = .running) (hi : s.call = .idle)
      (hp : p = .idle ∨ p = .toWrite) : StreamStep s (.send done) { s with call := p }
  | beginSend (hc : s.call = .toWrite) : StreamStep s .beginSend { s with call := .writing }
  | endSend (hc : s.call = .writing) : StreamStep s .endSend { s with call := .idle }
  | beginWrite {tmp : Text} (hw : s.conn.writer = .write tmp) (hb : s.busy = false) :
      StreamStep s .beginWrite { s with busy := true }
  | endWrite {c : Connection} (hb : s.busy) (hs : ConnStep s.conn .write c) :
      StreamStep s .endWrite { s with conn := c, busy := false }
  | cancel (hc : s.conn.caller = .join []) (hi : s.call = .idle) :
      StreamStep s .cancel { s with call := .toClose }
  | beginClose (hc : s.call = .toClose) : StreamStep s .beginClose { s with call := .closing }
  | endClose {c : Connection} (hc : s.call = .closing) (hs : ConnStep s.conn .cancel c) :
      StreamStep s .endClose { s with conn := c, call := .idle }

theorem streamStep_cases {s s' : Stream} {a : StreamAct} (h : stream.step s a = some s') :
    StreamStep s a s' := by
  cases a <;> simp only [stream, Stream.step, Option.ite_none_right_eq_some, Option.some.injEq,
    Option.map_eq_some_iff] at h
  case conn a =>
    obtain ⟨⟨ha, hm⟩, c, hs, rfl⟩ := h
    exact .conn ha hm (connStep_cases hs)
  case send done =>
    obtain ⟨⟨hc, hi⟩, rfl⟩ := h
    refine .send hc hi ?_
    split_ifs
    · exact Or.inr rfl
    · exact Or.inl rfl
  case beginSend =>
    obtain ⟨hc, rfl⟩ := h
    exact .beginSend hc
  case endSend =>
    obtain ⟨hc, rfl⟩ := h
    exact .endSend hc
  case beginWrite =>
    split at h
    · rename_i tmp hw
      obtain ⟨hb, he⟩ := Option.ite_none_right_eq_some.mp h
      cases he
      exact .beginWrite hw hb
    · cases h
  case endWrite =>
    obtain ⟨hb, c, hs, rfl⟩ := h
    exact .endWrite hb (connStep_cases hs)
  case cancel =>
    obtain ⟨⟨hc, hi⟩, rfl⟩ := h
    exact .cancel hc hi
  case beginClose =>
    obtain ⟨hc, rfl⟩ := h
    exact .beginClose hc
  case endClose =>
    obtain ⟨hc, c, hs, rfl⟩ := h
    exact .endClose hc (connStep_cases hs)

/-! ### Where the two threads stand -/

/-- The main thread stands where it did, unless the step is its own. -/
lemma ConnStep.caller_stays {s s' : Connection} {a : ConnAct} (hs : ConnStep s a s')
    (ha : a.ofMain = false) : s'.caller = s.caller := by
  cases hs <;> first | rfl | cases ha

/-- A worker that is writing goes on writing until its call ends. -/
lemma ConnStep.write_stays {s s' : Connection} {a : ConnAct} (hs : ConnStep s a s')
    (hc : Counted s) (ha : a ≠ .write) {tmp : Text} (hw : s.writer = .write tmp) :
    s'.writer = .write tmp := by
  cases hs with
  | spawnWrite hr =>
    rw [hc.unstarted (by rw [hr]; trivial)] at hw
    cases hw
  | startWrite hw' | front hw' _ | pop hw' | testWrite hw' =>
    rw [hw'] at hw
    cases hw
  | write => exact absurd rfl ha
  | _ => exact hw

/-- A worker that has not been started, or has returned, stays where it is until it is started. -/
lemma ConnStep.writer_stays {s s' : Connection} {a : ConnAct} (hs : ConnStep s a s')
    (ha : a ≠ .spawnWrite) (hw : s.writer = .exited ∨ s.writer = .notStarted) :
    s'.writer = s.writer := by
  cases hs with
  | spawnWrite => exact absurd rfl ha
  | startWrite hw' | front hw' _ | write hw' | pop hw' | testWrite hw' =>
    rw [hw'] at hw
    rcases hw with hw | hw <;> cases hw
  | _ => rfl

/-- A worker that has been started is in the list of threads. -/
def Listed (s : Connection) : Prop := s.writer ≠ .notStarted → .workerWrite ∈ s.threadList

lemma Listed.step {s s' : Connection} {a : ConnAct} (h : Listed s) (hi : ConnectionInv s)
    (hs : ConnStep s a s') : Listed s' := by
  have hstarted : ∀ {p : WriterPc}, s.writer = p → p ≠ .notStarted →
      .workerWrite ∈ s.threadList := fun hp hne => h (by rwa [hp])
  cases hs with
  | connectWebSocket hc =>
    have hr := hi.raised.fresh hc
    exact fun hw => absurd (hi.counted.unstarted (by rw [hr]; trivial)) hw
  | spawnWrite => exact fun _ => List.mem_append_right _ (List.mem_singleton.mpr rfl)
  | startWrite hw | front hw _ | write hw | pop hw | testWrite hw =>
    exact fun _ => hstarted hw (by simp)
  | _ => exact h

/-- The joins that are left wait for `workerWrite`, if it is still to be waited for. -/
def Awaited (s : Connection) : Prop := ∀ ts, s.caller = .join ts →
  .workerWrite ∈ ts ∨ s.writer = .exited ∨ s.writer = .notStarted

lemma Awaited.step {s s' : Connection} {a : ConnAct} (h : Awaited s) (hl : Listed s)
    (hs : ConnStep s a s') (ha : a = .spawnWrite → s.caller.joins = false) : Awaited s' := by
  have hkeep : ∀ ts, s.caller = .join ts → a ≠ .spawnWrite →
      .workerWrite ∈ ts ∨ s'.writer = .exited ∨ s'.writer = .notStarted := by
    intro ts hts hne
    refine (h ts hts).imp_right fun hw => ?_
    rw [hs.writer_stays hne hw]
    exact hw
  cases hs with
  | pushEmpty hc =>
    intro ts hts
    cases hts
    by_cases hw : s.writer = .notStarted
    · exact Or.inr (Or.inr hw)
    · exact Or.inl (hl hw)
  | @joinRead ts hc hr =>
    intro ts' hts
    cases hts
    rcases hkeep _ hc (by simp) with hmem | hw
    · exact Or.inl (by simpa using hmem)
    · exact Or.inr hw
  | joinWrite hc hw => exact fun _ _ => Or.inr (Or.inl hw)
  | spawnWrite hr =>
    intro ts hts
    have hfalse := ha rfl
    rw [show s.caller = .join ts from hts] at hfalse
    cases hfalse
  | connectWebSocket => exact fun ts hts => by cases hts
  | send hc hp =>
    intro ts hts
    rcases hp with rfl | ⟨f, rfl⟩ <;> cases hts
  | push => exact fun ts hts => by cases hts
  | closeConnection => exact fun ts hts => by cases hts
  | cancel => exact fun ts hts => by cases hts
  | destroy => exact fun ts hts => by cases hts
  | _ => exact fun ts hts => hkeep ts hts (by simp)

structure StreamInv (s : Stream) : Prop where
  conn : ConnectionInv s.conn
  busy : s.busy → ∃ tmp, s.conn.writer = .write tmp
  closing : s.call = .toClose ∨ s.call = .closing → s.conn.caller = .join []
  listed : Listed s.conn
  awaited : s.late = false → Awaited s.conn

lemma StreamInv.init : StreamInv Stream.init where
  conn := ConnectionInv.init
  busy := fun h => by cases h
  closing := fun h => by rcases h with h | h <;> cases h
  listed := fun h => absurd rfl h
  awaited := fun _ ts hts => by cases hts

theorem StreamInv.step {s s' : Stream} {a : StreamAct} (h : StreamInv s)
    (hs : StreamStep s a s') : StreamInv s' := by
  cases hs with
  | @conn a c ha hm hs =>
    refine ⟨h.conn.step hs, fun hb => ?_, fun hcall => ?_, h.listed.step h.conn hs, fun hlate => ?_⟩
    · obtain ⟨tmp, hw⟩ := h.busy hb
      refine ⟨tmp, hs.write_stays h.conn.counted ?_ hw⟩
      rintro rfl
      cases ha
    · have hmain : a.ofMain = false := by
        rw [← Bool.not_eq_true]
        intro hmain
        rw [hm hmain] at hcall
        rcases hcall with hcall | hcall <;> cases hcall
      exact (hs.caller_stays hmain).trans (h.closing hcall)
    · obtain ⟨hlate, hspawn⟩ := Bool.or_eq_false_iff.mp hlate
      refine (h.awaited hlate).step h.listed hs ?_
      rintro rfl
      simpa using hspawn
  | send hc hi hp =>
    refine ⟨h.conn, h.busy, fun hcall => ?_, h.listed, h.awaited⟩
    rcases hp with rfl | rfl <;> rcases hcall with hcall | hcall <;> cases hcall
  | beginSend => exact ⟨h.conn, h.busy, by simp, h.listed, h.awaited⟩
  | endSend => exact ⟨h.conn, h.busy, by simp, h.listed, h.awaited⟩
  | beginWrite hw => exact ⟨h.conn, fun _ => ⟨_, hw⟩, h.closing, h.listed, h.awaited⟩
  | endWrite hb hs =>
    refine ⟨h.conn.step hs, by simp, fun hcall => ?_, h.listed.step h.conn hs,
      fun hlate => (h.awaited hlate).step h.listed hs (by simp)⟩
    exact (hs.caller_stays rfl).trans (h.closing hcall)
  | cancel hc hi => exact ⟨h.conn, h.busy, fun _ => hc, h.listed, h.awaited⟩
  | beginClose hc =>
    exact ⟨h.conn, h.busy, fun _ => h.closing (Or.inl hc), h.listed, h.awaited⟩
  | endClose hc hs =>
    refine ⟨h.conn.step hs, fun hb => ?_, by simp, h.listed.step h.conn hs,
      fun hlate => (h.awaited hlate).step h.listed hs (by simp)⟩
    obtain ⟨tmp, hw⟩ := h.busy hb
    exact ⟨tmp, hs.write_stays h.conn.counted (by simp) hw⟩

lemma streamInv_of_exec (l : List (Stream × StreamAct)) (s : Stream) (h : stream.Exec l s) :
    StreamInv s :=
  h.invariant StreamInv.init fun _ _ _ hi hs => hi.step (streamStep_cases hs)

/-- A `workerWrite` that was started in time has returned when the stream is closed. -/
lemma StreamInv.late_of_closing {s : Stream} (h : StreamInv s)
    (hc : s.call = .toClose ∨ s.call = .closing) {tmp : Text} (hw : s.conn.writer = .write tmp) :
    s.late := by
  by_contra hlate
  rcases h.awaited (by simpa using hlate) [] (h.closing hc) with hmem | hex | hnot
  · cases hmem
  · rw [hw] at hex
    cases hex
  · rw [hw] at hnot
    cases hnot

/-! ### Every run -/

/-- A step leaves one writer on the stream exactly if it begins no call beside another. -/
theorem oneWriter_streamStep {s s' : Stream} {a : StreamAct} (hi : StreamInv s)
    (h : OneWriter s) (hs : StreamStep s a s') : OneWriter s' ↔ Apart s a := by
  cases hs with
  | beginSend hc =>
    constructor
    · intro h'
      refine ⟨fun _ => ?_, by simp, by simp, by simp⟩
      rw [← Bool.not_eq_true]
      exact fun hb => (h' hb).1 rfl
    · intro hok hb
      have hfree := hok.send rfl
      rw [show s.busy = true from hb] at hfree
      cases hfree
  | beginWrite hw hb =>
    constructor
    · intro h'
      exact ⟨by simp, fun _ => (h' rfl).1, by simp, fun _ _ => (h' rfl).2⟩
    · intro hok _
      refine ⟨hok.write rfl, fun hc => ?_⟩
      exact hok.closing (hi.late_of_closing (Or.inr hc) hw) rfl hc
  | beginClose hc =>
    constructor
    · intro h'
      refine ⟨by simp, by simp, fun _ _ => ?_, by simp⟩
      rw [← Bool.not_eq_true]
      exact fun hb => (h' hb).2 rfl
    · intro hok hb
      obtain ⟨tmp, hw⟩ := hi.busy hb
      have hfree := hok.close (hi.late_of_closing (Or.inl hc) hw) rfl
      rw [show s.busy = true from hb] at hfree
      cases hfree
  | conn ha hm hs => exact iff_of_true h ⟨by simp, by simp, by simp, by simp⟩
  | send hc hi' hp =>
    refine iff_of_true (fun _ => ?_) ⟨by simp, by simp, by simp, by simp⟩
    rcases hp with rfl | rfl <;> simp
  | endSend => exact iff_of_true (fun _ => by simp) ⟨by simp, by simp, by simp, by simp⟩
  | endWrite hb hs => exact iff_of_true (fun hb => by cases hb) ⟨by simp, by simp, by simp, by simp⟩
  | cancel => exact iff_of_true (fun _ => by simp) ⟨by simp, by simp, by simp, by simp⟩
  | endClose => exact iff_of_true (fun _ => by simp) ⟨by simp, by simp, by simp, by simp⟩

/-- **One writer on the stream, exactly.**  In no state of a run are two threads inside a `write` or
`close` on the stream if and only if no colour or text is written while `workerWrite` is writing,
nor the other way round, and a `workerWrite` that was started after `closeConnection` had fixed the
range of its joins does not write while the stream is closed. -/
theorem stream_one_writer_iff {l : List (Stream × StreamAct)} {s : Stream}
    (h : stream.Exec l s) : Always OneWriter l s ↔ Meets Apart l :=
  h.always_iff_meets streamInv_of_exec (fun hb => by cases hb) fun _ _ _ hi hw hs =>
    oneWriter_streamStep hi hw (streamStep_cases hs)

/-! ### A colour beside a position -/

/-- The car moves, and while `workerWrite` writes its position a colour is picked. -/
def colorPicked : List StreamAct :=
  [.conn .connectWebSocket, .conn (.handshake true), .conn .setConnected, .conn .spawnWrite,
    .conn (.send true (some ['p'])), .conn .push, .conn .startWrite, .conn .front, .beginWrite,
    .send true, .beginSend]

lemma colorPicked_runs : (stream.run stream.init colorPicked).isSome := by
  decide

/-- The main thread and `workerWrite` can be writing at the same time. -/
theorem writes_at_once : ¬ ∀ s, stream.Reachable s → OneWriter s := by
  intro h
  have hs := h _ ⟨_, exec_get_run colorPicked_runs⟩ (by decide)
  exact hs.1 (by decide)

/-- The same calls with the colour picked after the position has gone out, up to the close. -/
def colorWaited : List StreamAct :=
  [.conn .connectWebSocket, .conn (.handshake true), .conn .setConnected, .conn .spawnWrite,
    .conn .startRead, .conn (.send true (some ['p'])), .conn .push, .conn .startWrite, .conn .front,
    .beginWrite, .endWrite, .conn .pop, .send true, .beginSend, .endSend, .conn .testWrite,
    .conn .startWrite, .conn .closeConnection, .conn .pushEmpty, .conn (.read .error),
    .conn .testRead, .conn .front, .beginWrite, .endWrite, .conn .pop, .conn .testWrite,
    .conn .join, .conn .join, .cancel, .beginClose, .endClose, .conn .destroy]

lemma colorWaited_runs : (stream.run stream.init colorWaited).isSome := by
  decide

theorem stream_one_writer_iff_colorWaited :
    Always OneWriter ((stream.run stream.init colorWaited).get colorWaited_runs).1
        ((stream.run stream.init colorWaited).get colorWaited_runs).2
      ↔ Meets Apart ((stream.run stream.init colorWaited).get colorWaited_runs).1 :=
  stream_one_writer_iff (exec_get_run colorWaited_runs)

end MultiplayerCars.CPPClient
