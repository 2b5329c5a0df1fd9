import MultiplayerCars.CPPClient.Connection
import MultiplayerCars.CPPClient.Ghosts
import MultiplayerCars.CPPClient.QueueCalls

/-!
# The whole client, from the connection to the shutdown

`main` connects the session, starts the relay and the batch handler, and goes through its frames
until the window is closed or Escape is clicked.  Then it closes the connection, clears
`g_gameRunning`, pushes an empty message so that the relay does not wait for ever, and joins.  Four
queues carry the messages between the threads, and each has one consumer, which looks at the front
first and pops it later.
-/

namespace MultiplayerCars.CPPClient

open Lib Lib.Json Lib.Machine

/-! ### The process -/

/-- `relayWorkerThread`: in an iteration, at the test of its loop, or returned. -/
inductive RelayLoop
  | iteration
  | test
  | exited
deriving DecidableEq, Repr

/-- `main`: before `connectWebSocket`, in the main loop, in `closeConnection`, about to push the
empty message, joining, and at its end. -/
inductive AppPc
  | connect
  | loop
  | closeConnection
  | push
  | join
  | ended
deriving DecidableEq, Repr

structure App where
  client : Client
  /-- The threads and the queue of the session; that of `client` keeps the UUID and the colour. -/
  conn : Connection
  gameRunning : Bool
  relay : RelayLoop
  pc : AppPc

inductive AppAct
  | connectWebSocket
  /-- A step of the main loop, other than the call of `sendPosition`. -/
  | main (a : ClientAct)
  | sendPosition (done : Bool) | push
  /-- A click on the button that ends the game, and the end of the main loop. -/
  | escape | leave
  | close (a : ConnAct)
  | stop | pushEmpty | join
  | relay (a : ClientAct) | testRelay
  | wakeBatchHandler
  /-- `workerRead` reads a message and hands it to `onMessage`. -/
  | receive (msg : Text)
  | worker (a : ConnAct)
deriving DecidableEq

/-- The action is one of the main loop, other than the call of `sendPosition`. -/
def ClientAct.ofLoop : ClientAct → Bool
  | .posEmpty | .posFront | .posPop | .guiEmpty | .guiSize | .guiFront | .guiPop => true
  | .keys _ | .mouse _ _ _ | .typing _ _ | .text _ | .batch | .discard | .discardPop => true
  | _ => false

def ClientAct.ofRelay : ClientAct → Bool
  | .relayFront | .relayMove | .relayPop => true
  | _ => false

/-- The session is called, and finds `m_isConnected && m_wss.is_message_done()` true. -/
def ClientAct.ready : ClientAct → Bool
  | .mouse _ _ ready | .text ready => ready
  | _ => false

/-- The action is one of `closeConnection`. -/
def ConnAct.ofClose : ConnAct → Bool
  | .closeConnection | .pushEmpty | .join | .cancel => true
  | _ => false

namespace App

def start (uuid : UuidV4) : App := ⟨Client.start uuid, Connection.init, false, .iteration, .connect⟩

/-- The frame of `sendPosition`, if the car has moved. -/
def frame (s : App) : Option Text :=
  if s.client.gui.move then
    some (posFrame s.client.session.currColor.text s.client.clientUUID s.client.X s.client.Y)
  else none

def step (s : App) (a : AppAct) : Option App :=
  -- an exception that leaves `main` ends the process
  if s.client.mainPc = .crashed then none
  else
    match a with
    | .connectWebSocket =>
      if s.pc = .connect then
        (s.conn.step .connectWebSocket).map fun k =>
          { s with conn := k, gameRunning := true, pc := .loop }
      else none
    | .main a =>
      if a.ofLoop ∧ s.pc = .loop ∧ s.conn.caller = .running ∧ (a = .posEmpty → s.gameRunning) ∧
          (a.ready → s.conn.isConnected) then
        (s.client.step a).map fun c => { s with client := c }
      else none
    | .sendPosition done =>
      if s.pc = .loop ∧ s.conn.caller = .running then
        (s.client.step (.move false)).bind fun c =>
          (s.conn.step (.send done s.frame)).map fun k => { s with client := c, conn := k }
      else none
    | .push =>
      if s.pc = .loop then (s.conn.step .push).map fun k => { s with conn := k } else none
    | .escape =>
      if s.pc = .loop ∧ s.client.mainPc = .move ∧ s.conn.caller = .running then
        some { s with gameRunning := false }
      else none
    | .leave =>
      if s.pc = .loop ∧ s.client.mainPc = .posEmpty ∧ s.conn.caller = .running then
        some { s with pc := .closeConnection }
      else none
    | .close a =>
      if a.ofClose ∧ s.pc = .closeConnection then
        (s.conn.step a).map fun k => { s with conn := k }
      else none
    | .stop =>
      if s.pc = .closeConnection ∧ s.conn.caller = .closed then
        some { s with gameRunning := false, pc := .push }
      else none
    | .pushEmpty =>
      if s.pc = .push then
        some { s with
          client := { s.client with wsUpdatedJsonQueue := s.client.wsUpdatedJsonQueue ++ [[]] }
          pc := .join }
      else none
    | .join =>
      if s.pc = .join ∧ s.relay = .exited ∧ s.client.batchPending = false then
        some { s with pc := .ended }
      else none
    | .relay a =>
      if a.ofRelay ∧ s.pc ≠ .connect ∧ s.relay = .iteration then
        (s.client.step a).map fun c =>
          { s with client := c, relay := if a = .relayPop then .test else .iteration }
      else none
    | .testRelay =>
      if s.relay = .test then
        some { s with relay := if s.gameRunning then .iteration else .exited }
      else none
    | .wakeBatchHandler =>
      if s.pc ≠ .connect then
        (s.client.step .wakeBatchHandler).map fun c => { s with client := c }
      else none
    | .receive msg =>
      (s.client.step (.onMessage msg)).bind fun c =>
        (s.conn.step (.read .message)).map fun k => { s with client := c, conn := k }
    | .worker a =>
      if a.ofWorker ∧ a ≠ .read .message then (s.conn.step a).map fun k => { s with conn := k }
      else none

end App

/-- The process of the client with the given UUID. -/
def app (uuid : UuidV4) : Machine App AppAct where
  init := App.start uuid
  step := App.step

/-! ### The calls of the queues -/

/-- The call that a step of the session makes of its queue. -/
def Connection.call (s : Connection) : ConnAct → Option (QueueCall Text)
  | .push =>
    match s.caller with
    | .push f => some (.push f)
    | _ => none
  | .pushEmpty => some (.push [])
  | .front => s.asyncWriteQueue.head?.map .front
  | .pop => some .pop
  | _ => none

/-- The call that a step of the process makes of a queue. -/
def App.call (s : App) (q : QueueName) : AppAct → Option (QueueCall Text)
  | .main a | .relay a => s.client.call a q
  | .wakeBatchHandler => s.client.call .wakeBatchHandler q
  | .sendPosition _ => s.client.call (.move false) q
  | .receive msg => s.client.call (.onMessage msg) q
  | .pushEmpty => if q = .wsUpdatedJsonQueue then some (.push []) else none
  | .push => if q = .asyncWriteQueue then s.conn.call .push else none
  | .close a | .worker a => if q = .asyncWriteQueue then s.conn.call a else none
  | _ => none

def App.contents (s : App) (q : QueueName) : List Text :=
  if q = .asyncWriteQueue then s.conn.asyncWriteQueue else s.client.contents q

def Connection.Holds (s : Connection) : Prop := s.writer = .pop ∨ ∃ tmp, s.writer = .write tmp

def App.Holds (s : App) (q : QueueName) : Prop :=
  if q = .asyncWriteQueue then s.conn.Holds else s.client.Holds q

/-- So does every step of the session. -/
theorem ConnStep.uses {s s' : Connection} {a : ConnAct} (hs : ConnStep s a s') {d : Prop}
    (hd : ¬ d) :
    Fifo.Uses d s.asyncWriteQueue s'.asyncWriteQueue s.Holds s'.Holds (s.call a) := by
  cases hs with
  | push hc => exact .push _ (by simp [Connection.call, hc]) rfl id
  | pushEmpty hc => exact .push [] rfl rfl id
  | spawnWrite hr => exact .none rfl rfl (by simp [Connection.Holds])
  | startWrite hw => exact .none rfl rfl (by simp [Connection.Holds])
  | @front tmp rest hw hq => exact .front tmp (by simp [Connection.call, hq]) (by simp [hq]) rfl
  | write hw => exact .none rfl rfl fun _ => Or.inr ⟨_, hw⟩
  | pop hw => exact .pop rfl hd (Or.inl hw) rfl (by simp [Connection.Holds])
  | testWrite hw =>
    refine .none rfl rfl ?_
    simp only [Connection.Holds]
    split_ifs <;> simp
  | _ => exact .none rfl rfl id

/-! ### Every run -/

/-- What a step of the process consists of: a step of the client, of the connection, of both, or the
push of the empty message. -/
inductive AppStep (s : App) : AppAct → App → Prop
  | main {a : ClientAct} {c : Client} (hs : ClientStep s.client a c) :
      AppStep s (.main a) { s with client := c }
  | relay {a : ClientAct} {c : Client} {r : RelayLoop} (ha : a.ofRelay)
      (hs : ClientStep s.client a c) : AppStep s (.relay a) { s with client := c, relay := r }
  | wakeBatchHandler {c : Client} (hs : ClientStep s.client .wakeBatchHandler c) :
      AppStep s .wakeBatchHandler { s with client := c }
  | sendPosition {done : Bool} {f : Option Text} {c : Client} {k : Connection}
      (hs : ClientStep s.client (.move false) c) (hk : ConnStep s.conn (.send done f) k) :
      AppStep s (.sendPosition done) { s with client := c, conn := k }
  | receive {msg : Text} {c : Client} {k : Connection} (hs : ClientStep s.client (.onMessage msg) c)
      (hk : ConnStep s.conn (.read .message) k) :
      AppStep s (.receive msg) { s with client := c, conn := k }
  | connectWebSocket {k : Connection} {b : Bool} {pc : AppPc}
      (hk : ConnStep s.conn .connectWebSocket k) :
      AppStep s .connectWebSocket { s with conn := k, gameRunning := b, pc := pc }
  | push {k : Connection} (hk : ConnStep s.conn .push k) : AppStep s .push { s with conn := k }
  | close {a : ConnAct} {k : Connection} (hk : ConnStep s.conn a k) :
      AppStep s (.close a) { s with conn := k }
  | worker {a : ConnAct} {k : Connection} (hk : ConnStep s.conn a k) :
      AppStep s (.worker a) { s with conn := k }
  | pushEmpty : AppStep s .pushEmpty { s with
      client := { s.client with wsUpdatedJsonQueue := s.client.wsUpdatedJsonQueue ++ [[]] }
      pc := .join }
  | other {a : AppAct} {b : Bool} {r : RelayLoop} {pc : AppPc}
      (ha : a = .escape ∨ a = .leave ∨ a = .stop ∨ a = .join ∨ a = .testRelay) :
      AppStep s a { s with gameRunning := b, relay := r, pc := pc }

theorem appStep_cases {uuid : UuidV4} {s s' : App} {a : AppAct}
    (h : (app uuid).step s a = some s') : AppStep s a s' := by
  obtain ⟨-, h⟩ := Option.ite_none_left_eq_some.mp h
  cases a <;> simp only [Option.ite_none_right_eq_some, Option.some.injEq,
    Option.map_eq_some_iff, Option.bind_eq_some_iff] at h
  case connectWebSocket =>
    obtain ⟨-, k, hk, rfl⟩ := h
    exact .connectWebSocket (connStep_cases hk)
  case main a =>
    obtain ⟨-, c, hs, rfl⟩ := h
    exact .main (clientStep_of_step hs)
  case sendPosition done =>
    obtain ⟨-, c, hs, k, hk, rfl⟩ := h
    exact .sendPosition (clientStep_of_step hs) (connStep_cases hk)
  case push =>
    obtain ⟨-, k, hk, rfl⟩ := h
    exact .push (connStep_cases hk)
  case escape =>
    obtain ⟨-, rfl⟩ := h
    exact .other (by simp)
  case leave =>
    obtain ⟨-, rfl⟩ := h
    exact .other (by simp)
  case close a =>
    obtain ⟨-, k, hk, rfl⟩ := h
    exact .close (connStep_cases hk)
  case stop =>
    obtain ⟨-, rfl⟩ := h
    exact .other (by simp)
  case pushEmpty =>
    obtain ⟨-, rfl⟩ := h
    exact .pushEmpty
  case join =>
    obtain ⟨-, rfl⟩ := h
    exact .other (by simp)
  case relay a =>
    obtain ⟨⟨ha, -⟩, c, hs, rfl⟩ := h
    exact .relay ha (clientStep_of_step hs)
  case testRelay =>
    obtain ⟨-, rfl⟩ := h
    exact .other (by simp)
  case wakeBatchHandler =>
    obtain ⟨-, c, hs, rfl⟩ := h
    exact .wakeBatchHandler (clientStep_of_step hs)
  case receive msg =>
    obtain ⟨c, hs, k, hk, rfl⟩ := h
    exact .receive (clientStep_of_step hs) (connStep_cases hk)
  case worker a =>
    obtain ⟨-, k, hk, rfl⟩ := h
    exact .worker (connStep_cases hk)

/-- The size that the loop of a batch pass has found is not too great when it comes to the pop. -/
lemma AppStep.spares {s s' : App} {a : AppAct} (hs : AppStep s a s') (h : s.client.Spares) :
    s'.client.Spares := by
  cases hs with
  | main hs | wakeBatchHandler hs => exact h.step hs
  | relay _ hs => exact h.step hs
  | sendPosition hs _ | receive hs _ => exact h.step hs
  | connectWebSocket | push | close | worker | pushEmpty | other => exact h

/-- The step is a pop of the batch pass. -/
def App.Discards (_ : App) (a : AppAct) : Prop := a = .main .discardPop

/-- The step of the process uses each of the four queues as its one consumer should, or as a
producer. -/
theorem AppStep.uses {s s' : App} {a : AppAct} (hs : AppStep s a s') (hspares : s.client.Spares)
    (q : QueueName) :
    Fifo.Uses (s.Discards a) (s.contents q) (s'.contents q) (s.Holds q) (s'.Holds q)
      (s.call q a) := by
  by_cases hq : q = .asyncWriteQueue
  · subst hq
    cases hs with
    | sendPosition _ hk => exact hk.uses (by simp [App.Discards])
    | receive _ hk => exact hk.uses (by simp [App.Discards])
    | connectWebSocket hk => exact hk.uses (by simp [App.Discards])
    | push hk => exact hk.uses (by simp [App.Discards])
    | close hk => exact hk.uses (by simp [App.Discards])
    | worker hk => exact hk.uses (by simp [App.Discards])
    | other ha => exact .none (by rcases ha with rfl | rfl | rfl | rfl | rfl <;> rfl) rfl id
    | main | relay | wakeBatchHandler | pushEmpty => exact .none rfl rfl id
  · have hcontents : ∀ s : App, s.contents q = s.client.contents q := fun s => if_neg hq
    have hholds : ∀ s : App, s.Holds q = s.client.Holds q := fun s => if_neg hq
    simp only [hcontents, hholds]
    cases hs with
    | main hs => exact hs.uses hspares (by simp [App.Discards]) q
    | relay ha hs =>
      refine hs.uses hspares (iff_of_false (by simp [App.Discards]) ?_) q
      rintro rfl
      cases ha
    | wakeBatchHandler hs => exact hs.uses hspares (by simp [App.Discards]) q
    | sendPosition hs => exact hs.uses hspares (by simp [App.Discards]) q
    | receive hs => exact hs.uses hspares (by simp [App.Discards]) q
    | pushEmpty =>
      cases q with
      | wsUpdatedJsonQueue => exact .push [] rfl rfl id
      | positionJsonQueue | guiJsonQueue => exact .none rfl rfl id
      | asyncWriteQueue => exact absurd rfl hq
    | connectWebSocket => exact .none rfl rfl id
    | push => exact .none (if_neg hq) rfl id
    | close => exact .none (if_neg hq) rfl id
    | worker => exact .none (if_neg hq) rfl id
    | other ha => exact .none (by rcases ha with rfl | rfl | rfl | rfl | rfl <;> rfl) rfl id

lemma spares_of_exec_app {uuid : UuidV4} (l : List (App × AppAct)) (s : App)
    (h : (app uuid).Exec l s) : s.client.Spares :=
  h.invariant (start_spares uuid) fun _ _ _ hspares hs => (appStep_cases hs).spares hspares

/-- **Queue discipline.**  In every run of the process, its shutdown included, no queue is popped
while it is empty; a pop after a front removes what the front returned; the batch pass leaves the
newest position; no more is popped than has been pushed; and what is removed is what was pushed, in
this order. -/
theorem queue_discipline {uuid : UuidV4} {l : List (App × AppAct)} {s : App}
    (h : (app uuid).Exec l s) (q : QueueName) :
    Fifo.Disciplined (fun s => s.call q) App.Discards (fun s => s.contents q) l s := by
  refine Fifo.disciplined_of_exec (fun s => s.Holds q) spares_of_exec_app ?_ ?_ ?_ h
  · cases q <;> rfl
  · cases q <;> simp [app, App.start, App.Holds, Client.Holds, Client.start, Connection.Holds,
      Connection.init]
  · exact fun _ _ _ hspares hs => (appStep_cases hs).uses hspares q

/-! ### A short game -/

/-- A message is read and relayed. -/
def readAndRelay (msg : Text) : List AppAct :=
  [.worker .startRead, .receive msg, .worker .testRead, .relay .relayFront, .relay .relayMove,
    .relay .relayPop, .testRelay]

/-- Four positions of `b` come at once.  The first one makes the car send its own, the batch pass
drops the second, and the window is closed while two are left. -/
def shortGame : List AppAct :=
  ([.connectWebSocket, .worker (.handshake true), .worker .setConnected, .worker .spawnWrite,
      .wakeBatchHandler] : List AppAct)
    ++ readAndRelay positionOfB ++ readAndRelay positionOfB ++ readAndRelay positionOfB
    ++ readAndRelay positionOfB
    ++ ([.main .posEmpty, .main .posFront, .main .posPop, .main .guiEmpty,
      .main (.keys ⟨false, false, false, false⟩), .main (.mouse none false true),
      .sendPosition true, .push, .main (.typing emptyText false), .main (.text true), .main .batch,
      .main .discard, .main .discardPop, .main .discard, .leave] : List AppAct)
    ++ ([.worker .startWrite, .worker .front, .worker .write, .worker .pop, .worker .testWrite,
      .worker .startWrite, .worker .startRead, .close .closeConnection, .close .pushEmpty,
      .worker (.read .error), .worker .testRead, .worker .front, .worker .write, .worker .pop,
      .worker .testWrite, .close .join, .close .join, .close .cancel, .stop, .pushEmpty,
      .relay .relayFront, .relay .relayMove, .relay .relayPop, .testRelay, .join] : List AppAct)

lemma shortGame_runs : ((app someUuid).run (app someUuid).init shortGame).isSome := by
  decide +kernel

def gameOver : List (App × AppAct) × App :=
  ((app someUuid).run (app someUuid).init shortGame).get shortGame_runs

lemma exec_gameOver : (app someUuid).Exec gameOver.1 gameOver.2 := by
  rw [gameOver]
  exact exec_get_run shortGame_runs

theorem queue_discipline_shortGame :
    Fifo.Disciplined (fun s : App => s.call .positionJsonQueue) App.Discards
      (fun s => s.contents .positionJsonQueue) gameOver.1 gameOver.2 :=
  queue_discipline exec_gameOver .positionJsonQueue

example : gameOver.2.pc = .ended ∧ gameOver.2.client.positionJsonQueue.length = 2 := by
  decide +kernel

end MultiplayerCars.CPPClient
