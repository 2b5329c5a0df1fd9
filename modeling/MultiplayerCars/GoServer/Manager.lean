import Mathlib.Data.Finset.Basic
import Mathlib.Logic.Function.Basic
import MultiplayerCars.Lib.Machine
import MultiplayerCars.GoServer.Event

/-!
# The server: its registry, its goroutines and their steps

`manager.go` and `client.go` as a machine.  Every client has three goroutines: the HTTP handler
`serveWS` that sets it up, `readMessages` and `writeMessages`.  The state holds the registry
`m.clients`, the owner of the mutex, and where every goroutine stands; an action names the
goroutine that moves and what the environment answers (the frame that is read, the entry of the
map that a range loop produces next, whether a write succeeds).  `Client.egress` is unbuffered,
so a send and the matching receive are one step, the hand-over, and a goroutine that has picked
its next receiver stands at `send` until that receiver is back at its `select`.
-/

namespace MultiplayerCars.GoServer

open Lib Lib.Json

/-- A `*Client` is a reference; two clients may carry the same UUID. -/
abbrev ClientId := ℕ

/-- The fields of a `Client` that the server reads and writes. -/
structure Client where
  uuid : Text
  color : Text
deriving DecidableEq, Repr

/-! ### Messages to the peers -/

/-- A message that is put on an `egress` channel. -/
inductive Message
  /-- The payload of a frame, forwarded as it is. -/
  | passthrough (payload : Text)
  | event (e : BroadcastEvent)
  | text (e : BroadcastTextMessageEvent)
deriving DecidableEq, Repr

/-- The bytes that the message stands for. -/
def Message.bytes : Message → Text
  | .passthrough payload => payload
  | .event e => e.marshal
  | .text e => e.marshal

/-- Why a message was sent: the announcement of a newcomer, the handling of the `n`-th frame
that the sender's reader read, an event of the given type, or the exit notice. -/
inductive Cause
  | announce
  | frame (n : ℕ) (type : ℤ)
  | exit
deriving DecidableEq, Repr

/-- A message together with the client it originates from and the reason for it. -/
structure Packet where
  src : ClientId
  message : Message
  cause : Cause
deriving DecidableEq, Repr

/-! ### Handlers -/

/-- The receivers that a handler addresses: `broadcastUpdateToPeers` skips the clients with the
sender's UUID, `sendUpdateToPeer` addresses those with the given one. -/
inductive Peers
  | others (sendingUUID : Text)
  | only (toUUID : Text)
deriving DecidableEq, Repr

/-- The test in the body of the two range loops. -/
def Peers.admits : Peers → Text → Bool
  | .others sendingUUID, uuid => uuid != sendingUUID
  | .only toUUID, uuid => uuid == toUUID

/-- What the handler of an event goes on to do once it has updated its client. -/
inductive Reply
  | nothing
  | send (peers : Peers) (message : Message)
  | debug (payload : Text)
deriving DecidableEq, Repr

def handlePosition (e : Event) (c : Client) : Client × Reply :=
  (c, .send (.others c.uuid) (.passthrough e.payload))

def handleColorUpdate (e : Event) (c : Client) (now : Text) : Client × Reply :=
  match unmarshalColorUpdateEvent e.payload with
  | none => (c, .nothing)
  | some colorMsg =>
    let clientData : BroadcastEvent :=
      ⟨bEventColorUpdateMessage, c.uuid, now, 0, 0, colorMsg.color⟩
    ({ c with color := colorMsg.color }, .send (.others c.uuid) (.event clientData))

def handleTextUpdate (e : Event) (c : Client) (now : Text) : Client × Reply :=
  match unmarshalTextUpdateEvent e.payload with
  | none => (c, .nothing)
  | some textMsg =>
    let clientData : BroadcastTextMessageEvent :=
      ⟨bEventTextUpdateMessage, textMsg.fromUUID, textMsg.toUUID, textMsg.color, textMsg.text,
        now, textMsg.global⟩
    let peers : Peers := if textMsg.global then .others c.uuid else .only textMsg.toUUID
    (c, .send peers (.text clientData))

def handlePositionDebug (e : Event) (c : Client) : Client × Reply := (c, .debug e.payload)

/-- `routeEvent`: the handler for the type of the event, and nothing for an unknown type. -/
def routeEvent (e : Event) (c : Client) (now : Text) : Client × Reply :=
  if e.type = eventPositionMessage then handlePosition e c
  else if e.type = eventColorUpdateMessage then handleColorUpdate e c now
  else if e.type = eventTextUpdateMessage then handleTextUpdate e c now
  else if e.type = eventPositionDebugMessage then handlePositionDebug e c
  else (c, .nothing)

lemma routeEvent_position {e : Event} (h : e.type = eventPositionMessage) (c : Client)
    (now : Text) : routeEvent e c now = handlePosition e c := by
  rw [routeEvent, if_pos h]

lemma routeEvent_color {e : Event} (h : e.type = eventColorUpdateMessage) (c : Client)
    (now : Text) : routeEvent e c now = handleColorUpdate e c now := by
  rw [routeEvent, h, if_neg (by decide), if_pos rfl]

lemma routeEvent_text {e : Event} (h : e.type = eventTextUpdateMessage) (c : Client)
    (now : Text) : routeEvent e c now = handleTextUpdate e c now := by
  rw [routeEvent, h, if_neg (by decide), if_neg (by decide), if_pos rfl]

lemma routeEvent_debug {e : Event} (h : e.type = eventPositionDebugMessage) (c : Client)
    (now : Text) : routeEvent e c now = handlePositionDebug e c := by
  rw [routeEvent, h, if_neg (by decide), if_neg (by decide), if_neg (by decide), if_pos rfl]

lemma routeEvent_unhandled {e : Event} (h₀ : e.type ≠ eventPositionMessage)
    (h₁ : e.type ≠ eventColorUpdateMessage) (h₂ : e.type ≠ eventTextUpdateMessage)
    (h₃ : e.type ≠ eventPositionDebugMessage) (c : Client) (now : Text) :
    routeEvent e c now = (c, .nothing) := by
  rw [routeEvent, if_neg h₀, if_neg h₁, if_neg h₂, if_neg h₃]

/-! ### Goroutines and the state of the server -/

/-- The three goroutines of a client. -/
inductive Thread
  | serve (c : ClientId)
  | read (c : ClientId)
  | write (c : ClientId)
deriving DecidableEq, Repr

/-- The client whose goroutine it is. -/
def Thread.owner : Thread → ClientId
  | .serve c => c
  | .read c => c
  | .write c => c

/-- A range loop over `m.clients` that sends `packet` to the peers: the entries that were there
when it began, and those it has produced. -/
structure RangeLoop where
  peers : Peers
  packet : Packet
  present : Finset ClientId
  seen : Finset ClientId
deriving DecidableEq

/-- Where a goroutine stands. -/
inductive Pc
  /-- Not started. -/
  | idle
  /-- `addClient`: about to take the mutex, to insert, to release the mutex. -/
  | addLock | addInsert | addUnlock
  /-- `serveWS` after `addClient`: about to announce the client. -/
  | announce
  /-- In a range loop, between two entries, or blocked on the `egress` of `p`. -/
  | range (l : RangeLoop) | send (l : RangeLoop) (p : ClientId)
  /-- `serveWS`: about to start the two goroutines of the client. -/
  | spawnRead | spawnWrite
  /-- `readMessages`: in `ReadMessage`, or in the `WriteMessage` of the debug handler. -/
  | reading | debugWrite (payload : Text)
  /-- `writeMessages`: at its `select`, or in one of its three `WriteMessage` calls. -/
  | select | writeText (packet : Packet) | writePing | writeTime (e : BroadcastEvent)
  /-- `removeClient`, deferred by both loops. -/
  | removeLock | removeCheck | removeClose | removeDelete | removeUnlock
  /-- Returned. -/
  | done
deriving DecidableEq

structure Server where
  client : ClientId → Client
  /-- `m.clients`. -/
  clients : Finset ClientId
  /-- The goroutine that holds the mutex of the manager. -/
  lock : Option Thread
  pc : Thread → Pc
  /-- How often `connection.Close` was called on a client. -/
  closes : ClientId → ℕ
  /-- How many frames the reader of a client has read. -/
  frames : ClientId → ℕ
  /-- What the writer of a client has received from its `egress`, oldest first. -/
  received : ClientId → List Packet

namespace Server

def init : Server where
  client := fun _ => ⟨[], []⟩
  clients := ∅
  lock := none
  pc := fun _ => .idle
  closes := fun _ => 0
  frames := fun _ => 0
  received := fun _ => []

/-- Move one goroutine. -/
def goto (s : Server) (t : Thread) (p : Pc) : Server := { s with pc := Function.update s.pc t p }

@[simp] lemma goto_client (s : Server) (t : Thread) (p : Pc) : (s.goto t p).client = s.client := rfl
@[simp] lemma goto_clients (s : Server) (t : Thread) (p : Pc) :
    (s.goto t p).clients = s.clients := rfl
@[simp] lemma goto_lock (s : Server) (t : Thread) (p : Pc) : (s.goto t p).lock = s.lock := rfl
@[simp] lemma goto_closes (s : Server) (t : Thread) (p : Pc) : (s.goto t p).closes = s.closes := rfl
@[simp] lemma goto_frames (s : Server) (t : Thread) (p : Pc) : (s.goto t p).frames = s.frames := rfl
@[simp] lemma goto_received (s : Server) (t : Thread) (p : Pc) :
    (s.goto t p).received = s.received := rfl

lemma goto_pc (s : Server) (t t' : Thread) (p : Pc) :
    (s.goto t p).pc t' = if t' = t then p else s.pc t' := by
  simp [goto, Function.update_apply]

@[simp] lemma goto_pc_self (s : Server) (t : Thread) (p : Pc) : (s.goto t p).pc t = p := by
  simp [goto]

lemma goto_pc_of_ne {s : Server} {t t' : Thread} {p : Pc} (h : t' ≠ t) :
    (s.goto t p).pc t' = s.pc t' := by
  rw [goto_pc, if_neg h]

/-- The loop that sends `packet` to `peers`, before its first entry. -/
def loop (s : Server) (peers : Peers) (packet : Packet) : Pc :=
  .range ⟨peers, packet, s.clients, ∅⟩

/-- The range loop `l` may produce the entry of `p` next: one that it has not produced, and
that passes the test. -/
def Produces (s : Server) (l : RangeLoop) (p : ClientId) : Prop :=
  p ∈ s.clients ∧ p ∉ l.seen ∧ l.peers.admits (s.client p).uuid

/-- The range loop `l` may end: it has produced every entry that has been there all along. -/
def Exhausted (s : Server) (l : RangeLoop) : Prop :=
  ∀ p ∈ l.present, p ∈ s.clients → l.peers.admits (s.client p).uuid → p ∈ l.seen

instance (s : Server) (l : RangeLoop) (p : ClientId) : Decidable (s.Produces l p) :=
  inferInstanceAs (Decidable (_ ∧ _ ∧ _))

instance (s : Server) (l : RangeLoop) : Decidable (s.Exhausted l) :=
  inferInstanceAs (Decidable (∀ p ∈ l.present, _))

end Server

/-- Mark an entry as produced. -/
def RangeLoop.mark (l : RangeLoop) (p : ClientId) : RangeLoop := { l with seen := insert p l.seen }

/-- What follows the range loop in the function that called it. -/
def RangeLoop.next (l : RangeLoop) : Pc :=
  match l.packet.cause with
  | .announce => .spawnRead
  | .frame _ _ => .reading
  | .exit => .removeUnlock

/-- The number of bytes of a frame. -/
def byteLength (s : Text) : ℕ := (s.map Char.utf8Size).sum

/-- `SetReadLimit(512)`: `ReadMessage` fails on a longer frame. -/
def readLimit : ℕ := 512

/-! ### Steps -/

inductive Act
  /-- A request passes the checks of `serveWS` and is upgraded. -/
  | connect (c : ClientId) (uuid color : Text)
  | lockAdd (c : ClientId) | insert (c : ClientId) | unlockAdd (c : ClientId)
  | announce (c : ClientId) (now : Text)
  /-- A range loop produces the entry of `p`, hands its message to `p`, ends. -/
  | pick (t : Thread) (p : ClientId) | handoff (t : Thread) (p : ClientId) | endRange (t : Thread)
  | spawnRead (c : ClientId) | spawnWrite (c : ClientId)
  /-- `ReadMessage` returns a frame, or fails. -/
  | readFrame (c : ClientId) (frame now : Text) | readStop (c : ClientId)
  | debugDone (c : ClientId) | wrote (c : ClientId)
  /-- The tickers of `writeMessages` fire; their `WriteMessage` succeeds or fails. -/
  | ping (c : ClientId) | pingDone (c : ClientId) (ok : Bool)
  | tick (c : ClientId) (now : Text) | tickDone (c : ClientId) (ok : Bool)
  | lockRemove (t : Thread) | check (t : Thread) | close (t : Thread)
  | delete (t : Thread) (now : Text) | unlockRemove (t : Thread)
deriving DecidableEq

namespace Server

/-- What a reader does with a frame: an `Event` is routed, anything else ends the loop. -/
def readFrame (s : Server) (c : ClientId) (frame now : Text) : Server :=
  let n := s.frames c
  let s₁ : Server := { s with frames := Function.update s.frames c (n + 1) }
  match unmarshalEvent frame with
  | none => s₁.goto (.read c) .removeLock
  | some e =>
    let r := routeEvent e (s.client c) now
    let s₂ : Server := { s₁ with client := Function.update s.client c r.1 }
    match r.2 with
    | .nothing => s₂.goto (.read c) .reading
    | .send peers m => s₂.goto (.read c) (s.loop peers ⟨c, m, .frame n e.type⟩)
    | .debug payload => s₂.goto (.read c) (.debugWrite payload)

/-- The announcement of `broadcastNewClientInitPosition`. -/
def initPosition (s : Server) (c : ClientId) (now : Text) : Packet :=
  ⟨c, .event ⟨bEventPositionUpdateMessage, (s.client c).uuid, now, 0, 0, (s.client c).color⟩,
    .announce⟩

/-- The exit notice of `removeClient`. -/
def clientExit (s : Server) (c : ClientId) (now : Text) : Packet :=
  ⟨c, .event ⟨bEventExternalConnectionExitMessage, (s.client c).uuid, now, 0, 0,
    (s.client c).color⟩, .exit⟩

/-- The periodic time stamp of `writeMessages`. -/
def timeStamp (s : Server) (c : ClientId) (now : Text) : BroadcastEvent :=
  ⟨bEventTimeStampMessage, (s.client c).uuid, now, 0, 0, []⟩

/-- The end of a `WriteMessage` after which the writer returns on an error. -/
def written (s : Server) (c : ClientId) (ok : Bool) : Server :=
  s.goto (.write c) (if ok then .select else .removeLock)

def step (s : Server) : Act → Option Server
  | .connect c uuid color =>
    if s.pc (.serve c) = .idle ∧ uuid ≠ [] ∧ color ≠ [] then
      some ({ s with client := Function.update s.client c ⟨uuid, color⟩ }.goto (.serve c) .addLock)
    else none
  | .lockAdd c =>
    if s.pc (.serve c) = .addLock ∧ s.lock = none then
      some ({ s with lock := some (.serve c) }.goto (.serve c) .addInsert)
    else none
  | .insert c =>
    if s.pc (.serve c) = .addInsert then
      some ({ s with clients := insert c s.clients }.goto (.serve c) .addUnlock)
    else none
  | .unlockAdd c =>
    if s.pc (.serve c) = .addUnlock then
      some ({ s with lock := none }.goto (.serve c) .announce)
    else none
  | .announce c now =>
    if s.pc (.serve c) = .announce then
      some (s.goto (.serve c) (s.loop (.others (s.client c).uuid) (s.initPosition c now)))
    else none
  | .pick t p =>
    match s.pc t with
    | .range l => if s.Produces l p then some (s.goto t (.send (l.mark p) p)) else none
    | _ => none
  | .handoff t p =>
    match s.pc t with
    | .send l q =>
      -- the rendezvous: the receiver has to stand at its `select`
      if q = p ∧ s.pc (.write p) = .select then
        some (({ s with received := Function.update s.received p (s.received p ++ [l.packet]) }.goto
          t (.range l)).goto (.write p) (.writeText l.packet))
      else none
    | _ => none
  | .endRange t =>
    match s.pc t with
    | .range l => if s.Exhausted l then some (s.goto t l.next) else none
    | _ => none
  | .spawnRead c =>
    if s.pc (.serve c) = .spawnRead then
      some ((s.goto (.serve c) .spawnWrite).goto (.read c) .reading)
    else none
  | .spawnWrite c =>
    if s.pc (.serve c) = .spawnWrite then
      some ((s.goto (.serve c) .done).goto (.write c) .select)
    else none
  | .readFrame c frame now =>
    -- a frame may still be read from the buffer of a connection that was closed
    if s.pc (.read c) = .reading ∧ byteLength frame ≤ readLimit then
      some (s.readFrame c frame now)
    else none
  | .readStop c =>
    if s.pc (.read c) = .reading then some (s.goto (.read c) .removeLock) else none
  | .debugDone c =>
    match s.pc (.read c) with
    | .debugWrite _ => some (s.goto (.read c) .reading)
    | _ => none
  | .wrote c =>
    -- an error of this write is only logged
    match s.pc (.write c) with
    | .writeText _ => some (s.goto (.write c) .select)
    | _ => none
  | .ping c =>
    if s.pc (.write c) = .select then some (s.goto (.write c) .writePing) else none
  | .pingDone c ok =>
    if s.pc (.write c) = .writePing then some (s.written c ok) else none
  | .tick c now =>
    if s.pc (.write c) = .select then
      some (s.goto (.write c) (.writeTime (s.timeStamp c now)))
    else none
  | .tickDone c ok =>
    match s.pc (.write c) with
    | .writeTime _ => some (s.written c ok)
    | _ => none
  | .lockRemove t =>
    if s.pc t = .removeLock ∧ s.lock = none then
      some ({ s with lock := some t }.goto t .removeCheck)
    else none
  | .check t =>
    if s.pc t = .removeCheck then
      some (s.goto t (if t.owner ∈ s.clients then .removeClose else .removeUnlock))
    else none
  | .close t =>
    if s.pc t = .removeClose then
      some ({ s with
        closes := Function.update s.closes t.owner (s.closes t.owner + 1) }.goto t .removeDelete)
    else none
  | .delete t now =>
    if s.pc t = .removeDelete then
      let s₁ : Server := { s with clients := s.clients.erase t.owner }
      some (s₁.goto t (s₁.loop (.others (s.client t.owner).uuid) (s.clientExit t.owner now)))
    else none
  | .unlockRemove t =>
    if s.pc t = .removeUnlock then some ({ s with lock := none }.goto t .done) else none

end Server

/-- The server, started with no client. -/
def manager : Machine Server Act where
  init := Server.init
  step := Server.step

end MultiplayerCars.GoServer
