import MultiplayerCars.Lib.Occupancy
import MultiplayerCars.GoServer.Goroutine
import MultiplayerCars.GoServer.Otp

/-!
# The process: all its goroutines and its two maps

`main.go` serves `/login`, `/ws` and `/debug` with a goroutine for each request, and starts
`Retention`.  They share the registry `m.clients` and the map of passwords.  Here the server and
its passwords run together, and a look-up, an insert and a delete take time: a goroutine that
stands before one begins it in one step and ends it in another, and only the end has an effect.
A range loop lasts from the step that enters it to the step that leaves it.
-/

namespace MultiplayerCars.GoServer

open Lib Lib.Json Lib.Machine

/-- The goroutine of a request for `/login` or `/debug`. -/
abbrev RequestId := ℕ

/-- `serveWS` is the goroutine `.serve` of its client from the request on. -/
inductive Goroutine
  | thread (t : Thread)
  | loginHandler (i : RequestId)
  | debug (i : RequestId)
  | retention
deriving DecidableEq

inductive MapName
  | clients
  | otps
deriving DecidableEq

/-- Where a call of `loginHandler` stands: in `NewOTP` with the password that it is about to
insert, or done. -/
inductive Login
  | idle
  | newOTP (o : OTP)
  | answered
deriving DecidableEq, Repr

/-- Where the handler of `/debug` stands: about to read `len(manager.clients)`, or done. -/
inductive Debug
  | idle
  | len
  | answered
deriving DecidableEq, Repr

structure GoProcess where
  server : Server
  otp : OtpState
  /-- The parameters `uuid` and `color` of a request for a connection. -/
  query : ClientId → Client
  login : RequestId → Login
  debug : RequestId → Debug
  /-- The goroutine has begun the look-up, insert or delete before which it stands. -/
  inside : Goroutine → Bool

/-! ### Places of access -/

/-- `addClient` inserts, `removeClient` looks up and deletes. -/
def Pc.access : Pc → Option Use
  | .addInsert | .removeDelete => some .write
  | .removeCheck => some .read
  | _ => none

/-- The goroutine is in one of the two range loops over `m.clients`. -/
def Pc.looping : Pc → Bool
  | .range _ | .send _ _ => true
  | _ => false

/-- `VerifyOTP` looks up and deletes. -/
def Call.access : Call → Option Use
  | .lookup _ => some .read
  | .delete _ => some .write
  | _ => none

def Login.access : Login → Option Use
  | .newOTP _ => some .write
  | _ => none

def Debug.access : Debug → Option Use
  | .len => some .read
  | _ => none

def Retention.access : Retention → Option Use
  | .deleting _ _ _ => some .write
  | _ => none

def Retention.looping : Retention → Bool
  | .waiting => false
  | .ranging _ _ | .deleting _ _ _ => true

/-- The server action that ends the access at a place. -/
def Pc.finish (t : Thread) (now : Text) : Pc → Option Act
  | .addInsert => some (.insert t.owner)
  | .removeCheck => some (.check t)
  | .removeDelete => some (.delete t now)
  | _ => none

/-- The action on the passwords that ends the access at a place. -/
def Call.finish (i : CallId) : Call → Option OtpAct
  | .lookup _ => some (.lookup i)
  | .delete _ => some (.delete i)
  | _ => none

/-- The server actions that are not the end of an access, nor the start of a client. -/
def Act.plain : Act → Bool
  | .connect _ _ _ | .insert _ | .check _ | .delete _ _ => false
  | _ => true

namespace GoProcess

def init : GoProcess where
  server := Server.init
  otp := OtpState.init
  query := fun _ => ⟨[], []⟩
  login := fun _ => .idle
  debug := fun _ => .idle
  inside := fun _ => false

/-- The look-up, insert or delete before or in which a goroutine stands. -/
def access (s : GoProcess) : Goroutine → Option (MapName × Use)
  | .thread t =>
    match (s.server.pc t).access with
    | some u => some (.clients, u)
    | none =>
      match t with
      | .serve c => (s.otp.call c).access.map fun u => (.otps, u)
      | _ => none
  | .loginHandler i => (s.login i).access.map fun u => (.otps, u)
  | .debug i => (s.debug i).access.map fun u => (.clients, u)
  | .retention => s.otp.retention.access.map fun u => (.otps, u)

/-- The map over which a goroutine ranges. -/
def looping (s : GoProcess) : Goroutine → Option MapName
  | .thread t => if (s.server.pc t).looping then some .clients else none
  | .retention => if s.otp.retention.looping then some .otps else none
  | _ => none

/-- The goroutine is inside an insert into the map, or a delete from it. -/
def Mutates (s : GoProcess) (m : MapName) (g : Goroutine) : Prop :=
  s.inside g ∧ s.access g = some (m, .write)

/-- The goroutine is inside a range loop over the map, or a look-up, an insert or a delete. -/
def Uses (s : GoProcess) (m : MapName) (g : Goroutine) : Prop :=
  (s.inside g ∧ ∃ u, s.access g = some (m, u)) ∨ s.looping g = some m

end GoProcess

/-! ### Steps -/

inductive ProcessAct
  /-- A request for `/login`, with what it decodes to, the key drawn for it and the time. -/
  | login (i : RequestId) (req : Option (Text × Text)) (key : Text) (now : ℕ)
  | debug (i : RequestId)
  /-- A request for `/ws`, the upgrade of its connection, and the call of `addClient`. -/
  | present (c : ClientId) (otp uuid color : Text)
  | upgrade (c : ClientId) (ok : Bool) | addClient (c : ClientId)
  /-- `Retention` wakes up, takes the next entry, ends its loop. -/
  | tick | range (key : Text) (now : ℕ) | endTick
  /-- Any other step of the goroutines of the clients. -/
  | server (a : Act)
  /-- A goroutine begins, or ends, the access before which it stands. -/
  | begin (g : Goroutine) | finish (g : Goroutine) (now : Text)
deriving DecidableEq

namespace GoProcess

def withServer (s : GoProcess) (a : Act) : Option GoProcess :=
  (manager.step s.server a).map fun v => { s with server := v }

def withOtp (s : GoProcess) (a : OtpAct) : Option GoProcess :=
  (otpServer.step s.otp a).map fun o => { s with otp := o }

/-- The effect of an access, at its end. -/
def perform (s : GoProcess) (now : Text) : Goroutine → Option GoProcess
  | .thread t =>
    match (s.server.pc t).finish t now with
    | some a => s.withServer a
    | none =>
      match t with
      | .serve c => ((s.otp.call c).finish c).bind s.withOtp
      | _ => none
  | .loginHandler i =>
    match s.login i with
    | .newOTP o => some { s with
        otp := s.otp.newOTP o.key o.created, login := Function.update s.login i .answered }
    | _ => none
  | .debug i =>
    match s.debug i with
    | .len => some { s with debug := Function.update s.debug i .answered }
    | _ => none
  | .retention => s.withOtp .expire

def step (s : GoProcess) : ProcessAct → Option GoProcess
  | .login i req key now =>
    if s.login i = .idle then
      let p : Login := if authenticates req then .newOTP ⟨key, now⟩ else .answered
      some { s with login := Function.update s.login i p }
    else none
  | .debug i =>
    if s.debug i = .idle then some { s with debug := Function.update s.debug i .len } else none
  | .present c otp uuid color =>
    (s.withOtp (.present c otp uuid color)).map fun s' =>
      { s' with query := Function.update s.query c ⟨uuid, color⟩ }
  | .upgrade c ok => s.withOtp (.upgrade c ok)
  | .addClient c =>
    (s.withOtp (.add c)).bind fun s' =>
      s'.withServer (.connect c (s.query c).uuid (s.query c).color)
  | .tick => s.withOtp .tick
  | .range key now => s.withOtp (.range key now)
  | .endTick => s.withOtp .endTick
  | .server a => if a.plain then s.withServer a else none
  | .begin g =>
    if (s.access g).isSome ∧ s.inside g = false then
      some { s with inside := Function.update s.inside g true }
    else none
  | .finish g now =>
    if s.inside g then
      (s.perform now g).map fun s' => { s' with inside := Function.update s.inside g false }
    else none

end GoProcess

/-- The process, before its first request. -/
def goProcess : Machine GoProcess ProcessAct where
  init := GoProcess.init
  step := GoProcess.step

end MultiplayerCars.GoServer
