import Mathlib.Logic.Function.Basic
import MultiplayerCars.CPPClient.Frames
import MultiplayerCars.CPPClient.Simdjson

/-!
# The relay, and the two update blocks of the main loop

A message of the server goes from `relayWorkerThread` into one of two queues, and from there
into the position block or the gui block of the main loop.  Each block reads the fields of the
message one after the other, writes between the reads, and catches `std::out_of_range` only; a
field that is missing or of the wrong type throws a `simdjson_error`, which leaves the main
loop, with what was written before it in place and the message still in its queue.
-/

namespace MultiplayerCars.CPPClient

open Lib.Json

/-! ### The variables of the main loop -/

structure CarContext where
  X : ℤ
  Y : ℤ
  color : Text
deriving DecidableEq, Repr

structure TextContext where
  leftSide : Bool
  colorStr : Text
  text : Text
  timestamp : Text
deriving DecidableEq, Repr

/-- The variables that the update blocks write. -/
structure Gui where
  externalplayers : Text → Option CarContext
  timestamp : Text
  textmessagesdisplay : List TextContext
  move : Bool

/-- The exceptions that can be thrown: `simdjson_error`, which is not an `out_of_range`, and
`std::out_of_range`. -/
inductive Exn
  | simdjsonError
  | outOfRange
deriving DecidableEq, Repr

/-- A computation on the variables, which stay as they are when an exception is thrown. -/
abbrev GuiM := EStateM Exn Gui

namespace Gui

/-- Set the entry of a player. -/
def setPlayer (g : Gui) (uuid : Text) (car : Option CarContext) : Gui :=
  { g with externalplayers := Function.update g.externalplayers uuid car }

/-- `pop_back` and `push_front`. -/
def pushText (g : Gui) (t : TextContext) : Gui :=
  { g with textmessagesdisplay := t :: g.textmessagesdisplay.dropLast }

end Gui

/-- The value of a conversion that throws when the element is missing or of another type. -/
def orThrow {α : Type} : Option α → GuiM α
  | some a => pure a
  | none => throw .simdjsonError

def readString (o : Object) (key : String) : GuiM Text := orThrow (o.string key)

def readUint64 (o : Object) (key : String) : GuiM ℤ := orThrow (o.uint64 key)

def readInt64 (o : Object) (key : String) : GuiM ℤ := orThrow (o.int64 key)

/-- `gui_externalplayers.at(uuid)`, with a write to the entry. -/
def writeAt (uuid : Text) (f : CarContext → CarContext) : GuiM Unit := do
  match (← get).externalplayers uuid with
  | some car => modify (·.setPlayer uuid (some (f car)))
  | none => throw .outOfRange

/-! ### The update blocks -/

/-- The case of a position, and that of a debug position. -/
def positionCase (o : Object) : GuiM Unit := do
  let uuidOfPlayerCar ← readString o "UUID"
  if (← get).externalplayers uuidOfPlayerCar = none then
    -- new player
    let X ← readInt64 o "X"
    let Y ← readInt64 o "Y"
    let color ← readString o "Color"
    modify (·.setPlayer uuidOfPlayerCar (some ⟨toInt X, toInt Y, color⟩))
    modify fun g => { g with move := true }
  else
    let X ← readInt64 o "X"
    writeAt uuidOfPlayerCar fun car => { car with X := toInt X }
    let Y ← readInt64 o "Y"
    writeAt uuidOfPlayerCar fun car => { car with Y := toInt Y }
    let color ← readString o "Color"
    writeAt uuidOfPlayerCar fun car => { car with color := color }

/-- What the position block does with the object of a message. -/
def positionUpdate (o : Object) : GuiM Unit := do
  let type ← readUint64 o "Type"
  if toInt type = bEventPositionUpdateMessage then positionCase o
  else if toInt type = bEventPositionDebugUpdateMessage then positionCase o
  else pure ()

def timeStampCase (o : Object) : GuiM Unit := do
  let timestamp ← readString o "TimeStamp"
  modify fun g => { g with timestamp := timestamp }

def colorUpdateCase (o : Object) : GuiM Unit := do
  let uuidOfPlayerCar ← readString o "UUID"
  if (← get).externalplayers uuidOfPlayerCar ≠ none then
    let color ← readString o "Color"
    writeAt uuidOfPlayerCar fun car => { car with color := color }
  else pure ()

def exitCase (o : Object) : GuiM Unit := do
  let uuidOfPlayerCar ← readString o "UUID"
  if (← get).externalplayers uuidOfPlayerCar ≠ none then
    modify (·.setPlayer uuidOfPlayerCar none)
  else pure ()

def textUpdateCase (clientUUID : Text) (o : Object) : GuiM Unit := do
  let uuidOfSender ← readString o "FromUUID"
  if uuidOfSender ≠ clientUUID then
    let senderColor ← readString o "Color"
    let senderText ← readString o "Text"
    let senderTimeStamp ← readString o "TimeStamp"
    modify (·.pushText ⟨true, senderColor, senderText, senderTimeStamp⟩)
  else pure ()

/-- What the gui block does with the object of a message. -/
def guiUpdate (clientUUID : Text) (o : Object) : GuiM Unit := do
  let type ← readUint64 o "Type"
  if toInt type = bEventTimeStampMessage then timeStampCase o
  else if toInt type = bEventColorUpdateMessage then colorUpdateCase o
  else if toInt type = bEventExternalConnectionExitMessage then exitCase o
  else if toInt type = bEventTextUpdateMessage then textUpdateCase clientUUID o
  else pure ()

/-- How a block ends: with the pop of the message, or with an exception that nothing catches. -/
inductive BlockEnd
  | popped (g : Gui)
  | escaped (e : Exn) (g : Gui)

/-- The variables that a block leaves. -/
def BlockEnd.gui : BlockEnd → Gui
  | .popped g => g
  | .escaped _ g => g

/-- A block with the message at the front of its queue. -/
def block (update : Object → GuiM Unit) (front : Text) (g : Gui) : BlockEnd :=
  match domParse front with
  | none => .popped g
  | some parsedJson =>
    match (update parsedJson).run g with
    | .ok _ g' => .popped g'
    | .error .outOfRange g' => .popped g'
    | .error .simdjsonError g' => .escaped .simdjsonError g'

/-! ### The relay -/

/-- The queue to which the relay moves a message, if it does. -/
inductive Route
  | position
  | gui
  | dropped
deriving DecidableEq, Repr

def relay (jsondata : Text) : Route :=
  if jsondata = [] then .dropped
  else
    match onDemandType jsondata with
    | some type =>
      if type = bEventPositionUpdateMessage ∨ type = bEventPositionDebugUpdateMessage then .position
      else .gui
    | none => .dropped

/-- A message on its way through the relay and the block of its queue. -/
def process (clientUUID : Text) (jsondata : Text) (g : Gui) : BlockEnd :=
  match relay jsondata with
  | .position => block positionUpdate jsondata g
  | .gui => block (guiUpdate clientUUID) jsondata g
  | .dropped => .popped g

end MultiplayerCars.CPPClient
