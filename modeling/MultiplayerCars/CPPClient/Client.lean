import MultiplayerCars.CPPClient.MainLoop
import MultiplayerCars.CPPClient.Session

/-!
# A running client

The threads of `main.cpp` and of the session, as one machine: `workerRead` hands messages to
`onMessage`, the relay moves them on, `relayBatchHandlerThread` sets `g_handleBatch` once,
`workerWrite` writes positions, and the main loop goes through its frames.  Every call of a
`ThreadSafeQueue` is a step of its own, and every block of the main loop between two of them.
An action names the thread that moves and what the player or the connection does then.
-/

namespace MultiplayerCars.CPPClient

open Lib Lib.Json

/-! ### The window -/

def windowScreenWidth : ℤ := 1600
def screenHeight : ℤ := 850
def menuPanelHeight : ℤ := 120
def chatPanelHeight : ℤ := 160
def windowYBoundary : ℤ := screenHeight - menuPanelHeight - chatPanelHeight
def getCarWidth : ℤ := 50
def getCarHeight : ℤ := 50

/-- `MAX_BATCHED_POSITIONS_THRESHOLD`. -/
def maxBatchedPositionsThreshold : ℕ := 2

/-- `MAX_DISPLAYED_TEXT_MESSAGES`. -/
def maxDisplayedTextMessages : ℕ := 5

/-- The blue that a car has at first. -/
def defaultColor : HexColor := blue

/-- The text field before anything is typed. -/
def emptyText : TypedText := ⟨[], by decide, by decide⟩

/-! ### Where the threads stand -/

/-- `relayWorkerThread`: waiting at the front of its queue, with a message whose type it has
read, or about to pop the message. -/
inductive RelayPc
  | front
  | move (jsondata : Text) (route : Route)
  | pop
deriving DecidableEq, Repr

/-- The main loop, block by block; in a batch pass, about to test the size of the queue, or to pop;
`crashed` after an exception that nothing catches. -/
inductive MainPc
  | posEmpty | posFront | posPop
  | guiEmpty | guiSize | guiFront | guiPop
  | keys | mouse | move | typing | text
  | batch | discard (i : ℕ) | discardPop (i : ℕ)
  | crashed
deriving DecidableEq, Repr

structure Client where
  wsUpdatedJsonQueue : List Text
  positionJsonQueue : List Text
  guiJsonQueue : List Text
  handleBatch : Bool
  /-- `relayBatchHandlerThread` has still to wake up. -/
  batchPending : Bool
  relayPc : RelayPc
  mainPc : MainPc
  gui : Gui
  X : ℤ
  Y : ℤ
  carColor : HexColor
  text : Bool
  textmessage : TypedText
  session : Session
  /-- The messages handed to `onMessage`, oldest first. -/
  arrived : List Text

/-- The arrow keys that are pressed. -/
structure Keys where
  up : Bool
  down : Bool
  left : Bool
  right : Bool
deriving DecidableEq, Repr

inductive ClientAct
  | onMessage (msg : Text)
  | relayFront | relayMove | relayPop
  | wakeBatchHandler
  | posEmpty | posFront | posPop
  | guiEmpty | guiSize | guiFront | guiPop
  | keys (pressed : Keys)
  /-- A click on a colour, on the send button, or neither; `ready` is the value of
  `m_isConnected && m_wss.is_message_done()` where the session is called. -/
  | mouse (color : Option HexColor) (send ready : Bool)
  | move (ready : Bool)
  /-- What the keyboard leaves in `textmessage`, and whether Enter is released. -/
  | typing (textmessage : TypedText) (enter : Bool)
  | text (ready : Bool)
  | batch | discard | discardPop
  /-- A step of `workerWrite`. -/
  | workerFront | workerWrite | workerPop
deriving DecidableEq

namespace Client

/-- A client that has just entered the main loop. -/
def start (uuid : UuidV4) : Client where
  wsUpdatedJsonQueue := []
  positionJsonQueue := []
  guiJsonQueue := []
  handleBatch := false
  batchPending := true
  relayPc := .front
  mainPc := .posEmpty
  gui := ⟨fun _ => none, [], List.replicate maxDisplayedTextMessages ⟨false, [], [], []⟩, false⟩
  X := 0
  Y := 0
  carColor := defaultColor
  text := false
  textmessage := emptyText
  session := Session.start uuid defaultColor
  arrived := []

def clientUUID (c : Client) : Text := c.session.uuid.text

/-- The end of a block of updates. -/
def endBlock (c : Client) (e : BlockEnd) (pop : MainPc) : Client :=
  match e with
  | .popped g => { c with gui := g, mainPc := pop }
  | .escaped _ g => { c with gui := g, mainPc := .crashed }

/-- Move the car by one coordinate. -/
def steer (c : Client) (pressed allowed : Bool) (X Y : ℤ) : Client :=
  if pressed && allowed then { c with X := X, Y := Y, gui := { c.gui with move := true } } else c

def keys (c : Client) (k : Keys) : Client :=
  let c₁ := c.steer k.up (1 < c.Y) c.X (c.Y - 2)
  let c₂ := c₁.steer k.down (c₁.Y < windowYBoundary - getCarHeight - 1) c₁.X (c₁.Y + 2)
  let c₃ := c₂.steer k.left (1 < c₂.X) (c₂.X - 2) c₂.Y
  c₃.steer k.right (c₃.X < windowScreenWidth - getCarWidth - 1) (c₃.X + 2) c₃.Y

/-- Show one's own text, before it is sent. -/
def echo (c : Client) : Client :=
  let context : TextContext := ⟨false, c.carColor.text, c.textmessage.text, c.gui.timestamp⟩
  { c with text := true, gui := c.gui.pushText context }

def mouse (c : Client) (color : Option HexColor) (send ready : Bool) : Client :=
  let c₁ : Client := match color with
    | some k => { c with carColor := k, session := c.session.sendColorUpdate ready k }
    | none => c
  if send then c₁.echo else c₁

def sendMove (c : Client) (ready : Bool) : Client :=
  if c.gui.move then
    { c with session := c.session.sendPosition ready c.X c.Y, gui := { c.gui with move := false } }
  else c

def typing (c : Client) (textmessage : TypedText) (enter : Bool) : Client :=
  let c₁ : Client := { c with textmessage := textmessage }
  if enter then c₁.echo else c₁

def sendText (c : Client) (ready : Bool) : Client :=
  if c.text then
    { c with session := c.session.sendTextMessage ready c.textmessage, text := false }
  else c

/-- The batch pass is due: `g_handleBatch`, and too many positions waiting. -/
def discards (c : Client) : Bool :=
  c.handleBatch && decide (maxBatchedPositionsThreshold < c.positionJsonQueue.length)

def worker (c : Client) (a : SessionAct) : Option Client :=
  (c.session.step a).map fun s => { c with session := s }

def step (c : Client) : ClientAct → Option Client
  | .onMessage msg => some { c with
      wsUpdatedJsonQueue := c.wsUpdatedJsonQueue ++ [msg], arrived := c.arrived ++ [msg] }
  | .relayFront =>
    match c.relayPc, c.wsUpdatedJsonQueue with
    | .front, jsondata :: _ => some { c with relayPc := .move jsondata (relay jsondata) }
    | _, _ => none
  | .relayMove =>
    match c.relayPc with
    | .move jsondata .position => some { c with
        positionJsonQueue := c.positionJsonQueue ++ [jsondata], relayPc := .pop }
    | .move jsondata .gui => some { c with
        guiJsonQueue := c.guiJsonQueue ++ [jsondata], relayPc := .pop }
    | .move _ .dropped => some { c with relayPc := .pop }
    | _ => none
  | .relayPop =>
    if c.relayPc = .pop then
      some { c with wsUpdatedJsonQueue := c.wsUpdatedJsonQueue.tail, relayPc := .front }
    else none
  | .wakeBatchHandler =>
    if c.batchPending then some { c with batchPending := false, handleBatch := true } else none
  | .posEmpty =>
    if c.mainPc = .posEmpty then
      some { c with mainPc := if c.positionJsonQueue = [] then .guiEmpty else .posFront }
    else none
  | .posFront =>
    match c.mainPc, c.positionJsonQueue with
    | .posFront, front :: _ => some (c.endBlock (block positionUpdate front c.gui) .posPop)
    | _, _ => none
  | .posPop =>
    if c.mainPc = .posPop then
      some { c with positionJsonQueue := c.positionJsonQueue.tail, mainPc := .guiEmpty }
    else none
  | .guiEmpty =>
    if c.mainPc = .guiEmpty then
      some { c with mainPc := if c.guiJsonQueue = [] then .keys else .guiSize }
    else none
  | .guiSize =>
    if c.mainPc = .guiSize then
      -- the gui queue has to wait while too many positions do
      some { c with mainPc :=
        if c.positionJsonQueue.length ≤ maxBatchedPositionsThreshold then .guiFront else .keys }
    else none
  | .guiFront =>
    match c.mainPc, c.guiJsonQueue with
    | .guiFront, front :: _ =>
      some (c.endBlock (block (guiUpdate c.clientUUID) front c.gui) .guiPop)
    | _, _ => none
  | .guiPop =>
    if c.mainPc = .guiPop then
      some { c with guiJsonQueue := c.guiJsonQueue.tail, mainPc := .keys }
    else none
  | .keys pressed =>
    if c.mainPc = .keys then some { c.keys pressed with mainPc := .mouse } else none
  | .mouse color send ready =>
    if c.mainPc = .mouse then some { c.mouse color send ready with mainPc := .move } else none
  | .move ready =>
    if c.mainPc = .move then some { c.sendMove ready with mainPc := .typing } else none
  | .typing textmessage enter =>
    if c.mainPc = .typing then some { c.typing textmessage enter with mainPc := .text } else none
  | .text ready =>
    if c.mainPc = .text then some { c.sendText ready with mainPc := .batch } else none
  | .batch =>
    if c.mainPc = .batch then
      some { c with mainPc := if c.discards then .discard 0 else .posEmpty }
    else none
  | .discard =>
    match c.mainPc with
    | .discard i =>
      if i + 1 < c.positionJsonQueue.length then some { c with mainPc := .discardPop i }
      else some { c with handleBatch := false, mainPc := .posEmpty }
    | _ => none
  | .discardPop =>
    match c.mainPc with
    | .discardPop i => some { c with
        positionJsonQueue := c.positionJsonQueue.tail, mainPc := .discard (i + 1) }
    | _ => none
  | .workerFront => c.worker .workerFront
  | .workerWrite => c.worker .workerWrite
  | .workerPop => c.worker .workerPop

end Client

/-- The client with the given UUID. -/
def client (uuid : UuidV4) : Machine Client ClientAct where
  init := Client.start uuid
  step := Client.step

/-- A block changes its variables, and goes on to the pop or crashes. -/
lemma exists_endBlock (c : Client) (e : BlockEnd) (pop : MainPc) :
    ∃ pc, (pc = pop ∨ pc = .crashed) ∧
      c.endBlock e pop = { c with gui := e.gui, mainPc := pc } := by
  cases e with
  | popped g => exact ⟨pop, Or.inl rfl, rfl⟩
  | escaped e g => exact ⟨.crashed, Or.inr rfl, rfl⟩

/-! ### The steps, by their actions -/

/-- `ClientStep c a c'`: the action `a` leads from `c` to `c'`. -/
inductive ClientStep (c : Client) : ClientAct → Client → Prop
  | onMessage (msg : Text) : ClientStep c (.onMessage msg) { c with
      wsUpdatedJsonQueue := c.wsUpdatedJsonQueue ++ [msg], arrived := c.arrived ++ [msg] }
  | relayFront {jsondata : Text} {rest : List Text} (hpc : c.relayPc = .front)
      (hq : c.wsUpdatedJsonQueue = jsondata :: rest) :
      ClientStep c .relayFront { c with relayPc := .move jsondata (relay jsondata) }
  | movePosition {jsondata : Text} (hpc : c.relayPc = .move jsondata .position) :
      ClientStep c .relayMove { c with
        positionJsonQueue := c.positionJsonQueue ++ [jsondata], relayPc := .pop }
  | moveGui {jsondata : Text} (hpc : c.relayPc = .move jsondata .gui) :
      ClientStep c .relayMove { c with
        guiJsonQueue := c.guiJsonQueue ++ [jsondata], relayPc := .pop }
  | moveDropped {jsondata : Text} (hpc : c.relayPc = .move jsondata .dropped) :
      ClientStep c .relayMove { c with relayPc := .pop }
  | relayPop (hpc : c.relayPc = .pop) : ClientStep c .relayPop { c with
      wsUpdatedJsonQueue := c.wsUpdatedJsonQueue.tail, relayPc := .front }
  | wakeBatchHandler (hpc : c.batchPending) :
      ClientStep c .wakeBatchHandler { c with batchPending := false, handleBatch := true }
  | posEmpty (hpc : c.mainPc = .posEmpty) : ClientStep c .posEmpty { c with
      mainPc := if c.positionJsonQueue = [] then .guiEmpty else .posFront }
  | posFront {front : Text} {rest : List Text} (hpc : c.mainPc = .posFront)
      (hq : c.positionJsonQueue = front :: rest) :
      ClientStep c .posFront (c.endBlock (block positionUpdate front c.gui) .posPop)
  | posPop (hpc : c.mainPc = .posPop) : ClientStep c .posPop { c with
      positionJsonQueue := c.positionJsonQueue.tail, mainPc := .guiEmpty }
  | guiEmpty (hpc : c.mainPc = .guiEmpty) : ClientStep c .guiEmpty { c with
      mainPc := if c.guiJsonQueue = [] then .keys else .guiSize }
  | guiSize (hpc : c.mainPc = .guiSize) : ClientStep c .guiSize { c with mainPc :=
      if c.positionJsonQueue.length ≤ maxBatchedPositionsThreshold then .guiFront else .keys }
  | guiFront {front : Text} {rest : List Text} (hpc : c.mainPc = .guiFront)
      (hq : c.guiJsonQueue = front :: rest) :
      ClientStep c .guiFront (c.endBlock (block (guiUpdate c.clientUUID) front c.gui) .guiPop)
  | guiPop (hpc : c.mainPc = .guiPop) : ClientStep c .guiPop { c with
      guiJsonQueue := c.guiJsonQueue.tail, mainPc := .keys }
  | keys (pressed : Keys) (hpc : c.mainPc = .keys) :
      ClientStep c (.keys pressed) { c.keys pressed with mainPc := .mouse }
  | mouse (color : Option HexColor) (send ready : Bool) (hpc : c.mainPc = .mouse) :
      ClientStep c (.mouse color send ready) { c.mouse color send ready with mainPc := .move }
  | move (ready : Bool) (hpc : c.mainPc = .move) :
      ClientStep c (.move ready) { c.sendMove ready with mainPc := .typing }
  | typing (textmessage : TypedText) (enter : Bool) (hpc : c.mainPc = .typing) :
      ClientStep c (.typing textmessage enter) { c.typing textmessage enter with mainPc := .text }
  | text (ready : Bool) (hpc : c.mainPc = .text) :
      ClientStep c (.text ready) { c.sendText ready with mainPc := .batch }
  | batch (hpc : c.mainPc = .batch) : ClientStep c .batch { c with
      mainPc := if c.discards then .discard 0 else .posEmpty }
  | discardTest {i : ℕ} (hpc : c.mainPc = .discard i)
      (hi : i + 1 < c.positionJsonQueue.length) :
      ClientStep c .discard { c with mainPc := .discardPop i }
  | discardEnd {i : ℕ} (hpc : c.mainPc = .discard i)
      (hi : ¬ i + 1 < c.positionJsonQueue.length) : ClientStep c .discard { c with
        handleBatch := false, mainPc := .posEmpty }
  | discardPop {i : ℕ} (hpc : c.mainPc = .discardPop i) : ClientStep c .discardPop { c with
      positionJsonQueue := c.positionJsonQueue.tail, mainPc := .discard (i + 1) }
  | workerFront {t : Session} (h : c.session.step .workerFront = some t) :
      ClientStep c .workerFront { c with session := t }
  | workerWrite {t : Session} (h : c.session.step .workerWrite = some t) :
      ClientStep c .workerWrite { c with session := t }
  | workerPop {t : Session} (h : c.session.step .workerPop = some t) :
      ClientStep c .workerPop { c with session := t }

lemma some_of_guard {p : Prop} [Decidable p] {c c' : Client}
    (h : (if p then some c else none) = some c') : p ∧ c = c' := by
  split_ifs at h with hp
  exact ⟨hp, Option.some.inj h⟩

lemma clientStep_of_step {c c' : Client} {a : ClientAct} (h : c.step a = some c') :
    ClientStep c a c' := by
  cases a with
  | onMessage msg =>
    rw [← Option.some.inj h]
    exact .onMessage msg
  | relayFront =>
    simp only [Client.step] at h
    split at h
    · rename_i hpc hq
      rw [← Option.some.inj h]
      exact .relayFront hpc hq
    · simp at h
  | relayMove =>
    simp only [Client.step] at h
    split at h
    · rename_i hpc
      rw [← Option.some.inj h]
      exact .movePosition hpc
    · rename_i hpc
      rw [← Option.some.inj h]
      exact .moveGui hpc
    · rename_i hpc
      rw [← Option.some.inj h]
      exact .moveDropped hpc
    · simp at h
  | relayPop =>
    obtain ⟨hpc, rfl⟩ := some_of_guard h
    exact .relayPop hpc
  | wakeBatchHandler =>
    obtain ⟨hpc, rfl⟩ := some_of_guard h
    exact .wakeBatchHandler hpc
  | posEmpty =>
    obtain ⟨hpc, rfl⟩ := some_of_guard h
    exact .posEmpty hpc
  | posFront =>
    simp only [Client.step] at h
    split at h
    · rename_i hpc hq
      rw [← Option.some.inj h]
      exact .posFront hpc hq
    · simp at h
  | posPop =>
    obtain ⟨hpc, rfl⟩ := some_of_guard h
    exact .posPop hpc
  | guiEmpty =>
    obtain ⟨hpc, rfl⟩ := some_of_guard h
    exact .guiEmpty hpc
  | guiSize =>
    obtain ⟨hpc, rfl⟩ := some_of_guard h
    exact .guiSize hpc
  | guiFront =>
    simp only [Client.step] at h
    split at h
    · rename_i hpc hq
      rw [← Option.some.inj h]
      exact .guiFront hpc hq
    · simp at h
  | guiPop =>
    obtain ⟨hpc, rfl⟩ := some_of_guard h
    exact .guiPop hpc
  | keys pressed =>
    obtain ⟨hpc, rfl⟩ := some_of_guard h
    exact .keys pressed hpc
  | mouse color send ready =>
    obtain ⟨hpc, rfl⟩ := some_of_guard h
    exact .mouse color send ready hpc
  | move ready =>
    obtain ⟨hpc, rfl⟩ := some_of_guard h
    exact .move ready hpc
  | typing textmessage enter =>
    obtain ⟨hpc, rfl⟩ := some_of_guard h
    exact .typing textmessage enter hpc
  | text ready =>
    obtain ⟨hpc, rfl⟩ := some_of_guard h
    exact .text ready hpc
  | batch =>
    obtain ⟨hpc, rfl⟩ := some_of_guard h
    exact .batch hpc
  | discard =>
    simp only [Client.step] at h
    split at h
    · rename_i i hpc
      split_ifs at h with hi
      · rw [← Option.some.inj h]
        exact .discardTest hpc hi
      · rw [← Option.some.inj h]
        exact .discardEnd hpc hi
    · simp at h
  | discardPop =>
    simp only [Client.step] at h
    split at h
    · rename_i hpc
      rw [← Option.some.inj h]
      exact .discardPop hpc
    · simp at h
  | workerFront =>
    obtain ⟨t, ht, rfl⟩ := Option.map_eq_some_iff.mp h
    exact .workerFront ht
  | workerWrite =>
    obtain ⟨t, ht, rfl⟩ := Option.map_eq_some_iff.mp h
    exact .workerWrite ht
  | workerPop =>
    obtain ⟨t, ht, rfl⟩ := Option.map_eq_some_iff.mp h
    exact .workerPop ht

/-! ### What the player does -/

/-- The messages on their way and the players are the same, and so are the session's UUID and
the thread that relays. -/
structure Undisturbed (c c' : Client) : Prop where
  ws : c'.wsUpdatedJsonQueue = c.wsUpdatedJsonQueue
  pos : c'.positionJsonQueue = c.positionJsonQueue
  gui : c'.guiJsonQueue = c.guiJsonQueue
  relayPc : c'.relayPc = c.relayPc
  arrived : c'.arrived = c.arrived
  players : c'.gui.externalplayers = c.gui.externalplayers

lemma Undisturbed.refl (c : Client) : Undisturbed c c := ⟨rfl, rfl, rfl, rfl, rfl, rfl⟩

lemma Undisturbed.trans {c c' c'' : Client} (h : Undisturbed c c') (h' : Undisturbed c' c'') :
    Undisturbed c c'' :=
  ⟨h'.ws.trans h.ws, h'.pos.trans h.pos, h'.gui.trans h.gui, h'.relayPc.trans h.relayPc,
    h'.arrived.trans h.arrived, h'.players.trans h.players⟩

lemma Undisturbed.goto {c c' : Client} (h : Undisturbed c c') (pc : MainPc) :
    Undisturbed c { c' with mainPc := pc } :=
  ⟨h.ws, h.pos, h.gui, h.relayPc, h.arrived, h.players⟩

/-- The car may have moved, and `move` stays set; nothing else has changed. -/
def Steered (c c' : Client) : Prop :=
  ∃ X Y move, (c.gui.move = true → move = true) ∧
    c' = { c with X := X, Y := Y, gui := { c.gui with move := move } }

lemma Steered.trans {c c' c'' : Client} (h : Steered c c') (h' : Steered c' c'') :
    Steered c c'' := by
  obtain ⟨X, Y, move, hmove, rfl⟩ := h
  obtain ⟨X', Y', move', hmove', rfl⟩ := h'
  exact ⟨X', Y', move', fun h => hmove' (hmove h), rfl⟩

lemma steered_steer (c : Client) (pressed allowed : Bool) (X Y : ℤ) :
    Steered c (c.steer pressed allowed X Y) := by
  rw [Client.steer]
  split_ifs
  · exact ⟨X, Y, true, fun _ => rfl, rfl⟩
  · exact ⟨c.X, c.Y, c.gui.move, id, rfl⟩

lemma steered_keys (c : Client) (k : Keys) : Steered c (c.keys k) :=
  (((steered_steer c _ _ _ _).trans (steered_steer _ _ _ _ _)).trans
    (steered_steer _ _ _ _ _)).trans (steered_steer _ _ _ _ _)

lemma undisturbed_keys (c : Client) (k : Keys) : Undisturbed c (c.keys k) := by
  obtain ⟨X, Y, move, -, hc⟩ := steered_keys c k
  rw [hc]
  exact ⟨rfl, rfl, rfl, rfl, rfl, rfl⟩

lemma undisturbed_echo (c : Client) : Undisturbed c c.echo := ⟨rfl, rfl, rfl, rfl, rfl, rfl⟩

lemma undisturbed_mouse (c : Client) (color : Option HexColor) (send ready : Bool) :
    Undisturbed c (c.mouse color send ready) := by
  cases color with
  | none =>
    cases send
    · exact .refl c
    · exact undisturbed_echo c
  | some k => cases send <;> exact ⟨rfl, rfl, rfl, rfl, rfl, rfl⟩

lemma undisturbed_sendMove (c : Client) (ready : Bool) : Undisturbed c (c.sendMove ready) := by
  rw [Client.sendMove]
  split_ifs
  · exact ⟨rfl, rfl, rfl, rfl, rfl, rfl⟩
  · exact .refl c

lemma undisturbed_typing (c : Client) (textmessage : TypedText) (enter : Bool) :
    Undisturbed c (c.typing textmessage enter) := by
  cases enter <;> exact ⟨rfl, rfl, rfl, rfl, rfl, rfl⟩

lemma undisturbed_sendText (c : Client) (ready : Bool) : Undisturbed c (c.sendText ready) := by
  rw [Client.sendText]
  split_ifs
  · exact ⟨rfl, rfl, rfl, rfl, rfl, rfl⟩
  · exact .refl c

/-- The action is one of those of the main loop that leave the messages on their way alone. -/
def ClientAct.roams : ClientAct → Bool
  | .posEmpty | .guiEmpty | .guiSize | .keys _ | .mouse _ _ _ | .move _ | .typing _ _ | .text _
  | .batch => true
  | _ => false

/-- The main loop is in the loop of a batch pass. -/
def Client.Discarding (c : Client) : Prop :=
  ∃ i, c.mainPc = .discard i ∨ c.mainPc = .discardPop i

lemma not_discarding_of_mainPc {c : Client} {pc : MainPc} (h : c.mainPc = pc)
    (htest : ∀ i, pc ≠ .discard i) (hpop : ∀ i, pc ≠ .discardPop i) : ¬ c.Discarding := by
  rintro ⟨i, hi | hi⟩
  · exact htest i (h.symm.trans hi)
  · exact hpop i (h.symm.trans hi)

/-- The main loop is not about to pop. -/
structure Client.EmptyHanded (c : Client) : Prop where
  posPop : c.mainPc ≠ .posPop
  guiPop : c.mainPc ≠ .guiPop
  discardPop : ∀ i, c.mainPc ≠ .discardPop i

lemma ClientStep.undisturbed {c c' : Client} {a : ClientAct} (hs : ClientStep c a c')
    (ha : a.roams) : Undisturbed c c' := by
  cases hs with
  | keys pressed => exact (undisturbed_keys c pressed).goto _
  | mouse color send ready => exact (undisturbed_mouse c color send ready).goto _
  | move ready => exact (undisturbed_sendMove c ready).goto _
  | typing textmessage enter => exact (undisturbed_typing c textmessage enter).goto _
  | text ready => exact (undisturbed_sendText c ready).goto _
  | posEmpty | guiEmpty | guiSize | batch => exact (Undisturbed.refl c).goto _
  | _ => cases ha

lemma ClientStep.emptyHanded {c c' : Client} {a : ClientAct} (hs : ClientStep c a c')
    (ha : a.roams) : c.EmptyHanded ∧ c'.EmptyHanded := by
  cases hs with
  | keys _ hpc | mouse _ _ _ hpc | move _ hpc | typing _ _ hpc | text _ hpc =>
    exact ⟨⟨by simp [hpc], by simp [hpc], by simp [hpc]⟩, ⟨by simp, by simp, by simp⟩⟩
  | posEmpty hpc | guiEmpty hpc | guiSize hpc | batch hpc =>
    refine ⟨⟨by simp [hpc], by simp [hpc], by simp [hpc]⟩, ?_⟩
    split_ifs <;> exact ⟨by simp, by simp, by simp⟩
  | _ => cases ha

/-! ### What has arrived -/

lemma arrived_of_step {c c' : Client} {a : ClientAct} (hs : ClientStep c a c') :
    c'.arrived = c.arrived ∨ ∃ msg, a = .onMessage msg ∧ c'.arrived = c.arrived ++ [msg] := by
  by_cases ha : a.roams
  · exact Or.inl (hs.undisturbed ha).arrived
  cases hs with
  | onMessage msg => exact Or.inr ⟨msg, rfl, rfl⟩
  | posFront | guiFront =>
    obtain ⟨pc, -, hc⟩ := exists_endBlock c _ _
    rw [hc]
    exact Or.inl rfl
  | _ => first | exact Or.inl rfl | exact absurd rfl ha

/-- Nothing that has arrived is forgotten. -/
lemma arrived_prefix_of_leads {uuid : UuidV4} {c c' : Client}
    (h : (client uuid).Leads c c') : c.arrived <+: c'.arrived := by
  refine h.stable (P := fun c' => c.arrived <+: c'.arrived) ?_ (List.prefix_refl _)
  intro c₁ a c₂ hpre hs
  rcases arrived_of_step (clientStep_of_step hs) with he | ⟨msg, -, he⟩
  · rwa [he]
  · rw [he]
    exact hpre.trans (List.prefix_append _ _)

end MultiplayerCars.CPPClient
