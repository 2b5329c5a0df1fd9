import Mathlib.Data.Char
import Mathlib.Data.List.Dedup
import Mathlib.Data.List.Lex
import Mathlib.Data.List.Sort
import MultiplayerCars.Lib.Brackets
import MultiplayerCars.CPPClient.Keyboard
import MultiplayerCars.CPPClient.Batch

/-!
# The drawing of a frame

At the end of an iteration the main loop draws: it begins the drawing, draws the background, the
colours and the cars, and then, unless it has to drop positions first, the texts, and ends the
drawing.  A batch pass leaves the iteration from the middle of this, by `continue`, so that the
drawing that was begun is not ended.
-/

namespace MultiplayerCars.CPPClient

open Lib Lib.Json Lib.Machine

/-! ### What is drawn -/

/-- `colorStringToHexValue`. -/
def colorStringToHexValue : List (Text × ℤ) :=
  [("0079F1".toList, 7991807), ("00E430".toList, 14954751), ("E62937".toList, -433506305),
    ("FF00FF".toList, -16711681), ("FFA100".toList, -6225665), ("FDF900".toList, -34012929),
    ("25FDCB".toList, 1723858943), ("C8C8C8".toList, -926365441)]

/-- The value of a colour; that of blue if the text is none of the eight. -/
def colorHexToString (hexString : Text) : ℤ :=
  (colorStringToHexValue.lookup hexString).getD 7991807

/-- The calls of `windowContext.cpp` and `carClass.cpp` in the drawing section. -/
inductive DrawCall
  | windowBeginDrawing
  | windowEndDrawing
  | windowDrawBackground
  | drawDefaultSquaresColor
  /-- The car of another player. -/
  | drawCar (X Y colorHexValue : ℤ)
  | drawOwnCar (X Y : ℤ)
  | drawTextTestBox (testStr : Text)
  | drawChatBoxContainer
  | drawChatSendBox (mouseOnText : Bool) (text : Text)
  | drawSendTextButton
  | drawChatSendBoxBlinkingUnderscore (framesCounter : ℕ) (text : Text)
  | drawTextLine (idx : ℕ) (context : TextContext)
  | drawEscButton
deriving DecidableEq, Repr

/-- Any drawing is to be bookended with these two. -/
def DrawCall.bracket : DrawCall → Bracket
  | .windowBeginDrawing => .opens
  | .windowEndDrawing => .closes
  | _ => .inside

/-- The player whom a message names. -/
def uuidOf (s : Text) : Option Text := (domParse s).bind (·.string "UUID")

/-- The keys of `gui_externalplayers`, in the order of the map. -/
def Client.players (c : Client) : List Text :=
  ((c.arrived.filterMap uuidOf).dedup.filter fun v =>
    (c.gui.externalplayers v).isSome).insertionSort (· ≤ ·)

/-- A client with its text field, the counter of its frames, and the calls that have been made for
the drawing, oldest first. -/
structure Screen where
  client : Client
  input : ChatInput
  framesCounter : ℕ
  calls : List DrawCall

namespace Screen

def start (uuid : UuidV4) : Screen := ⟨Client.start uuid, ChatInput.start, 0, []⟩

def drawCars (s : Screen) : List DrawCall :=
  s.client.players.filterMap fun v => (s.client.gui.externalplayers v).map fun car =>
    .drawCar car.X car.Y (colorHexToString car.color)

/-- The background, the colours and the cars. -/
def drawScene (s : Screen) : List DrawCall :=
  [.windowDrawBackground, .drawDefaultSquaresColor] ++ s.drawCars
    ++ [.drawOwnCar s.client.X s.client.Y]

/-- The texts and the button. -/
def drawTexts (s : Screen) : List DrawCall :=
  [.drawTextTestBox s.client.gui.timestamp, .drawChatBoxContainer,
    .drawChatSendBox s.input.mouseOnText s.client.textmessage.text, .drawSendTextButton]
    ++ (if s.input.mouseOnText ∧ s.input.letterCount < maxInputChars then
        [.drawChatSendBoxBlinkingUnderscore s.framesCounter s.client.textmessage.text] else [])
    ++ s.client.gui.textmessagesdisplay.mapIdx .drawTextLine ++ [.drawEscButton]

/-- The drawing of a frame. -/
def draw (s : Screen) : List DrawCall :=
  if s.client.discards then
    -- the loop is left by `continue`
    .windowBeginDrawing :: s.drawScene
  else .windowBeginDrawing :: (s.drawScene ++ s.drawTexts) ++ [.windowEndDrawing]

/-- What the text field and the counter make of an action, when it is what the player does. -/
def field (s : Screen) (i : Input) : ClientAct → Option (ChatInput × ℕ)
  | .mouse color send _ =>
    if (color.isSome → i.click) ∧ send = (i.click && i.sendButton) then
      (s.input.mouse i).map (·, s.framesCounter)
    else none
  | .typing textmessage enter =>
    (s.input.typing i).bind fun input =>
      if input.toStdString = some textmessage.text ∧ enter = (s.input.mouseOnText && i.enter) then
        some (input, if input.mouseOnText then s.framesCounter + 1 else 0)
      else none
  | .text _ => s.input.sendText.map (·, s.framesCounter)
  | _ => some (s.input, s.framesCounter)

def step (s : Screen) (x : ClientAct × Input) : Option Screen :=
  (s.client.step x.1).bind fun c => (s.field x.2 x.1).map fun f =>
    { client := c, input := f.1, framesCounter := f.2,
      calls := s.calls ++ if x.1 = .batch then s.draw else [] }

end Screen

/-- The client with the given UUID, and its window. -/
def screen (uuid : UuidV4) : Machine Screen (ClientAct × Input) where
  init := Screen.start uuid
  step := Screen.step

/-! ### The players -/

section Players

variable {c c' : Client} {a : ClientAct} {uuid : UuidV4} {l : List (Client × ClientAct)}

/-- A position that waits for its block has arrived. -/
lemma mem_arrived_of_position (h : (client uuid).Exec l c) {s : Text}
    (hs : s ∈ c.positionJsonQueue) : s ∈ c.arrived := by
  obtain ⟨popped, hpopped⟩ := exists_popped h .positionJsonQueue
  have hmoved : s ∈ moved .position l := by
    rw [← pushed_eq_moved (Or.inl ⟨rfl, rfl⟩), ← hpopped]
    exact List.mem_append_right popped hs
  have hfilter : s ∈ c.arrived.filter (relay · = .position) := by
    rw [← moved_append_unrelayed h .position]
    exact List.mem_append_left _ hmoved
  exact List.mem_of_mem_filter hfilter

/-- Every player of the map is named by one of the messages. -/
def NamedIn (messages : List Text) (g : Gui) : Prop :=
  ∀ v, g.externalplayers v ≠ none → v ∈ messages.filterMap uuidOf

section NamedIn

variable {messages : List Text} {front : Text} {g : Gui}

/-- The position block enters no player but the one whom its message names. -/
lemma NamedIn.position (h : NamedIn messages g) (hfront : front ∈ messages) :
    NamedIn messages (block positionUpdate front g).gui := by
  refine Keeps.block (P := NamedIn messages) (fun o ho => ?_) h
  refine keeps_positionUpdate (fun u car g hu hg v hv => ?_) fun g hg => hg
  by_cases huv : v = u
  · refine List.mem_filterMap.mpr ⟨front, hfront, ?_⟩
    rw [uuidOf, ho, huv]
    exact hu
  · exact hg v (by simpa [Gui.setPlayer, huv] using hv)

lemma NamedIn.gui (h : NamedIn messages g) (clientUUID : Text) :
    NamedIn messages (block (guiUpdate clientUUID) front g).gui := by
  refine Keeps.block (P := NamedIn messages) (fun o _ => ?_) h
  exact keeps_guiUpdate fun g g' _ hplayers hg v hv => hg v (hplayers v hv)

end NamedIn

lemma NamedIn.step (h : NamedIn c.arrived c.gui) (hpos : ∀ s ∈ c.positionJsonQueue, s ∈ c.arrived)
    (hs : ClientStep c a c') : NamedIn c'.arrived c'.gui := by
  by_cases ha : a.roams
  · obtain ⟨-, -, -, -, harrived, hplayers⟩ := hs.undisturbed ha
    rw [NamedIn, harrived, hplayers]
    exact h
  cases hs with
  | onMessage msg =>
    intro v hv
    rw [List.filterMap_append]
    exact List.mem_append_left _ (h v hv)
  | @posFront front rest hpc hq =>
    obtain ⟨pc, -, hc⟩ := exists_endBlock c _ _
    rw [hc]
    exact h.position (hpos front (by rw [hq]; simp))
  | guiFront =>
    obtain ⟨pc, -, hc⟩ := exists_endBlock c _ _
    rw [hc]
    exact h.gui c.clientUUID
  | _ => first | exact h | exact absurd rfl ha

/-- The map holds the players on the screen. -/
theorem mem_players (h : (client uuid).Exec l c) {v : Text} :
    v ∈ c.players ↔ c.gui.externalplayers v ≠ none := by
  have hnamed : NamedIn c.arrived c.gui := by
    have hok : Meets (fun _ _ => True) l := fun _ _ => trivial
    refine h.invariant_of_meets (P := fun c => NamedIn c.arrived c.gui)
      (I := fun c => ∀ s ∈ c.positionJsonQueue, s ∈ c.arrived)
      (fun _ _ hl s => mem_arrived_of_position hl) (fun v hv => absurd rfl hv) ?_ hok
    intro c a c' hpos hc _ hs
    exact hc.step hpos (clientStep_of_step hs)
  rw [Client.players, List.mem_insertionSort, List.mem_filter, List.mem_dedup,
    Option.isSome_iff_ne_none]
  exact ⟨fun hv => hv.2, fun hv => ⟨hnamed v hv, hv⟩⟩

/-- The keys are in their order, each of them once. -/
theorem players_sorted (c : Client) : c.players.Pairwise (· < ·) := by
  have hle : c.players.Pairwise (· ≤ ·) := List.pairwise_insertionSort _ _
  have hnodup : c.players.Nodup :=
    (List.perm_insertionSort _ _).nodup_iff.mpr ((List.nodup_dedup _).filter _)
  exact (hle.and hnodup).imp fun h => lt_of_le_of_ne h.1 h.2

end Players

/-! ### One step -/

section Step

variable {s s' : Screen} {x : ClientAct × Input} {uuid : UuidV4}

lemma bracket_of_mem_drawScene {d : DrawCall} (hd : d ∈ s.drawScene) : d.bracket = .inside := by
  simp only [Screen.drawScene, Screen.drawCars, List.mem_append, List.mem_cons, List.not_mem_nil,
    or_false, List.mem_filterMap, Option.map_eq_some_iff] at hd
  rcases hd with ((rfl | rfl) | ⟨v, -, car, -, rfl⟩) | rfl <;> rfl

lemma bracket_of_mem_drawTexts {d : DrawCall} (hd : d ∈ s.drawTexts) : d.bracket = .inside := by
  simp only [Screen.drawTexts, List.mem_append, List.mem_cons, List.not_mem_nil, or_false,
    List.mem_ite_nil_right, List.mem_mapIdx] at hd
  rcases hd with (((rfl | rfl | rfl | rfl) | ⟨-, rfl⟩) | ⟨idx, -, rfl⟩) | rfl <;> rfl

/-- A step is one of the client and one of the text field, and appends what it draws. -/
lemma screenStep_cases (hs : s.step x = some s') : s.client.step x.1 = some s'.client ∧
    s.field x.2 x.1 = some (s'.input, s'.framesCounter) ∧
      s'.calls = s.calls ++ if x.1 = .batch then s.draw else [] := by
  obtain ⟨c, hc, hs⟩ := Option.bind_eq_some_iff.mp hs
  obtain ⟨f, hf, rfl⟩ := Option.map_eq_some_iff.mp hs
  exact ⟨hc, hf, rfl⟩

/-- What a step does to the drawing.  The main loop draws a whole frame, or begins one and drops
positions; it goes on after a batch pass; or it draws nothing. -/
inductive DrawStep (s s' : Screen) (a : ClientAct) : Prop
  | frame (hout : ¬ s.client.Discarding) (hpass : ¬ s.client.endsPass a)
      (hout' : ¬ s'.client.Discarding)
      (hcalls : s'.calls = s.calls ++ (.windowBeginDrawing :: (s.drawScene ++ s.drawTexts)
        ++ [.windowEndDrawing]))
  | begin (hout : ¬ s.client.Discarding) (hpass : ¬ s.client.endsPass a)
      (hin' : s'.client.Discarding)
      (hcalls : s'.calls = s.calls ++ .windowBeginDrawing :: s.drawScene)
  | skip (hin : s.client.Discarding) (hpass : s.client.endsPass a)
      (hpc' : s'.client.mainPc = .posEmpty) (hcalls : s'.calls = s.calls)
  | quiet (hpass : ¬ s.client.endsPass a) (hpc : s'.client.Discarding ↔ s.client.Discarding)
      (hcalls : s'.calls = s.calls)

theorem drawStep_of_screen (hs : s.step x = some s') : DrawStep s s' x.1 := by
  obtain ⟨hclient, -, hcalls⟩ := screenStep_cases hs
  have hstep := clientStep_of_step hclient
  obtain ⟨a, i⟩ := x
  by_cases ha : a = .batch
  · subst ha
    rw [if_pos rfl, Screen.draw] at hcalls
    have hpass : ¬ s.client.endsPass .batch := by simp [Client.endsPass]
    generalize hc : s'.client = c' at hstep
    cases hstep with
    | batch hpc =>
      have hout : ¬ s.client.Discarding := not_discarding_of_mainPc hpc (by simp) (by simp)
      by_cases hd : s.client.discards
      · rw [if_pos hd] at hcalls
        refine .begin hout hpass ⟨0, Or.inl ?_⟩ hcalls
        rw [hc]
        exact if_pos hd
      · rw [if_neg hd] at hcalls
        refine .frame hout hpass ?_ hcalls
        rw [hc]
        exact not_discarding_of_mainPc (if_neg hd) (by simp) (by simp)
  · rw [if_neg ha, List.append_nil] at hcalls
    cases hstep.passStep with
    | wake _ _ _ hpc =>
      refine .quiet (by simp [Client.endsPass]) ?_ hcalls
      rw [Client.Discarding, hpc, Client.Discarding]
    | begin => exact absurd rfl ha
    | test hpc hi hpc' =>
      exact .quiet (by simp [Client.endsPass, hpc, hi])
        (iff_of_true ⟨_, Or.inr hpc'⟩ ⟨_, Or.inl hpc⟩) hcalls
    | pop hpc hpc' =>
      exact .quiet (by simp [Client.endsPass]) (iff_of_true ⟨_, Or.inl hpc'⟩ ⟨_, Or.inr hpc⟩) hcalls
    | finish hpc hi hpc' =>
      exact .skip ⟨_, Or.inl hpc⟩ (by simp [Client.endsPass, hpc, hi]) hpc' hcalls
    | aside hne hpc =>
      refine .quiet (by simp [endsPass_of_discards hne]) ?_ hcalls
      rw [Client.Discarding, hpc, Client.Discarding]
    | away hne hout hout' =>
      exact .quiet (by simp [endsPass_of_discards hne]) (iff_of_false hout' hout) hcalls

end Step

/-! ### Every run -/

section Run

variable {s s' : Screen} {x : ClientAct × Input} {uuid : UuidV4}
  {l : List (Screen × ClientAct × Input)}

/-- The calls so far are whole drawings, and perhaps one more that has begun; and where an iteration
starts, none is open. -/
structure Bookended (s : Screen) : Prop where
  calls : Bracketed DrawCall.bracket s.calls ∨ Unclosed DrawCall.bracket s.calls
  closed : s.client.mainPc = .posEmpty → Bracketed DrawCall.bracket s.calls

/-- `windowBeginDrawing` and `windowEndDrawing` take turns, and the first call of the two is that of
`windowBeginDrawing`. -/
theorem Bookended.alternates (h : Bookended s) :
    ∃ n rest, brackets DrawCall.bracket s.calls
      = (List.replicate n [.opens, .closes]).flatten ++ rest ∧ (rest = [] ∨ rest = [.opens]) := by
  rcases h.calls with hcalls | hcalls
  · obtain ⟨n, hn⟩ := hcalls.alternates
    exact ⟨n, [], by rw [hn, List.append_nil], Or.inl rfl⟩
  · obtain ⟨n, hn⟩ := hcalls.alternates
    exact ⟨n, [.opens], hn, Or.inr rfl⟩

/-- A drawing is open in the loop of a batch pass, and nowhere else. -/
structure OpenInPass (s : Screen) : Prop where
  closed : ¬ s.client.Discarding → Bracketed DrawCall.bracket s.calls
  opened : s.client.Discarding → Unclosed DrawCall.bracket s.calls

lemma OpenInPass.start (uuid : UuidV4) : OpenInPass (Screen.start uuid) where
  closed := fun _ => .nil
  opened := fun hin => absurd hin (start_not_discarding uuid)

lemma OpenInPass.bookended (h : OpenInPass s) : Bookended s where
  calls := by
    by_cases hin : s.client.Discarding
    · exact Or.inr (h.opened hin)
    · exact Or.inl (h.closed hin)
  closed := fun hpc => h.closed (not_discarding_of_mainPc hpc (by simp) (by simp))

/-- A step keeps this, unless it ends a batch pass. -/
lemma OpenInPass.step (h : OpenInPass s) (hpass : ¬ s.client.endsPass x.1)
    (hs : DrawStep s s' x.1) : OpenInPass s' := by
  cases hs with
  | frame hout _ hout' hcalls =>
    refine ⟨fun _ => ?_, fun hin => absurd hin hout'⟩
    rw [hcalls, ← List.append_assoc]
    refine .block (h.closed hout) rfl (fun d hd => ?_) rfl
    rcases List.mem_append.mp hd with hd | hd
    · exact bracket_of_mem_drawScene hd
    · exact bracket_of_mem_drawTexts hd
  | begin hout _ hin' hcalls =>
    refine ⟨fun hout' => absurd hin' hout', fun _ => ?_⟩
    rw [hcalls]
    exact .intro (h.closed hout) rfl fun _ => bracket_of_mem_drawScene
  | skip _ hends => exact absurd hends hpass
  | quiet _ hpc hcalls =>
    refine ⟨fun hout => ?_, fun hin => ?_⟩
    · rw [hcalls]
      exact h.closed (mt hpc.mpr hout)
    · rw [hcalls]
      exact h.opened (hpc.mp hin)

/-- In the loop of a batch pass the trace is not bracketed, whatever has been drawn before. -/
def Midway (s : Screen) : Prop := s.client.Discarding → ¬ Bracketed DrawCall.bracket s.calls

lemma Midway.step (h : Midway s) (hs : DrawStep s s' x.1) : Midway s' := by
  intro hin' hcalls'
  cases hs with
  | frame _ _ hout' => exact hout' hin'
  | begin _ _ _ hcalls =>
    rw [hcalls, Screen.drawScene, ← List.cons_append, ← List.append_assoc] at hcalls'
    have hends := hcalls'.closes_of_append_singleton
    cases hends
  | skip _ _ hpc' => exact not_discarding_of_mainPc hpc' (by simp) (by simp) hin'
  | quiet _ hpc hcalls =>
    rw [hcalls] at hcalls'
    exact h (hpc.mp hin') hcalls'

lemma midway_of_exec (l : List (Screen × ClientAct × Input)) (s : Screen)
    (h : (screen uuid).Exec l s) : Midway s :=
  h.invariant (fun hin => absurd hin (start_not_discarding uuid))
    fun _ _ _ hm hs => hm.step (drawStep_of_screen hs)

/-- The end of a batch pass leaves a drawing open where the next iteration starts. -/
lemma Midway.not_endsPass (h : Midway s) (hs : DrawStep s s' x.1) (hb : Bookended s') :
    ¬ s.client.endsPass x.1 := by
  intro hends
  cases hs with
  | skip hin _ hpc' hcalls =>
    have hclosed := hb.closed hpc'
    rw [hcalls] at hclosed
    exact h hin hclosed
  | frame _ hpass | begin _ hpass | quiet hpass => exact hpass hends

/-- **The drawing, exactly.**  The drawing is bookended in every state of a run if and only if no
batch pass comes to its end. -/
theorem drawing_bookended_iff (h : (screen uuid).Exec l s) :
    Always Bookended l s ↔ Meets (fun s x => ¬ s.client.endsPass x.1) l :=
  h.always_iff_meets_of_strong (R := OpenInPass) midway_of_exec (OpenInPass.start uuid)
    (fun _ _ hopen => hopen.bookended)
    (fun _ _ _ _ hopen hpass hs => hopen.step hpass (drawStep_of_screen hs))
    fun _ _ _ hm hs hb => hm.not_endsPass (drawStep_of_screen hs) hb

end Run

/-! ### What a frame shows -/

section Field

variable {c c' : Client} {a : ClientAct} {s : Screen} {uuid : UuidV4}
  {l : List (Screen × ClientAct × Input)}

lemma Shows.of_eq {input : ChatInput} (h : Shows input c) (ht : c'.text = c.text)
    (hm : c'.textmessage = c.textmessage) : Shows input c' where
  inBounds := h.inBounds
  textmessage := by
    rw [hm]
    exact h.textmessage
  text := h.text.trans ht.symm

/-- Only the blocks for the mouse, the keyboard and the text have to do with the field. -/
lemma ClientStep.text_eq (hs : ClientStep c a c')
    (hmouse : ∀ color send ready, a ≠ .mouse color send ready)
    (htyping : ∀ textmessage enter, a ≠ .typing textmessage enter)
    (htext : ∀ ready, a ≠ .text ready) :
    c'.text = c.text ∧ c'.textmessage = c.textmessage := by
  cases hs with
  | mouse color send ready => exact absurd rfl (hmouse color send ready)
  | typing textmessage enter => exact absurd rfl (htyping textmessage enter)
  | text ready => exact absurd rfl (htext ready)
  | keys pressed =>
    obtain ⟨X, Y, move, -, hc⟩ := steered_keys c pressed
    rw [hc]
    exact ⟨rfl, rfl⟩
  | move ready =>
    simp only [Client.sendMove]
    split_ifs <;> exact ⟨rfl, rfl⟩
  | posFront | guiFront =>
    obtain ⟨pc, -, hc⟩ := exists_endBlock c _ _
    rw [hc]
    exact ⟨rfl, rfl⟩
  | _ => exact ⟨rfl, rfl⟩

lemma Shows.field_mouse {i : Input} {f : ChatInput × ℕ} {color : Option HexColor}
    {send ready : Bool} (h : Shows s.input s.client)
    (hf : s.field i (.mouse color send ready) = some f) :
    Shows f.1 (s.client.mouse color send ready) := by
  obtain ⟨⟨-, hsend⟩, hf⟩ := Option.ite_none_right_eq_some.mp hf
  obtain ⟨input, hinput, rfl⟩ := Option.map_eq_some_iff.mp hf
  obtain ⟨input', hinput', hshows⟩ := h.mouse i color ready
  obtain rfl : input = input' := Option.some.inj (hinput.symm.trans hinput')
  rw [hsend]
  exact hshows

lemma Shows.field_typing {i : Input} {f : ChatInput × ℕ} {textmessage : TypedText} {enter : Bool}
    (h : Shows s.input s.client) (hf : s.field i (.typing textmessage enter) = some f) :
    Shows f.1 (s.client.typing textmessage enter) := by
  obtain ⟨input, hinput, hf⟩ := Option.bind_eq_some_iff.mp hf
  obtain ⟨⟨hstring, henter⟩, hf⟩ := Option.ite_none_right_eq_some.mp hf
  obtain rfl := Option.some.inj hf
  obtain ⟨input', typed, hinput', hshows⟩ := h.typing i
  obtain rfl : input = input' := Option.some.inj (hinput.symm.trans hinput')
  rw [← henter] at hshows
  refine ⟨hshows.inBounds, ?_, hshows.text.trans ?_⟩
  · show input.toStdString = some (s.client.typing textmessage enter).textmessage.text
    rw [hstring, Client.typing]
    split_ifs <;> rfl
  · -- only whether Enter is released matters here, not the text
    cases enter <;> rfl

lemma Shows.field_text {i : Input} {f : ChatInput × ℕ} {ready : Bool}
    (h : Shows s.input s.client) (hf : s.field i (.text ready) = some f) :
    Shows f.1 (s.client.sendText ready) := by
  obtain ⟨input, hinput, rfl⟩ := Option.map_eq_some_iff.mp hf
  obtain ⟨input', hinput', hshows⟩ := h.sendText ready
  obtain rfl : input = input' := Option.some.inj (hinput.symm.trans hinput')
  exact hshows

/-- The field and the client go on together. -/
lemma Shows.field {i : Input} {f : ChatInput × ℕ} (h : Shows s.input s.client)
    (hf : s.field i a = some f) (hs : ClientStep s.client a c') : Shows f.1 c' := by
  by_cases hmouse : ∃ color send ready, a = .mouse color send ready
  · obtain ⟨color, send, ready, rfl⟩ := hmouse
    cases hs
    exact (h.field_mouse hf).of_eq rfl rfl
  by_cases htyping : ∃ textmessage enter, a = .typing textmessage enter
  · obtain ⟨textmessage, enter, rfl⟩ := htyping
    cases hs
    exact (h.field_typing hf).of_eq rfl rfl
  by_cases htext : ∃ ready, a = .text ready
  · obtain ⟨ready, rfl⟩ := htext
    cases hs
    exact (h.field_text hf).of_eq rfl rfl
  simp only [not_exists] at hmouse htyping htext
  obtain ⟨ht, hm⟩ := hs.text_eq hmouse htyping htext
  have hsame : f = (s.input, s.framesCounter) := by
    cases a with
    | mouse color send ready => exact absurd rfl (hmouse color send ready)
    | typing textmessage enter => exact absurd rfl (htyping textmessage enter)
    | text ready => exact absurd rfl (htext ready)
    | _ => exact (Option.some.inj hf).symm
  rw [hsame]
  exact h.of_eq ht hm

/-- The text that is drawn is the one in the array. -/
theorem shows_of_exec (h : (screen uuid).Exec l s) : Shows s.input s.client := by
  refine h.invariant (I := fun s => Shows s.input s.client) (Shows.start uuid) ?_
  intro s x s' hshows hs
  obtain ⟨hclient, hfield, -⟩ := screenStep_cases hs
  exact hshows.field hfield (clientStep_of_step hclient)

/-- Whatever the player does, the blocks for the mouse, the keyboard and the text come to their
end. -/
theorem Shows.field_isSome (h : Shows s.input s.client) (i : Input) :
    (∀ color ready, (color.isSome → i.click) →
        (s.field i (.mouse color (i.click && i.sendButton) ready)).isSome) ∧
      (∃ textmessage, (s.field i (.typing textmessage (s.input.mouseOnText && i.enter))).isSome) ∧
      ∀ ready, (s.field i (.text ready)).isSome := by
  refine ⟨fun color ready hcolor => ?_, ?_, fun ready => ?_⟩
  · obtain ⟨input, hinput, -⟩ := h.mouse i color ready
    rw [Screen.field, if_pos ⟨hcolor, rfl⟩, hinput]
    rfl
  · obtain ⟨input, typed, hinput, hshows⟩ := h.typing i
    have hstring : input.toStdString = some typed.text := by
      rw [hshows.textmessage, Client.typing]
      split_ifs <;> rfl
    refine ⟨typed, ?_⟩
    rw [Screen.field, hinput, Option.bind_some, if_pos ⟨hstring, rfl⟩]
    rfl
  · obtain ⟨input, hinput, -⟩ := h.sendText ready
    rw [Screen.field, hinput]
    rfl

lemma exec_client (h : (screen uuid).Exec l s) :
    (client uuid).Exec (l.map fun x => (x.1.client, x.2.1)) s.client := by
  induction h with
  | nil => exact .nil
  | @snoc l s s' x _ hs ih =>
    rw [List.map_append]
    exact ih.snoc (screenStep_cases hs).1

/-- The cars that are drawn are those of the players on the screen. -/
theorem drawCar_mem_iff (h : (screen uuid).Exec l s) {X Y k : ℤ} :
    .drawCar X Y k ∈ s.drawScene ↔ ∃ v car, s.client.gui.externalplayers v = some car ∧
      car.X = X ∧ car.Y = Y ∧ colorHexToString car.color = k := by
  simp only [Screen.drawScene, Screen.drawCars, List.mem_append, List.mem_cons, List.not_mem_nil,
    or_false, reduceCtorEq, false_or, List.mem_filterMap, Option.map_eq_some_iff,
    DrawCall.drawCar.injEq]
  constructor
  · rintro ⟨v, -, car, hcar⟩
    exact ⟨v, car, hcar⟩
  · rintro ⟨v, car, hcar, hdrawn⟩
    exact ⟨v, (mem_players (exec_client h)).mpr (by simp [hcar]), car, hcar, hdrawn⟩

end Field

/-! ### A drawing that is not ended -/

/-- The player does nothing. -/
def idle : Input := ⟨false, false, false, [], false, false⟩

/-- A run with a batch pass. -/
def skipping : List (ClientAct × Input) := recovering.map (·, idle)

lemma skipping_runs : ((screen someUuid).run (screen someUuid).init skipping).isSome := by
  decide +kernel

@[irreducible] def skippedScreen : List (Screen × ClientAct × Input) × Screen :=
  ((screen someUuid).run (screen someUuid).init skipping).get skipping_runs

lemma exec_skipped : (screen someUuid).Exec skippedScreen.1 skippedScreen.2 := by
  rw [skippedScreen]
  exact exec_get_run skipping_runs

lemma skipped_check : ∃ x ∈ skippedScreen.1, x.1.client.endsPass x.2.1 := by
  rw [← List.any_eq_true, skippedScreen]
  decide +kernel

/-- A drawing that was begun can be left open when the next iteration starts. -/
theorem drawing_left_open : ¬ ∀ s, (screen someUuid).Reachable s → Bookended s := by
  intro h
  obtain ⟨x, hx, hends⟩ := skipped_check
  obtain ⟨l, hl, -⟩ := exec_skipped.of_mem hx
  obtain ⟨s', hs, -⟩ := exec_skipped.leads_of_mem hx
  have hbookended : Bookended s' := h s' ⟨_, hl.snoc hs⟩
  exact (midway_of_exec l x.1 hl).not_endsPass (drawStep_of_screen hs) hbookended hends

theorem drawing_bookended_iff_skipped : Always Bookended skippedScreen.1 skippedScreen.2 ↔
    Meets (fun s x => ¬ s.client.endsPass x.1) skippedScreen.1 :=
  drawing_bookended_iff exec_skipped

end MultiplayerCars.CPPClient
