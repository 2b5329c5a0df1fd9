import Mathlib.Algebra.Order.Ring.Rat
import Mathlib.Tactic.Linarith
import MultiplayerCars.CPPClient.Calls
import MultiplayerCars.CPPClient.Drawing

/-!
# The palette

The eight colours are drawn as a row of squares, and a click on a square is to choose its colour.
The row is drawn by a loop that goes from the left to the right, and the click is looked up by a
chain of comparisons, with constants of its own; the value of a colour and its text are in three
tables, one of which is used for one's own car and another for the cars of the others.  They agree.
-/

namespace MultiplayerCars.CPPClient

open Lib Lib.Json Lib.Machine

/-! ### Tables -/

/-- `colorSelectionType`, without its last. -/
inductive ColorSelection
  | noColor | blueColor | greenColor | redColor | magentaColor | orangeColor | yellowColor
  | skyBlueColor | lightGreyColor
deriving DecidableEq, Repr

structure ColorHexMap where
  hexValue : ℤ
  hexString : Text
deriving DecidableEq

def colorEnumToHexValue : List (ColorSelection × ColorHexMap) :=
  [(.blueColor, ⟨7991807, "0079F1".toList⟩), (.greenColor, ⟨14954751, "00E430".toList⟩),
    (.redColor, ⟨-433506305, "E62937".toList⟩), (.magentaColor, ⟨-16711681, "FF00FF".toList⟩),
    (.orangeColor, ⟨-6225665, "FFA100".toList⟩), (.yellowColor, ⟨-34012929, "FDF900".toList⟩),
    (.skyBlueColor, ⟨1723858943, "25FDCB".toList⟩),
    (.lightGreyColor, ⟨-926365441, "C8C8C8".toList⟩)]

def colorHexValueToString : List (ℤ × Text) :=
  [(7991807, "0079F1".toList), (14954751, "00E430".toList), (-433506305, "E62937".toList),
    (-16711681, "FF00FF".toList), (-6225665, "FFA100".toList), (-34012929, "FDF900".toList),
    (1723858943, "25FDCB".toList), (-926365441, "C8C8C8".toList)]

/-- `colorHexToString` for a value: its text, or that of blue. -/
def colorHexToText (hexValue : ℤ) : Text :=
  (colorHexValueToString.lookup hexValue).getD "0079F1".toList

/-- `setCarColor`. -/
def setCarColor (colorHexValue : ℤ) : ColorHexMap := ⟨colorHexValue, colorHexToText colorHexValue⟩

/-- `carColor`, before anything is clicked. -/
def defaultCarColor : ColorHexMap := ⟨7991807, "0079F1".toList⟩

/-- The colours that can be chosen. -/
def InPalette (m : ColorHexMap) : Prop := m ∈ colorEnumToHexValue.map Prod.snd

instance (m : ColorHexMap) : Decidable (InPalette m) := inferInstanceAs (Decidable (_ ∈ _))

/-- The three tables agree. -/
lemma tables_agree {m : ColorHexMap} (h : InPalette m) :
    setCarColor m.hexValue = m ∧ colorHexToString m.hexString = m.hexValue := by
  have hall : ∀ m ∈ colorEnumToHexValue.map Prod.snd,
      setCarColor m.hexValue = m ∧ colorHexToString m.hexString = m.hexValue := by
    decide
  exact hall m h

/-! ### Squares -/

def colorBoxX : ℤ := 850
def colorBoxY : ℤ := screenHeight - 110
def colorBoxWidth : ℤ := 400
def colorBoxHeight : ℤ := 50
def colorSquareLength : ℤ := 50

/-- A call of `DrawRectangle`, with the value of its colour. -/
structure Square where
  posX : ℤ
  posY : ℤ
  width : ℤ
  height : ℤ
  hexValue : ℤ
deriving DecidableEq

/-- A place in the window, as `GetMousePosition` returns it. -/
structure Vector2 where
  x : ℚ
  y : ℚ

/-- The rectangle is filled up to its right and lower edges. -/
structure Square.Covers (s : Square) (p : Vector2) : Prop where
  left : s.posX ≤ p.x
  right : p.x < s.posX + s.width
  top : s.posY ≤ p.y
  bottom : p.y < s.posY + s.height

/-- The loop over the colours, from one on. -/
def drawSquares (initX : ℤ) : List (ColorSelection × ColorHexMap) → List Square
  | [] => []
  | color :: colors =>
    ⟨initX, colorBoxY, colorSquareLength, colorBoxHeight, color.2.hexValue⟩
      :: drawSquares (initX + colorSquareLength) colors

def drawDefaultSquaresColor : List Square := drawSquares colorBoxX colorEnumToHexValue

def windowIsMouseInColorSelection (mouseCoords : Vector2) : ColorSelection :=
  if mouseCoords.x ≤ colorBoxX + colorBoxWidth ∧ mouseCoords.x ≥ colorBoxX ∧
      mouseCoords.y ≤ colorBoxY + colorBoxHeight ∧ mouseCoords.y ≥ colorBoxY then
    if mouseCoords.x < colorBoxX + 50 then .blueColor
    else if mouseCoords.x < colorBoxX + 50 * 2 then .greenColor
    else if mouseCoords.x < colorBoxX + 50 * 3 then .redColor
    else if mouseCoords.x < colorBoxX + 50 * 4 then .magentaColor
    else if mouseCoords.x < colorBoxX + 50 * 5 then .orangeColor
    else if mouseCoords.x < colorBoxX + 50 * 6 then .yellowColor
    else if mouseCoords.x < colorBoxX + 50 * 7 then .skyBlueColor
    else .lightGreyColor
  else .noColor

/-- What a click there chooses. -/
def picked (mouseCoords : Vector2) : Option ColorHexMap :=
  colorEnumToHexValue.lookup (windowIsMouseInColorSelection mouseCoords)

/-- The places where the box of the colours ends, which belong to none of the squares. -/
def OnEdge (p : Vector2) : Prop :=
  p.x = colorBoxX + colorBoxWidth ∨ p.y = colorBoxY + colorBoxHeight

section

variable {p : Vector2}

/-- The chain of comparisons, by the numbers. -/
lemma selection_eq (p : Vector2) : windowIsMouseInColorSelection p =
    if p.x ≤ 1250 ∧ p.x ≥ 850 ∧ p.y ≤ 790 ∧ p.y ≥ 740 then
      if p.x < 900 then .blueColor
      else if p.x < 950 then .greenColor
      else if p.x < 1000 then .redColor
      else if p.x < 1050 then .magentaColor
      else if p.x < 1100 then .orangeColor
      else if p.x < 1150 then .yellowColor
      else if p.x < 1200 then .skyBlueColor
      else .lightGreyColor
    else .noColor := by
  rw [windowIsMouseInColorSelection]
  norm_num [colorBoxX, colorBoxY, colorBoxWidth, colorBoxHeight, screenHeight]

/-- The squares, by the numbers. -/
lemma drawDefaultSquaresColor_eq : drawDefaultSquaresColor
    = [⟨850, 740, 50, 50, 7991807⟩, ⟨900, 740, 50, 50, 14954751⟩, ⟨950, 740, 50, 50, -433506305⟩,
      ⟨1000, 740, 50, 50, -16711681⟩, ⟨1050, 740, 50, 50, -6225665⟩,
      ⟨1100, 740, 50, 50, -34012929⟩, ⟨1150, 740, 50, 50, 1723858943⟩,
      ⟨1200, 740, 50, 50, -926365441⟩] := by
  decide

lemma covers_iff {X v : ℤ} : Square.Covers ⟨X, 740, 50, 50, v⟩ p ↔
    (X : ℚ) ≤ p.x ∧ p.x < X + 50 ∧ 740 ≤ p.y ∧ p.y < 790 := by
  constructor
  · rintro ⟨hl, hr, ht, hb⟩
    norm_num at hl hr ht hb
    exact ⟨hl, hr, ht, hb⟩
  · rintro ⟨hl, hr, ht, hb⟩
    constructor <;> norm_num <;> assumption

/-- Where a square is drawn, its colour is chosen. -/
lemma picked_of_covers {s : Square} (hs : s ∈ drawDefaultSquaresColor) (hc : s.Covers p) :
    (picked p).map ColorHexMap.hexValue = some s.hexValue := by
  rw [drawDefaultSquaresColor_eq] at hs
  simp only [List.mem_cons, List.not_mem_nil, or_false] at hs
  rw [picked, selection_eq]
  rcases hs with rfl | rfl | rfl | rfl | rfl | rfl | rfl | rfl <;>
    obtain ⟨hl, hr, ht, hb⟩ := covers_iff.mp hc <;>
    norm_num at hl hr <;>
    have hbox : p.x ≤ 1250 ∧ p.x ≥ 850 ∧ p.y ≤ 790 ∧ p.y ≥ 740 :=
      ⟨by linarith only [hr], by linarith only [hl], hb.le, ht⟩ <;>
    rw [if_pos hbox] <;>
    split_ifs <;> first | rfl | (exfalso; linarith)

/-- Where a colour is chosen, its square is drawn, except on the edge. -/
lemma covered_of_picked {m : ColorHexMap} (hm : picked p = some m) (hp : ¬ OnEdge p) :
    ∃ s ∈ drawDefaultSquaresColor, s.Covers p ∧ s.hexValue = m.hexValue := by
  have hright : p.x ≠ 1250 := fun he => hp (Or.inl (by norm_num [he, colorBoxX, colorBoxWidth]))
  have hbottom : p.y ≠ 790 := fun he =>
    hp (Or.inr (by norm_num [he, colorBoxY, colorBoxHeight, screenHeight]))
  have hsquare : ∀ X v : ℤ, ⟨X, 740, 50, 50, v⟩ ∈ drawDefaultSquaresColor → v = m.hexValue →
      ((X : ℚ) ≤ p.x ∧ p.x < X + 50 ∧ 740 ≤ p.y ∧ p.y < 790) →
      ∃ s ∈ drawDefaultSquaresColor, s.Covers p ∧ s.hexValue = m.hexValue :=
    fun X v hs hv hc => ⟨_, hs, covers_iff.mpr hc, hv⟩
  rw [picked, selection_eq] at hm
  split_ifs at hm with hbox h₁ h₂ h₃ h₄ h₅ h₆ h₇
  all_goals cases hm
  all_goals obtain ⟨hr, hl, hb, ht⟩ := hbox
  all_goals have hlow : p.y < 790 := lt_of_le_of_ne hb hbottom
  · exact hsquare 850 7991807 (by decide) rfl (by norm_num; grind)
  · exact hsquare 900 14954751 (by decide) rfl (by norm_num; grind)
  · exact hsquare 950 (-433506305) (by decide) rfl (by norm_num; grind)
  · exact hsquare 1000 (-16711681) (by decide) rfl (by norm_num; grind)
  · exact hsquare 1050 (-6225665) (by decide) rfl (by norm_num; grind)
  · exact hsquare 1100 (-34012929) (by decide) rfl (by norm_num; grind)
  · exact hsquare 1150 1723858943 (by decide) rfl (by norm_num; grind)
  · exact hsquare 1200 (-926365441) (by decide) rfl (by norm_num; grind)

/-- **A click chooses what is drawn there.**  At every place in the window, if a square covers it, a
click there chooses the colour of the square; and if a click there chooses a colour, a square of the
colour covers it, or it is on the right or the lower edge of the box. -/
theorem picked_iff_drawn (p : Vector2) :
    (∀ s ∈ drawDefaultSquaresColor, s.Covers p →
      (picked p).map ColorHexMap.hexValue = some s.hexValue) ∧
    ∀ m, picked p = some m →
      (∃ s ∈ drawDefaultSquaresColor, s.Covers p ∧ s.hexValue = m.hexValue) ∨ OnEdge p := by
  refine ⟨fun s => picked_of_covers, fun m hm => ?_⟩
  by_cases hp : OnEdge p
  · exact Or.inr hp
  · exact Or.inl (covered_of_picked hm hp)

end

/-! ### One's own car -/

/-- A client, with the colour of its car as `carClass.cpp` keeps it. -/
structure Painter where
  client : Client
  carColor : ColorHexMap

/-- The colour of the car after a step: the one that is clicked, or the one that it has. -/
def Client.chosen (c : Client) : ClientAct → HexColor
  | .mouse color _ _ => color.getD c.carColor
  | _ => c.carColor

namespace Painter

def start (uuid : UuidV4) : Painter := ⟨Client.start uuid, defaultCarColor⟩

/-- A step of the client; with the place of the mouse, if it is one with a click. -/
def step (s : Painter) (x : ClientAct × Option Vector2) : Option Painter :=
  match x.1 with
  | .mouse color _ _ =>
    let selection := x.2.bind picked
    if color.map HexColor.text = selection.map ColorHexMap.hexString then
      (s.client.step x.1).map fun c => ⟨c, match selection with
        | some m => setCarColor m.hexValue
        | none => s.carColor⟩
    else none
  | _ => (s.client.step x.1).map fun c => ⟨c, s.carColor⟩

end Painter

/-- The client with the given UUID, and the mouse. -/
def painter (uuid : UuidV4) : Machine Painter (ClientAct × Option Vector2) where
  init := Painter.start uuid
  step := Painter.step

/-- The colour of one's own car is one of the palette, and its text is the one that the session
sends. -/
structure Sprayed (s : Painter) : Prop where
  palette : InPalette s.carColor
  hexString : s.carColor.hexString = s.client.carColor.text
  matched : s.client.session.currColor = s.client.carColor

section

variable {c c' : Client} {a : ClientAct} {s s' : Painter} {x : ClientAct × Option Vector2}

lemma inPalette_of_picked {p : Vector2} {m : ColorHexMap} (h : picked p = some m) :
    InPalette m := by
  obtain ⟨k, hk⟩ := List.lookup_eq_some_iff.mp h
  obtain ⟨l₂, he, -⟩ := hk
  rw [InPalette, he]
  simp

/-- Only a click on a colour changes the text of the colour. -/
lemma carColor_step (hs : ClientStep c a c') : c'.carColor = c.chosen a := by
  cases hs with
  | posFront | guiFront =>
    obtain ⟨pc, -, hc⟩ := exists_endBlock c _ _
    rw [hc]
    rfl
  | keys pressed =>
    obtain ⟨X, Y, move, -, hc⟩ := steered_keys c pressed
    rw [hc]
    rfl
  | mouse color send ready => cases color <;> cases send <;> rfl
  | move ready =>
    simp only [Client.sendMove]
    split_ifs <;> rfl
  | typing textmessage enter => cases enter <;> rfl
  | text ready =>
    simp only [Client.sendText]
    split_ifs <;> rfl
  | _ => rfl

lemma Sprayed.start (uuid : UuidV4) : Sprayed (Painter.start uuid) where
  palette := (by decide : InPalette defaultCarColor)
  hexString := rfl
  matched := rfl

theorem Sprayed.step (h : Sprayed s) (hs : s.step x = some s') : Sprayed s' := by
  obtain ⟨a, p⟩ := x
  rw [Painter.step] at hs
  dsimp only at hs
  split at hs
  · rename_i color send ready
    obtain ⟨hcolor, hs⟩ := Option.ite_none_right_eq_some.mp hs
    obtain ⟨c, hc, rfl⟩ := Option.map_eq_some_iff.mp hs
    have hstep := clientStep_of_step hc
    have hmatched := hstep.matched h.matched
    have hcar := carColor_step hstep
    rw [Client.chosen] at hcar
    cases hp : p.bind picked with
    | none =>
      rw [hp] at hcolor
      obtain rfl := Option.map_eq_none_iff.mp hcolor
      refine ⟨h.palette, ?_, hmatched⟩
      dsimp only
      rw [hcar]
      exact h.hexString
    | some m =>
      -- the text that is sent and that of the value are both in the tables
      rw [hp] at hcolor
      obtain ⟨k, rfl, hk⟩ := Option.map_eq_some_iff.mp hcolor
      obtain ⟨q, rfl, hq⟩ := Option.bind_eq_some_iff.mp hp
      have hpalette := inPalette_of_picked hq
      dsimp only
      rw [(tables_agree hpalette).1]
      refine ⟨hpalette, ?_, hmatched⟩
      dsimp only
      rw [hcar]
      exact hk.symm
  · rename_i hno
    obtain ⟨c, hc, rfl⟩ := Option.map_eq_some_iff.mp hs
    have hstep := clientStep_of_step hc
    have hcar : c.carColor = s.client.carColor := by
      have hcar := carColor_step hstep
      cases a with
      | mouse color send ready => exact absurd rfl (hno color send ready)
      | _ => exact hcar
    refine ⟨h.palette, ?_, hstep.matched h.matched⟩
    dsimp only
    rw [hcar]
    exact h.hexString

/-- **One's own colour.**  In every run, whatever the player clicks, the value in which a client
draws its own car is the one in which the others draw the colour that its session sends; and the
text of this colour is the one in which the lines of its own texts are written, too. -/
theorem own_color_agrees {uuid : UuidV4} {l : List (Painter × ClientAct × Option Vector2)}
    (h : (painter uuid).Exec l s) :
    colorHexToString s.client.session.currColor.text = s.carColor.hexValue ∧
      s.client.session.currColor.text = s.carColor.hexString ∧
      s.carColor.hexString = s.client.carColor.text := by
  have hsprayed : Sprayed s := h.invariant (Sprayed.start uuid) fun _ _ _ hs hstep => hs.step hstep
  have htext : s.client.session.currColor.text = s.carColor.hexString := by
    rw [hsprayed.matched, hsprayed.hexString]
  refine ⟨?_, htext, hsprayed.hexString⟩
  rw [htext]
  exact (tables_agree hsprayed.palette).2

end

def magenta : HexColor := ⟨"FF00FF".toList, by decide, by decide⟩

/-- The player clicks on the fourth square. -/
def spraying : List (ClientAct × Option Vector2) :=
  [(.posEmpty, none), (.guiEmpty, none), (.keys ⟨false, false, false, false⟩, none),
    (.mouse (some magenta) false false, some ⟨1025, 761⟩)]

lemma spraying_runs : ((painter someUuid).run (painter someUuid).init spraying).isSome := by
  decide +kernel

@[irreducible] def sprayedPainter :
    List (Painter × ClientAct × Option Vector2) × Painter :=
  ((painter someUuid).run (painter someUuid).init spraying).get spraying_runs

theorem own_color_agrees_spraying :
    colorHexToString sprayedPainter.2.client.session.currColor.text = -16711681 ∧
      sprayedPainter.2.client.session.currColor.text = sprayedPainter.2.client.carColor.text := by
  have hexec : (painter someUuid).Exec sprayedPainter.1 sprayedPainter.2 := by
    unfold sprayedPainter
    exact exec_get_run spraying_runs
  have hvalue : sprayedPainter.2.carColor.hexValue = -16711681 := by
    decide +kernel
  obtain ⟨hdrawn, htext, hline⟩ := own_color_agrees hexec
  exact ⟨by rw [hdrawn, hvalue], htext.trans hline⟩

end MultiplayerCars.CPPClient
