import Mathlib.Data.List.TakeWhile
import MultiplayerCars.CPPClient.Drawing

/-!
# A line of the chat

A text that is too wide for its line is cut.  The excess in pixels is divided by the width of the
letter "A", and as many characters are removed from the end, and one more.  The characters that are
removed need not be as wide as that letter; and when the others are wider, there can be fewer
characters than are to be removed, so that the length of what is left, which is unsigned, wraps
around.
-/

namespace MultiplayerCars.CPPClient

open Lib.Json

/-! ### Strings and their widths -/

/-- The bytes of a text, as a `std::string` holds them. -/
def utf8 (s : Text) : List UInt8 := s.flatMap String.utf8EncodeChar

/-- What is read at `c_str()`: the characters before the first terminator. -/
def cStr (s : List UInt8) : List UInt8 := s.takeWhile (· ≠ 0)

/-- The widths of the characters, at the size of the chat. -/
structure Font where
  width : UInt8 → ℕ
  pos : ∀ c, 0 < width c

namespace Font

/-- `MeasureText(s, 20)`. -/
def measureText (font : Font) (s : List UInt8) : ℕ := ((cStr s).map font.width).sum

/-- `MeasureText("A", 20)`. -/
def widthOfA (font : Font) : ℕ := font.measureText [65]

end Font

/-- The value of an integer as a `size_t`: one below zero wraps around. -/
def toSizeT (i : ℤ) : ℕ := if i < 0 then (i % 2 ^ 64).toNat else i.toNat

/-! ### `drawTextLine` -/

section DrawTextLine

variable (font : Font) (m_text : List UInt8)

def sizeUnits : ℤ := font.measureText m_text - 900

/-- The second argument of `substr`. -/
def substrLength : ℕ :=
  toSizeT (m_text.length - (sizeUnits font m_text).tdiv font.widthOfA - 1)

def truncText : List UInt8 := m_text.take (substrLength font m_text)

/-- The text that is drawn, with dots if it is cut. -/
def shownText : List UInt8 :=
  if sizeUnits font m_text < 0 then cStr m_text
  else cStr (truncText font m_text ++ utf8 "...".toList)

/-- The primitives with which a line is drawn. -/
inductive Shape
  | drawRectangle (posX posY width height color : ℤ)
  | drawText (text : List UInt8) (posX posY fontSize : ℤ)
deriving DecidableEq, Repr

/-- The line with the given index, counted from the bottom. -/
def drawTextLine (idx : ℕ) (context : TextContext) : List Shape :=
  let y := screenHeight - menuPanelHeight - chatPanelHeight + (100 - 25 * idx) + 1
  (match colorStringToHexValue.lookup context.colorStr with
    | some hexValue => [.drawRectangle (if context.leftSide then 125 else 1125) y 23 23 hexValue]
    | none => [])
    ++ [.drawText (shownText font (utf8 context.text)) 200 (y + 2) 20,
      .drawText (cStr (utf8 context.timestamp)) 1200 (y + 2) 20]

end DrawTextLine

/-! ### What is removed -/

section Truncation

variable {font : Font} {m_text : List UInt8}

/-- What `drawTextLine` relies on when it cuts a text: the length of what is left does not wrap, is
less than that of the text, and what is left is narrower than the line. -/
structure TruncationSound (font : Font) (m_text : List UInt8) : Prop where
  nonneg : 0 ≤ (m_text.length : ℤ) - (sizeUnits font m_text).tdiv font.widthOfA - 1
  lt : substrLength font m_text < m_text.length
  fits : font.measureText (truncText font m_text) < 900

/-- The width of a text beyond that of the line. -/
def excess (font : Font) (m_text : List UInt8) : ℕ := font.measureText m_text - 900

/-- The number of the characters that are to be removed. -/
def removed (font : Font) (m_text : List UInt8) : ℕ := excess font m_text / font.widthOfA + 1

/-- The width of the last `n` characters, as far as they are drawn. -/
def tailWidth (font : Font) (m_text : List UInt8) (n : ℕ) : ℕ :=
  (((cStr m_text).drop (m_text.length - n)).map font.width).sum

/-- The last `removed` characters fall short of as many letters "A" by less than what the division
has left over. -/
def RemovesEnough (font : Font) (m_text : List UInt8) : Prop :=
  removed font m_text * font.widthOfA < tailWidth font m_text (removed font m_text)
    + (font.widthOfA - excess font m_text % font.widthOfA)

lemma widthOfA_pos (font : Font) : 0 < font.widthOfA := by
  have hA : font.widthOfA = font.width 65 := by simp [Font.widthOfA, Font.measureText, cStr]
  rw [hA]
  exact font.pos 65

lemma excess_add (h : 900 ≤ font.measureText m_text) :
    excess font m_text + 900 = font.measureText m_text := Nat.sub_add_cancel h

lemma sizeUnits_tdiv (h : 900 ≤ font.measureText m_text) :
    (sizeUnits font m_text).tdiv font.widthOfA + 1 = removed font m_text := by
  have hexcess : sizeUnits font m_text = excess font m_text := by
    rw [sizeUnits, ← excess_add h]
    omega
  rw [hexcess, ← Int.ofNat_tdiv, removed]
  rfl

/-- The length of what is left, when there are as many characters as are to be removed. -/
lemma substrLength_of_le (h : 900 ≤ font.measureText m_text)
    (hle : removed font m_text ≤ m_text.length) :
    substrLength font m_text = m_text.length - removed font m_text := by
  have hq := sizeUnits_tdiv h
  rw [substrLength, toSizeT, if_neg (by omega)]
  omega

/-- A text is as wide as a prefix of it and what follows the prefix. -/
lemma measureText_take_add (font : Font) (m_text : List UInt8) (n : ℕ) :
    font.measureText (m_text.take n) + (((cStr m_text).drop n).map font.width).sum
      = font.measureText m_text := by
  rw [Font.measureText, Font.measureText, cStr, cStr, ← List.take_takeWhile, ← List.sum_append,
    ← List.map_append, List.take_append_drop]

/-- What is left is narrower than the line if what is removed is wider than the excess. -/
lemma fits_iff (h : 900 ≤ font.measureText m_text) (hle : removed font m_text ≤ m_text.length) :
    font.measureText (truncText font m_text) < 900 ↔
      excess font m_text < tailWidth font m_text (removed font m_text) := by
  have hsum := measureText_take_add font m_text (m_text.length - removed font m_text)
  have hexcess := excess_add h
  rw [truncText, substrLength_of_le h hle, tailWidth]
  omega

lemma removesEnough_iff : RemovesEnough font m_text ↔
    excess font m_text < tailWidth font m_text (removed font m_text) := by
  have hdiv := Nat.div_add_mod (excess font m_text) font.widthOfA
  have hmod := Nat.mod_lt (excess font m_text) (widthOfA_pos font)
  rw [RemovesEnough]
  generalize tailWidth font m_text (removed font m_text) = width
  rw [removed, Nat.add_mul, Nat.one_mul, Nat.mul_comm]
  omega

lemma removed_le_iff : removed font m_text ≤ m_text.length ↔
    excess font m_text < m_text.length * font.widthOfA := by
  rw [removed, Nat.succ_le_iff, Nat.div_lt_iff_lt_mul (widthOfA_pos font)]

lemma TruncationSound.of_removed (h : 900 ≤ font.measureText m_text)
    (hle : removed font m_text ≤ m_text.length)
    (hwide : excess font m_text < tailWidth font m_text (removed font m_text)) :
    TruncationSound font m_text := by
  have hq := sizeUnits_tdiv h
  have hpos : 0 < removed font m_text := Nat.succ_pos _
  refine ⟨by omega, ?_, (fits_iff h hle).mpr hwide⟩
  rw [substrLength_of_le h hle]
  omega

/-- **The cut, exactly.**  When a text is too wide for the line, the length of what is left does not
wrap, and what is left is narrower than the line, if and only if the excess is less than as many
letters "A" as there are characters, and those that are removed are, together, nearly as wide as as
many letters "A". -/
theorem truncation_sound_iff (font : Font) (m_text : List UInt8)
    (h : 900 ≤ font.measureText m_text) : TruncationSound font m_text ↔
      excess font m_text < m_text.length * font.widthOfA ∧ RemovesEnough font m_text := by
  rw [← removed_le_iff, removesEnough_iff]
  constructor
  · rintro ⟨hnonneg, -, hfits⟩
    have hq := sizeUnits_tdiv h
    have hle : removed font m_text ≤ m_text.length := by omega
    exact ⟨hle, (fits_iff h hle).mp hfits⟩
  · rintro ⟨hle, hwide⟩
    exact .of_removed h hle hwide

/-- In a font with one width for all, every text without a terminator in it is cut as it should. -/
theorem truncation_sound_of_monospaced {w : ℕ} (hw : ∀ c, font.width c = w)
    (hnul : ∀ c ∈ m_text, c ≠ 0) (h : 900 ≤ font.measureText m_text) :
    TruncationSound font m_text := by
  have hcStr : cStr m_text = m_text :=
    List.takeWhile_eq_self_iff.mpr fun c hc => decide_eq_true (hnul c hc)
  have hsum : ∀ s : List UInt8, (s.map font.width).sum = s.length * w := by
    intro s
    rw [show font.width = fun _ => w from funext hw, List.map_const', List.sum_replicate_nat]
  have hA : font.widthOfA = w := by
    rw [Font.widthOfA, Font.measureText, hsum]
    simp [cStr]
  have hlength : font.measureText m_text = m_text.length * w := by
    rw [Font.measureText, hcStr, hsum]
  have hexcess := excess_add h
  have hle : removed font m_text ≤ m_text.length := by
    rw [removed_le_iff, hA]
    omega
  refine .of_removed h hle (removesEnough_iff.mp ?_)
  have htail : tailWidth font m_text (removed font m_text) = removed font m_text * w := by
    rw [tailWidth, hsum, hcStr, List.length_drop, Nat.sub_sub_self hle]
  have hmod := Nat.mod_lt (excess font m_text) (widthOfA_pos font)
  rw [hA] at hmod
  rw [RemovesEnough, htail, hA]
  omega

/-! ### What is drawn -/

lemma measureText_cStr (s : List UInt8) : font.measureText (cStr s) = font.measureText s := by
  rw [Font.measureText, Font.measureText, cStr, cStr, List.takeWhile_idem]

lemma measureText_append_le (font : Font) (s t : List UInt8) :
    font.measureText (s ++ t) ≤ font.measureText s + font.measureText t := by
  simp only [Font.measureText, cStr, List.takeWhile_append]
  split_ifs with hs
  · have hself : s.takeWhile (· ≠ 0) = s := (List.takeWhile_prefix _).eq_of_length hs
    rw [hself, List.map_append, List.sum_append]
  · exact Nat.le_add_right _ _

/-- When texts are cut as they should, what is drawn at the place of the text is narrower than the
line and the dots. -/
theorem drawTextLine_fits {context : TextContext} {idx : ℕ} {text : List UInt8} {posY fontSize : ℤ}
    (h : 900 ≤ font.measureText (utf8 context.text) → TruncationSound font (utf8 context.text))
    (htext : .drawText text 200 posY fontSize ∈ drawTextLine font idx context) :
    font.measureText text < 900 + font.measureText (utf8 "...".toList) := by
  have hshown : text = shownText font (utf8 context.text) := by
    rcases List.mem_append.mp htext with hrectangle | htext
    · split at hrectangle <;> simp at hrectangle
    · rcases List.mem_pair.mp htext with he | he
      · exact (Shape.drawText.inj he).1
      · -- the other text is the time
        exact absurd (Shape.drawText.inj he).2.1 (by decide)
  rw [hshown, shownText]
  split_ifs with hshort
  · rw [measureText_cStr]
    rw [sizeUnits] at hshort
    omega
  · have hfits := (h (by rw [sizeUnits] at hshort; omega)).fits
    have happend := measureText_append_le font (truncText font (utf8 context.text))
      (utf8 "...".toList)
    rw [measureText_cStr]
    omega

end Truncation

/-! ### A text that stays too wide -/

/-- The W is wider, and the i narrower, than the other letters. -/
def proportionalFont : Font where
  width c := if c = 87 then 16 else if c = 105 then 4 else 12
  pos c := by split_ifs <;> decide

/-- Fifty times W, and then i. -/
def narrowEnd : TypedText where
  text := List.replicate 50 'W' ++ List.replicate 55 'i'
  length := by decide
  range := by decide +kernel

lemma narrowEnd_measure : 900 ≤ proportionalFont.measureText (utf8 narrowEnd.text) := by
  decide +kernel

/-- What is left of a text can be wider than the line. -/
theorem truncation_unsound : ¬ ∀ (font : Font) (t : TypedText),
    900 ≤ font.measureText (utf8 t.text) → TruncationSound font (utf8 t.text) := by
  intro h
  have hwide : ¬ proportionalFont.measureText (truncText proportionalFont (utf8 narrowEnd.text))
      < 900 := by
    decide +kernel
  exact hwide (h proportionalFont narrowEnd narrowEnd_measure).fits

theorem truncation_sound_iff_narrowEnd :
    TruncationSound proportionalFont (utf8 narrowEnd.text) ↔
      excess proportionalFont (utf8 narrowEnd.text)
          < (utf8 narrowEnd.text).length * proportionalFont.widthOfA ∧
        RemovesEnough proportionalFont (utf8 narrowEnd.text) :=
  truncation_sound_iff proportionalFont (utf8 narrowEnd.text) narrowEnd_measure

/-- Of many a W more are to be removed than there are. -/
example : 2 ^ 63 < substrLength proportionalFont (utf8 (List.replicate 230 'W')) := by
  decide +kernel

end MultiplayerCars.CPPClient
