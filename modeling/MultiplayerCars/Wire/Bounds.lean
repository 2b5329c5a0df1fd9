import MultiplayerCars.CPPClient.Keyboard
import MultiplayerCars.Wire.Codec

/-!
# From the keyboard to the wire

The session prints a position, a colour and a text into three arrays with `sprintf`, which checks
nothing.  What bounds them is spread over the program: a UUID has 36 characters, a colour six, an
`int` eleven at most, and the text field a hundred and five.  Together they leave room in the
arrays, and in the frames that the server reads.
-/

namespace MultiplayerCars.Wire

open Lib Lib.Json Lib.Machine CPPClient
open GoServer (byteLength readLimit)

/-- The size of `m_colorRawJson`. -/
def colorRawJsonSize : ℕ := 300

/-- The size of `m_textMsgRawJson`. -/
def textMsgRawJsonSize : ℕ := 300

/-- What `sprintf` writes, with its terminator, fits into an array, and the minified frame is within
the read limit of the server. -/
structure Fits (raw : Text) (size : ℕ) : Prop where
  array : byteLength raw + 1 ≤ size
  frame : byteLength (minify raw) ≤ readLimit

/-- The text has the length of a UUID. -/
def HasUuidLength (uuid : Text) : Prop := byteLength uuid = 36

/-! ### Minified frames are no longer -/

lemma byteLength_squeeze (m : Lex) (s : Text) : byteLength (squeeze m s) ≤ byteLength s := by
  induction s generalizing m with
  | nil => exact le_rfl
  | cons c s ih =>
    have hskip := ih .out
    have hkeep := ih (m.next c)
    rw [squeeze]
    split_ifs <;> simp only [byteLength, List.map_cons, List.sum_cons] at * <;> omega

lemma byteLength_minify {f : Text → Text} (hf : Minifies f) (s : Text) :
    byteLength (f s) ≤ byteLength s := by
  by_cases hs : Closed s
  · rw [hf.squeezes ⟨rfl, hs⟩]
    exact byteLength_squeeze .out s
  · rw [hf.unclosed hs]
    exact Nat.zero_le _

lemma Fits.of_le {raw : Text} {size : ℕ} (h : byteLength raw + 1 ≤ size) (hsize : size ≤ 300) :
    Fits raw size where
  array := h
  frame := by
    have hminify := byteLength_minify minifies_minify raw
    rw [readLimit]
    omega

/-! ### The three templates -/

lemma byteLength_showInt {i : ℤ} (h : IsInt i) : byteLength (showInt i) ≤ 11 := by
  rw [byteLength_of_ascii fun c hc => toNat_of_isNumChar (isNumChar_of_mem_showInt hc)]
  exact length_showInt h

theorem fits_posRawJson (color : HexColor) {uuid : Text} (hu : HasUuidLength uuid) {X Y : ℤ}
    (hX : IsInt X) (hY : IsInt Y) : Fits (posRawJson color.text uuid X Y) posRawJsonSize := by
  have htype : byteLength (showInt eventPositionMessage) = 1 := by decide
  have hbtype : byteLength (showInt bEventPositionUpdateMessage) = 1 := by decide
  have h₁ : byteLength " \x7b \"Type\": ".toList = 11 := by decide
  have h₂ : byteLength " , \"Payload\": \x7b \"Color\": \"".toList = 26 := by decide
  have h₃ : byteLength "\", \"Type\": ".toList = 11 := by decide
  have h₄ : byteLength ", \"UUID\": \"".toList = 11 := by decide
  have h₅ : byteLength "\", \"X\": ".toList = 8 := by decide
  have h₆ : byteLength ", \"Y\": ".toList = 7 := by decide
  have h₇ : byteLength " \x7d \x7d ".toList = 5 := by decide
  have hx := byteLength_showInt hX
  have hy := byteLength_showInt hY
  refine Fits.of_le ?_ le_rfl
  unfold HasUuidLength at hu
  unfold posRawJson posRawJsonSize
  simp only [byteLength_append, byteLength_color, htype, hbtype, hu, h₁, h₂, h₃, h₄, h₅, h₆, h₇]
  omega

theorem fits_colorRawJson (color : HexColor) :
    Fits (colorRawJson color.text) colorRawJsonSize := by
  have htype : byteLength (showInt eventColorUpdateMessage) = 1 := by decide
  have h₁ : byteLength " \x7b \"Type\": ".toList = 11 := by decide
  have h₂ : byteLength " , \"Payload\": \x7b \"Color\": \"".toList = 26 := by decide
  have h₃ : byteLength "\" \x7d \x7d ".toList = 6 := by decide
  refine Fits.of_le ?_ le_rfl
  unfold colorRawJson colorRawJsonSize
  simp only [byteLength_append, byteLength_color, htype, h₁, h₂, h₃]
  omega

theorem fits_textMsgRawJson (color : HexColor) {fromUUID toUUID : Text}
    (hfrom : HasUuidLength fromUUID) (hto : toUUID = [] ∨ HasUuidLength toUUID) (t : TypedText)
    (global : Bool) :
    Fits (textMsgRawJson color.text fromUUID toUUID t.text global) textMsgRawJsonSize := by
  have htype : byteLength (showInt eventTextUpdateMessage) = 1 := by decide
  have h₁ : byteLength " \x7b \"Type\": ".toList = 11 := by decide
  have h₂ : byteLength " , \"Payload\": \x7b \"Color\": \"".toList = 26 := by decide
  have h₃ : byteLength "\", \"FromUUID\": \"".toList = 16 := by decide
  have h₄ : byteLength "\", \"ToUUID\": \"".toList = 14 := by decide
  have h₅ : byteLength "\", \"Text\": \"".toList = 12 := by decide
  have htail : byteLength (textMsgTail global) ≤ 23 := by cases global <;> decide
  have hto' : byteLength toUUID ≤ 36 := by
    rcases hto with rfl | hto
    · exact Nat.zero_le _
    · exact hto.le
  have ht := byteLength_typedText t
  refine Fits.of_le ?_ le_rfl
  unfold HasUuidLength at hfrom
  unfold textMsgRawJson textMsgHead textMsgRawJsonSize
  simp only [byteLength_append, byteLength_color, htype, hfrom, h₁, h₂, h₃, h₄, h₅]
  omega

/-! ### Every run -/

/-- **From the keyboard to the wire.**  In every run of the main loop the text field is within its
bounds and the next frame, whatever the player does, makes no access outside of it; the string in it
has as many characters as there are letters; and whatever text of this kind, coordinates, UUIDs and
colour the session prints, the three templates fit into their arrays and their frames into the read
limit of the server. -/
theorem keyboard_to_wire {l : List (ChatInput × Input)} {s : ChatInput}
    (h : chatInput.Exec l s) :
    InBounds s ∧ (∀ i, (s.frame i).isSome) ∧
      (∃ t : TypedText, s.toStdString = some t.text ∧ (t.text.length : ℤ) = s.letterCount) ∧
      ∀ (color : HexColor) (uuid toUUID : Text) (t : TypedText) (global : Bool) (X Y : ℤ),
        HasUuidLength uuid → (toUUID = [] ∨ HasUuidLength toUUID) → IsInt X → IsInt Y →
          Fits (posRawJson color.text uuid X Y) posRawJsonSize ∧
          Fits (colorRawJson color.text) colorRawJsonSize ∧
          Fits (textMsgRawJson color.text uuid toUUID t.text global) textMsgRawJsonSize := by
  have hin := inBounds_of_exec h
  refine ⟨hin, fun i => ?_, hin.toStdString, ?_⟩
  · obtain ⟨s', hs', -⟩ := hin.frame i
    rw [hs']
    rfl
  · intro color uuid toUUID t global X Y hu hto hX hY
    exact ⟨fits_posRawJson color hu hX hY, fits_colorRawJson color,
      fits_textMsgRawJson color hu hto t global⟩

/-- A click on the chat box, the letters of a word and Enter; a backspace in the next frame. -/
def wordTyped : List Input :=
  [⟨true, true, false, [72, 105, 0], false, true⟩, ⟨false, false, false, [], true, false⟩]

lemma wordTyped_runs : (chatInput.run chatInput.init wordTyped).isSome := by
  decide

def wordTypedRun : List (ChatInput × Input) × ChatInput :=
  (chatInput.run chatInput.init wordTyped).get wordTyped_runs

theorem keyboard_to_wire_wordTyped :
    InBounds wordTypedRun.2 ∧ (∀ i, (wordTypedRun.2.frame i).isSome) ∧
      (∃ t : TypedText, wordTypedRun.2.toStdString = some t.text ∧
        (t.text.length : ℤ) = wordTypedRun.2.letterCount) ∧
      ∀ (color : HexColor) (uuid toUUID : Text) (t : TypedText) (global : Bool) (X Y : ℤ),
        HasUuidLength uuid → (toUUID = [] ∨ HasUuidLength toUUID) → IsInt X → IsInt Y →
          Fits (posRawJson color.text uuid X Y) posRawJsonSize ∧
          Fits (colorRawJson color.text) colorRawJsonSize ∧
          Fits (textMsgRawJson color.text uuid toUUID t.text global) textMsgRawJsonSize :=
  keyboard_to_wire (exec_get_run wordTyped_runs)

example : wordTypedRun.2.sent = ["Hi".toList] ∧ wordTypedRun.2.toStdString = some ['H'] := by
  decide

end MultiplayerCars.Wire
