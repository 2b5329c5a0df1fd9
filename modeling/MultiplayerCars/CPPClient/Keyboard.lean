import Mathlib.Data.List.OfFn
import MultiplayerCars.CPPClient.Client

/-!
# The text field

The main loop keeps what is typed in an array of `MAX_INPUT_CHARS + 1` characters, with a count of
the letters in it, and edits both by hand.  Here the array is an array and the count an `int`: a
write outside of the array, and a string that is read from an array without a terminator, have no
result.  Whatever is typed, pressed and clicked, the count stays within its bounds, the terminator
stands right after the letters, and no such access happens.
-/

namespace MultiplayerCars.CPPClient

open Lib Lib.Json Lib.Machine

/-- The terminator of a string. -/
def nul : Char := Char.ofNat 0

/-- The variables of the main loop for the text field, and the texts that it has put on display and
sent, newest first. -/
structure ChatInput where
  textmessage : Fin (maxInputChars + 1) → Char
  letterCount : ℤ
  mouseOnText : Bool
  text : Bool
  shown : List Text
  sent : List Text

/-- What the player does in a frame: a click, which may be on the chat box and on the send button,
the values that `windowGetCharPressed` returns one after the other, and the two keys. -/
structure Input where
  click : Bool
  chatBox : Bool
  sendButton : Bool
  chars : List ℤ
  backSpace : Bool
  enter : Bool
deriving DecidableEq, Repr

namespace ChatInput

def start : ChatInput := ⟨fun _ => nul, 0, false, false, [], []⟩

/-- `textmessage[i] = c`. -/
def write (s : ChatInput) (i : ℤ) (c : Char) : Option ChatInput :=
  if h : 0 ≤ i ∧ i ≤ maxInputChars then
    some { s with textmessage := Function.update s.textmessage ⟨i.toNat, by omega⟩ c }
  else none

/-- `std::string(textmessage)`: the characters before the first terminator. -/
def toStdString (s : ChatInput) : Option Text :=
  let chars := List.ofFn s.textmessage
  if nul ∈ chars then some (chars.takeWhile (· ≠ nul)) else none

/-- What the loop over the characters does with one of them. -/
def putChar (s : ChatInput) (key : ℤ) : Option ChatInput :=
  if 32 ≤ key ∧ key ≤ 125 ∧ s.letterCount < maxInputChars then do
    let s₁ ← s.write s.letterCount (Char.ofNat key.toNat)
    let s₂ ← s₁.write (s.letterCount + 1) nul
    some { s₂ with letterCount := s.letterCount + 1 }
  else some s

/-- The loop over the characters, which ends with the first value that is not positive. -/
def putChars (s : ChatInput) : List ℤ → Option ChatInput
  | [] => some s
  | key :: keys => if 0 < key then (s.putChar key).bind fun s' => s'.putChars keys else some s

def backSpace (s : ChatInput) : Option ChatInput :=
  let letterCount := if s.letterCount - 1 < 0 then 0 else s.letterCount - 1
  { s with letterCount := letterCount }.write letterCount nul

/-- Show one's own text, before it is sent. -/
def echo (s : ChatInput) : Option ChatInput :=
  s.toStdString.map fun t => { s with text := true, shown := t :: s.shown }

def mouse (s : ChatInput) (i : Input) : Option ChatInput :=
  if i.click then
    let s₁ : ChatInput := { s with mouseOnText := i.chatBox }
    if i.sendButton then s₁.echo else some s₁
  else some s

def typing (s : ChatInput) (i : Input) : Option ChatInput :=
  if s.mouseOnText then
    (s.putChars i.chars).bind fun s₁ =>
      (if i.backSpace then s₁.backSpace else some s₁).bind fun s₂ =>
        if i.enter then s₂.echo else some s₂
  else some s

def sendText (s : ChatInput) : Option ChatInput :=
  if s.text then
    s.toStdString.map fun t => { s with text := false, sent := t :: s.sent }
  else some s

/-- One frame. -/
def frame (s : ChatInput) (i : Input) : Option ChatInput := do
  let s₁ ← s.mouse i
  let s₂ ← s₁.typing i
  s₂.sendText

end ChatInput

/-- The text field from frame to frame. -/
def chatInput : Machine ChatInput Input where
  init := ChatInput.start
  step := ChatInput.frame

/-- The letters and their count are within bounds, the terminator stands after them, and all that
was shown and sent is a text that can be typed. -/
structure InBounds (s : ChatInput) : Prop where
  nonneg : 0 ≤ s.letterCount
  le : s.letterCount ≤ maxInputChars
  terminated : ∀ i : Fin (maxInputChars + 1), (i : ℤ) = s.letterCount → s.textmessage i = nul
  typed : ∀ i : Fin (maxInputChars + 1), (i : ℤ) < s.letterCount →
    32 ≤ (s.textmessage i).toNat ∧ (s.textmessage i).toNat ≤ 125
  used : ∀ t ∈ s.shown ++ s.sent, ∃ typed : TypedText, typed.text = t

/-! ### The array -/

lemma ChatInput.write_of_le (s : ChatInput) {i : ℤ} (h₀ : 0 ≤ i) (h₁ : i ≤ maxInputChars)
    (c : Char) : ∃ s', s.write i c = some s' ∧ s'.letterCount = s.letterCount ∧
      s'.mouseOnText = s.mouseOnText ∧ s'.text = s.text ∧ s'.shown = s.shown ∧ s'.sent = s.sent ∧
      ∀ j : Fin (maxInputChars + 1),
        s'.textmessage j = if (j : ℤ) = i then c else s.textmessage j := by
  refine ⟨_, dif_pos ⟨h₀, h₁⟩, rfl, rfl, rfl, rfl, rfl, fun j => ?_⟩
  show Function.update s.textmessage _ c j = _
  rw [Function.update_apply]
  have hj : j = ⟨i.toNat, by omega⟩ ↔ (j : ℤ) = i := by
    rw [Fin.ext_iff]
    show (j : ℕ) = i.toNat ↔ (j : ℤ) = i
    omega
  simp only [hj]

/-- A text up to its first terminator. -/
lemma takeWhile_of_nul {l : Text} {n : ℕ} (hn : l[n]? = some nul)
    (hl : ∀ c ∈ l.take n, c ≠ nul) : l.takeWhile (· ≠ nul) = l.take n := by
  obtain ⟨hlt, hget⟩ := List.getElem?_eq_some_iff.mp hn
  have hall : ∀ c ∈ l.take n, decide (c ≠ nul) := fun c hc => decide_eq_true (hl c hc)
  have hsplit : l = l.take n ++ nul :: l.drop (n + 1) := by
    rw [← hget, ← List.drop_eq_getElem_cons hlt, List.take_append_drop]
  rw [hsplit, List.takeWhile_append_of_pos hall, ← hsplit]
  simp

/-- The string in the array has as many characters as there are letters, and is one that can be
typed. -/
theorem InBounds.toStdString {s : ChatInput} (h : InBounds s) :
    ∃ t : TypedText, s.toStdString = some t.text ∧ (t.text.length : ℤ) = s.letterCount := by
  obtain ⟨n, hn⟩ := Int.eq_ofNat_of_zero_le h.nonneg
  have hle : n ≤ maxInputChars := by
    have hle := h.le
    omega
  generalize hl : List.ofFn s.textmessage = l
  have hlength : l.length = maxInputChars + 1 := by
    rw [← hl, List.length_ofFn]
  have hnul : l[n]? = some nul := by
    rw [← hl, List.getElem?_eq_getElem (by rw [List.length_ofFn]; omega), List.getElem_ofFn,
      h.terminated _ (by simp [hn])]
  have hrange : ∀ c ∈ l.take n, 32 ≤ c.toNat ∧ c.toNat ≤ 125 := by
    intro c hc
    obtain ⟨i, hi, rfl⟩ := List.mem_take_iff_getElem.mp hc
    subst hl
    rw [List.getElem_ofFn]
    refine h.typed _ ?_
    rw [hn]
    simp only [Nat.cast_lt]
    omega
  have hstring : s.toStdString = some (l.take n) := by
    have hmem : nul ∈ l := List.mem_of_getElem? hnul
    rw [ChatInput.toStdString, hl, if_pos hmem, takeWhile_of_nul hnul]
    rintro c hc rfl
    exact absurd (hrange nul hc).1 (by decide)
  have htake : (l.take n).length = n := by
    rw [List.length_take, hlength]
    omega
  refine ⟨⟨l.take n, by omega, List.all_eq_true.mpr fun c hc => ?_⟩, hstring, ?_⟩
  · simpa using hrange c hc
  · rw [htake, hn]

/-! ### What the player does -/

lemma InBounds.start : InBounds ChatInput.start where
  nonneg := le_rfl
  le := by decide
  terminated := fun _ _ => rfl
  typed := fun i hi => absurd hi (by show ¬ ((i : ℕ) : ℤ) < 0; omega)
  used := fun t ht => by simp [ChatInput.start] at ht

lemma InBounds.putChar {s : ChatInput} (h : InBounds s) (key : ℤ) :
    ∃ s', s.putChar key = some s' ∧ InBounds s' ∧ s'.text = s.text := by
  rw [ChatInput.putChar]
  split_ifs with hkey
  · obtain ⟨h₀, h₁, hlt⟩ := hkey
    have hn := h.nonneg
    obtain ⟨s₁, hs₁, -, -, htext₁, hsh₁, hse₁, ht₁⟩ :=
      s.write_of_le h.nonneg h.le (Char.ofNat key.toNat)
    obtain ⟨s₂, hs₂, -, -, htext₂, hsh₂, hse₂, ht₂⟩ :=
      s₁.write_of_le (i := s.letterCount + 1) (by omega) (by omega) nul
    refine ⟨{ s₂ with letterCount := s.letterCount + 1 }, by simp [hs₁, hs₂], ?_,
      htext₂.trans htext₁⟩
    refine ⟨by show 0 ≤ s.letterCount + 1; omega, by show s.letterCount + 1 ≤ _; omega,
      fun i hi => ?_, fun i hi => ?_, ?_⟩
    · show s₂.textmessage i = nul
      rw [ht₂, if_pos hi]
    · -- the new letter is the last one
      have hi' : (i : ℤ) < s.letterCount + 1 := hi
      show 32 ≤ (s₂.textmessage i).toNat ∧ (s₂.textmessage i).toNat ≤ 125
      rw [ht₂, if_neg (by omega), ht₁]
      by_cases he : (i : ℤ) = s.letterCount
      · have hvalid : key.toNat.isValidChar := Or.inl (by omega)
        have hchar : (Char.ofNat key.toNat).toNat = key.toNat := by
          rw [Char.ofNat, dif_pos hvalid]
          rfl
        rw [if_pos he, hchar]
        omega
      · rw [if_neg he]
        exact h.typed i (by omega)
    · show ∀ t ∈ s₂.shown ++ s₂.sent, _
      rw [hsh₂, hse₂, hsh₁, hse₁]
      exact h.used
  · exact ⟨s, rfl, h, rfl⟩

lemma InBounds.putChars {s : ChatInput} (h : InBounds s) (keys : List ℤ) :
    ∃ s', s.putChars keys = some s' ∧ InBounds s' ∧ s'.text = s.text := by
  induction keys generalizing s with
  | nil => exact ⟨s, rfl, h, rfl⟩
  | cons key keys ih =>
    rw [ChatInput.putChars]
    split_ifs with hkey
    · obtain ⟨s₁, hs₁, h₁, ht₁⟩ := h.putChar key
      obtain ⟨s₂, hs₂, h₂, ht₂⟩ := ih h₁
      exact ⟨s₂, by rw [hs₁, Option.bind_some, hs₂], h₂, ht₂.trans ht₁⟩
    · exact ⟨s, rfl, h, rfl⟩

lemma InBounds.backSpace {s : ChatInput} (h : InBounds s) :
    ∃ s', s.backSpace = some s' ∧ InBounds s' ∧ s'.text = s.text := by
  have hn := h.nonneg
  have hle := h.le
  rw [ChatInput.backSpace]
  generalize hc : (if s.letterCount - 1 < 0 then 0 else s.letterCount - 1) = letterCount
  have hbounds : 0 ≤ letterCount ∧ letterCount ≤ s.letterCount := by
    rw [← hc]
    split_ifs <;> omega
  obtain ⟨s₁, hs₁, hc₁, -, htext₁, hsh₁, hse₁, ht₁⟩ :=
    ChatInput.write_of_le { s with letterCount := letterCount } hbounds.1 (by omega) nul
  refine ⟨s₁, hs₁, ?_, htext₁⟩
  have hcount : s₁.letterCount = letterCount := hc₁
  refine ⟨by omega, by omega, fun i hi => ?_, fun i hi => ?_, ?_⟩
  · rw [ht₁, if_pos (by omega)]
  · rw [ht₁, if_neg (by omega)]
    exact h.typed i (by omega)
  · rw [hsh₁, hse₁]
    exact h.used

lemma InBounds.echo {s : ChatInput} (h : InBounds s) :
    ∃ s', s.echo = some s' ∧ InBounds s' ∧ s'.text = true ∧ s'.textmessage = s.textmessage := by
  obtain ⟨t, ht, -⟩ := h.toStdString
  refine ⟨{ s with text := true, shown := t.text :: s.shown }, ?_, ⟨h.nonneg, h.le, h.terminated,
    h.typed, ?_⟩, rfl, rfl⟩
  · rw [ChatInput.echo, ht, Option.map_some]
  · intro t' ht'
    rcases List.mem_cons.mp ht' with rfl | ht'
    · exact ⟨t, rfl⟩
    · exact h.used t' ht'

lemma InBounds.mouse {s : ChatInput} (h : InBounds s) (i : Input) :
    ∃ s', s.mouse i = some s' ∧ InBounds s' ∧
      s'.text = (s.text || i.click && i.sendButton) ∧ s'.textmessage = s.textmessage := by
  have h₁ : InBounds { s with mouseOnText := i.chatBox } :=
    ⟨h.nonneg, h.le, h.terminated, h.typed, h.used⟩
  rw [ChatInput.mouse]
  split_ifs with hclick hsend
  · obtain ⟨s₂, hs₂, h₂, ht₂, hm₂⟩ := h₁.echo
    exact ⟨s₂, hs₂, h₂, by simp [ht₂, hclick, hsend], hm₂⟩
  · exact ⟨_, rfl, h₁, by simp [hsend], rfl⟩
  · exact ⟨s, rfl, h, by simp [hclick], rfl⟩

lemma InBounds.typing {s : ChatInput} (h : InBounds s) (i : Input) :
    ∃ s', s.typing i = some s' ∧ InBounds s' ∧
      s'.text = (s.text || s.mouseOnText && i.enter) := by
  rw [ChatInput.typing]
  by_cases hmouse : s.mouseOnText
  · rw [if_pos hmouse]
    obtain ⟨s₁, hs₁, h₁, ht₁⟩ := h.putChars i.chars
    obtain ⟨s₂, hs₂, h₂, ht₂⟩ : ∃ s₂, (if i.backSpace then s₁.backSpace else some s₁) = some s₂ ∧
        InBounds s₂ ∧ s₂.text = s₁.text := by
      split_ifs
      · exact h₁.backSpace
      · exact ⟨s₁, rfl, h₁, rfl⟩
    obtain ⟨s₃, hs₃, h₃, ht₃⟩ : ∃ s₃, (if i.enter then s₂.echo else some s₂) = some s₃ ∧
        InBounds s₃ ∧ s₃.text = (s₂.text || i.enter) := by
      split_ifs with henter
      · obtain ⟨s₃, hs₃, h₃, ht₃, -⟩ := h₂.echo
        exact ⟨s₃, hs₃, h₃, by simp [ht₃, henter]⟩
      · exact ⟨s₂, rfl, h₂, by simp [henter]⟩
    refine ⟨s₃, by rw [hs₁, Option.bind_some, hs₂, Option.bind_some, hs₃], h₃, ?_⟩
    rw [ht₃, ht₂, ht₁, hmouse, Bool.true_and]
  · rw [if_neg hmouse]
    exact ⟨s, rfl, h, by simp [hmouse]⟩

lemma InBounds.sendText {s : ChatInput} (h : InBounds s) :
    ∃ s', s.sendText = some s' ∧ InBounds s' ∧ s'.text = false ∧
      s'.textmessage = s.textmessage := by
  rw [ChatInput.sendText]
  split_ifs with htext
  · obtain ⟨t, ht, -⟩ := h.toStdString
    refine ⟨{ s with text := false, sent := t.text :: s.sent }, ?_, ⟨h.nonneg, h.le,
      h.terminated, h.typed, ?_⟩, rfl, rfl⟩
    · rw [ht, Option.map_some]
    · intro t' ht'
      rcases List.mem_append.mp ht' with hshown | hsent
      · exact h.used t' (List.mem_append_left _ hshown)
      · rcases List.mem_cons.mp hsent with rfl | hsent
        · exact ⟨t, rfl⟩
        · exact h.used t' (List.mem_append_right _ hsent)
  · exact ⟨s, rfl, h, by simpa using htext, rfl⟩

/-- A frame makes no access outside of the array, and keeps the field within its bounds. -/
theorem InBounds.frame {s : ChatInput} (h : InBounds s) (i : Input) :
    ∃ s', s.frame i = some s' ∧ InBounds s' := by
  obtain ⟨s₁, hs₁, h₁, -⟩ := h.mouse i
  obtain ⟨s₂, hs₂, h₂, -⟩ := h₁.typing i
  obtain ⟨s₃, hs₃, h₃, -⟩ := h₂.sendText
  exact ⟨s₃, by simp [ChatInput.frame, hs₁, hs₂, hs₃], h₃⟩

/-- **The text field stays within its bounds**, in every frame of every run. -/
theorem inBounds_of_exec {l : List (ChatInput × Input)} {s : ChatInput} (h : chatInput.Exec l s) :
    InBounds s := by
  refine h.invariant InBounds.start fun s i s' hs hstep => ?_
  obtain ⟨s₁, hs₁, h₁⟩ := hs.frame i
  obtain rfl : s₁ = s' := Option.some.inj (hs₁.symm.trans hstep)
  exact h₁

/-! ### The field of a running client -/

/-- The client has the text of the field, and is to send it when the field says so. -/
structure Shows (s : ChatInput) (c : Client) : Prop where
  inBounds : InBounds s
  textmessage : s.toStdString = some c.textmessage.text
  text : s.text = c.text

lemma Shows.start (uuid : UuidV4) : Shows ChatInput.start (Client.start uuid) where
  inBounds := InBounds.start
  textmessage := by
    show ChatInput.start.toStdString = some []
    decide
  text := rfl

lemma toStdString_of_eq {s s' : ChatInput} (h : s'.textmessage = s.textmessage) :
    s'.toStdString = s.toStdString := by
  rw [ChatInput.toStdString, h, ChatInput.toStdString]

lemma mouse_text (c : Client) (color : Option HexColor) (send ready : Bool) :
    (c.mouse color send ready).text = (c.text || send) ∧
      (c.mouse color send ready).textmessage = c.textmessage := by
  cases color <;> cases send <;> simp [Client.mouse, Client.echo]

/-- A click is the client's block for the mouse. -/
theorem Shows.mouse {s : ChatInput} {c : Client} (h : Shows s c) (i : Input)
    (color : Option HexColor) (ready : Bool) : ∃ s', s.mouse i = some s' ∧
      Shows s' (c.mouse color (i.click && i.sendButton) ready) := by
  obtain ⟨s', hs', hin, ht, hm⟩ := h.inBounds.mouse i
  obtain ⟨htext, hmessage⟩ := mouse_text c color (i.click && i.sendButton) ready
  refine ⟨s', hs', hin, ?_, ?_⟩
  · rw [toStdString_of_eq hm, hmessage]
    exact h.textmessage
  · rw [ht, htext, h.text]

/-- What is typed is what the client's block for the keyboard leaves in the field. -/
theorem Shows.typing {s : ChatInput} {c : Client} (h : Shows s c) (i : Input) :
    ∃ s' typed, s.typing i = some s' ∧ Shows s' (c.typing typed (s.mouseOnText && i.enter)) := by
  obtain ⟨s', hs', hin, ht⟩ := h.inBounds.typing i
  obtain ⟨typed, htyped, -⟩ := hin.toStdString
  refine ⟨s', typed, hs', hin, ?_, ?_⟩
  · rw [htyped, Client.typing]
    split_ifs <;> rfl
  · rw [ht, h.text, Client.typing]
    cases s.mouseOnText && i.enter <;> simp [Client.echo]

/-- The text that the field sends is the client's. -/
theorem Shows.sendText {s : ChatInput} {c : Client} (h : Shows s c) (ready : Bool) :
    ∃ s', s.sendText = some s' ∧ Shows s' (c.sendText ready) := by
  obtain ⟨s', hs', hin, ht, hm⟩ := h.inBounds.sendText
  refine ⟨s', hs', hin, ?_, ?_⟩
  · rw [toStdString_of_eq hm, h.textmessage, Client.sendText]
    split_ifs <;> rfl
  · rw [ht, Client.sendText]
    split_ifs with htext
    · rfl
    · exact (Bool.eq_false_iff.mpr htext).symm

end MultiplayerCars.CPPClient
