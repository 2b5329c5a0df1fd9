import MultiplayerCars.Lib.Json.Object

/-!
# The events of the server, and their JSON texts

The structures of `event.go`, decoded and encoded as `encoding/json` does it.  Decoding matches
the keys of an object to the fields of a structure exactly or up to case, lets a later member
override an earlier one, leaves a field at its zero value where its key is absent or its value
is `null`, and fails on a value of the wrong type.  Encoding escapes what HTML gives a meaning
to, besides what JSON requires.
-/

namespace MultiplayerCars.GoServer

open Lib.Json

/-! ### The types of events -/

def eventPositionMessage : ℤ := 0
def eventColorUpdateMessage : ℤ := 1
def eventTextUpdateMessage : ℤ := 2
def eventPositionDebugMessage : ℤ := 20

def bEventTimeStampMessage : ℤ := 0
def bEventPositionUpdateMessage : ℤ := 1
def bEventColorUpdateMessage : ℤ := 2
def bEventExternalConnectionExitMessage : ℤ := 3
def bEventTextUpdateMessage : ℤ := 4

/-- A message that a client sends: `Payload` is a `json.RawMessage`, the bytes of the value as
they stand in the frame, empty where the key is absent. -/
structure Event where
  type : ℤ
  payload : Text
deriving DecidableEq, Repr

structure BroadcastEvent where
  bType : ℤ
  uuid : Text
  timeStamp : Text
  xPos : ℤ
  yPos : ℤ
  color : Text
deriving DecidableEq, Repr

structure BroadcastTextMessageEvent where
  bType : ℤ
  fromUUID : Text
  toUUID : Text
  color : Text
  text : Text
  timeStamp : Text
  global : Bool
deriving DecidableEq, Repr

structure ColorUpdateEvent where
  color : Text
deriving DecidableEq, Repr

structure TextUpdateEvent where
  fromUUID : Text
  toUUID : Text
  color : Text
  text : Text
  global : Bool
deriving DecidableEq, Repr

/-! ### Decoding -/

/-- The character that stands for a lone surrogate in a decoded string. -/
def replacementChar : Char := Char.ofNat 0xFFFD

/-- A key names a field when it equals the field's name up to case. -/
def matchesField (name : Text) (key : Text) : Bool :=
  (decodeStr (some replacementChar) key).map (·.map Char.toLower) == some (name.map Char.toLower)

/-- The value `null` in the text of a member. -/
def isNull (v : Text) : Bool := v == "null".toList

/-- Two to the power of 63, which bounds an `int`. -/
def intBound : ℤ := 9223372036854775808

/-- Decode a value into a field of type `int`. -/
def decodeInt (old : ℤ) (v : Text) : Option ℤ :=
  if isNull v then some old
  else (intOf v).filter fun i => decide (-intBound ≤ i ∧ i < intBound)

/-- Decode a value into a field of type `string`. -/
def decodeString (old : Text) (v : Text) : Option Text :=
  if isNull v then some old else (strLit v).bind (decodeStr (some replacementChar))

/-- Decode a value into a field of type `bool`. -/
def decodeBool (old : Bool) (v : Text) : Option Bool :=
  if isNull v then some old
  else if v = "true".toList then some true
  else if v = "false".toList then some false
  else none

/-- `json.Unmarshal` into a structure: `set` decodes one member into the structure.  The text
`null` leaves the structure as it is; any other text that is not an object is an error. -/
def unmarshal {α : Type} (zero : α) (set : α → Field → Option α) (s : Text) : Option α :=
  match parseObject s with
  | some fs => fs.foldlM set zero
  | none =>
    match dropWord "null".toList (skipWs s) with
    | some r => if skipWs r = [] then some zero else none
    | none => none

def Event.setField (e : Event) (f : Field) : Option Event :=
  if matchesField "Type".toList f.key then
    (decodeInt e.type f.value).map fun t => { e with type := t }
  else if matchesField "Payload".toList f.key then some { e with payload := f.value }
  else some e

def ColorUpdateEvent.setField (e : ColorUpdateEvent) (f : Field) : Option ColorUpdateEvent :=
  if matchesField "Color".toList f.key then
    (decodeString e.color f.value).map fun c => { e with color := c }
  else some e

def TextUpdateEvent.setField (e : TextUpdateEvent) (f : Field) : Option TextUpdateEvent :=
  if matchesField "FromUUID".toList f.key then
    (decodeString e.fromUUID f.value).map fun t => { e with fromUUID := t }
  else if matchesField "ToUUID".toList f.key then
    (decodeString e.toUUID f.value).map fun t => { e with toUUID := t }
  else if matchesField "Color".toList f.key then
    (decodeString e.color f.value).map fun t => { e with color := t }
  else if matchesField "Text".toList f.key then
    (decodeString e.text f.value).map fun t => { e with text := t }
  else if matchesField "Global".toList f.key then
    (decodeBool e.global f.value).map fun b => { e with global := b }
  else some e

def unmarshalEvent : Text → Option Event := unmarshal ⟨0, []⟩ Event.setField

def unmarshalColorUpdateEvent : Text → Option ColorUpdateEvent :=
  unmarshal ⟨[]⟩ ColorUpdateEvent.setField

def unmarshalTextUpdateEvent : Text → Option TextUpdateEvent :=
  unmarshal ⟨[], [], [], [], false⟩ TextUpdateEvent.setField

/-! ### Encoding -/

/-- A hexadecimal digit. -/
def hexDigit (n : ℕ) : Char := if n < 10 then Char.ofNat (48 + n) else Char.ofNat (87 + n)

/-- The escape `\u` of a character below `2 ^ 16`. -/
def unicodeEscape (n : ℕ) : Text :=
  ['\\', 'u', hexDigit (n / 4096 % 16), hexDigit (n / 256 % 16), hexDigit (n / 16 % 16),
    hexDigit (n % 16)]

/-- The text of a character inside an encoded string. -/
def escapeChar (c : Char) : Text :=
  if c = '"' ∨ c = '\\' then ['\\', c]
  else if c = '\n' then ['\\', 'n']
  else if c = '\r' then ['\\', 'r']
  else if c = '\t' then ['\\', 't']
  else if c.toNat < 0x20 ∨ c = '<' ∨ c = '>' ∨ c = '&' ∨ c.toNat = 0x2028 ∨ c.toNat = 0x2029 then
    unicodeEscape c.toNat
  else [c]

/-- The raw literal of an encoded string. -/
def encodeString (s : Text) : Text := s.flatMap escapeChar

/-- The text of a boolean. -/
def encodeBool (b : Bool) : Text := if b then "true".toList else "false".toList

/-- The members of an encoded `BroadcastEvent`. -/
def BroadcastEvent.fields (e : BroadcastEvent) : List Field :=
  [⟨"Type".toList, showInt e.bType⟩,
    ⟨"UUID".toList, quote (encodeString e.uuid)⟩,
    ⟨"TimeStamp".toList, quote (encodeString e.timeStamp)⟩,
    ⟨"X".toList, showInt e.xPos⟩,
    ⟨"Y".toList, showInt e.yPos⟩,
    ⟨"Color".toList, quote (encodeString e.color)⟩]

/-- `json.Marshal` of a `BroadcastEvent`; it cannot fail. -/
def BroadcastEvent.marshal (e : BroadcastEvent) : Text := printObject e.fields

/-- The members of an encoded `BroadcastTextMessageEvent`. -/
def BroadcastTextMessageEvent.fields (e : BroadcastTextMessageEvent) : List Field :=
  [⟨"Type".toList, showInt e.bType⟩,
    ⟨"FromUUID".toList, quote (encodeString e.fromUUID)⟩,
    ⟨"ToUUID".toList, quote (encodeString e.toUUID)⟩,
    ⟨"Color".toList, quote (encodeString e.color)⟩,
    ⟨"Text".toList, quote (encodeString e.text)⟩,
    ⟨"TimeStamp".toList, quote (encodeString e.timeStamp)⟩,
    ⟨"Global".toList, encodeBool e.global⟩]

/-- `json.Marshal` of a `BroadcastTextMessageEvent`; it cannot fail. -/
def BroadcastTextMessageEvent.marshal (e : BroadcastTextMessageEvent) : Text :=
  printObject e.fields

/-! ### Encoded strings read back -/

lemma hexVal_hexDigit {n : ℕ} (hn : n < 16) : hexVal (hexDigit n) = some n := by
  have : ∀ k : Fin 16, hexVal (hexDigit k) = some (k : ℕ) := by decide
  exact this ⟨n, hn⟩

lemma units_unicodeEscape {n : ℕ} (hn : n < 0x10000) (r : Text) :
    units .plain (unicodeEscape n ++ r) = (units .plain r).map (.unit n :: ·) := by
  have h₁ := hexVal_hexDigit (n := n / 4096 % 16) (by omega)
  have h₂ := hexVal_hexDigit (n := n / 256 % 16) (by omega)
  have h₃ := hexVal_hexDigit (n := n / 16 % 16) (by omega)
  have h₄ := hexVal_hexDigit (n := n % 16) (by omega)
  have hval : 16 * (16 * (16 * (16 * 0 + n / 4096 % 16) + n / 256 % 16) + n / 16 % 16) + n % 16
      = n := by omega
  simp only [unicodeEscape, List.cons_append, List.nil_append, units, if_true, h₁, h₂, h₃, h₄,
    Option.bind_some, hval]

/-- The characters that are encoded as a `\u`. -/
lemma escapeChar_cases (c : Char) :
    (escapeChar c = unicodeEscape c.toNat ∧ (c.toNat < 0x80 ∨ c.toNat = 0x2028 ∨ c.toNat = 0x2029))
      ∨ (∃ d, escapeChar c = ['\\', d] ∧ shortEscape d = some c ∧ d ≠ 'u')
      ∨ (escapeChar c = [c] ∧ isPlain c) := by
  rw [escapeChar]
  split
  · rename_i h
    exact Or.inr (Or.inl ⟨c, rfl, by rcases h with rfl | rfl <;> decide,
      by rcases h with rfl | rfl <;> decide⟩)
  rename_i hq
  split
  · rename_i h
    exact Or.inr (Or.inl ⟨'n', rfl, by rw [h]; decide, by decide⟩)
  split
  · rename_i h
    exact Or.inr (Or.inl ⟨'r', rfl, by rw [h]; decide, by decide⟩)
  split
  · rename_i h
    exact Or.inr (Or.inl ⟨'t', rfl, by rw [h]; decide, by decide⟩)
  split
  · rename_i h
    refine Or.inl ⟨rfl, ?_⟩
    rcases h with h | rfl | rfl | rfl | h | h
    · omega
    · exact Or.inl (by decide)
    · exact Or.inl (by decide)
    · exact Or.inl (by decide)
    · exact Or.inr (Or.inl h)
    · exact Or.inr (Or.inr h)
  · rename_i h
    refine Or.inr (Or.inr ⟨rfl, ?_⟩)
    simp only [not_or] at hq h
    simp [isPlain, hq.1, hq.2]
    omega

/-- One encoded character is one unit, and the unit stands for the character. -/
lemma exists_escapeUnit (c : Char) : ∃ u : CodeUnit,
    (∀ r, units .plain (escapeChar c ++ r) = (units .plain r).map (u :: ·)) ∧
      ∀ lone us, combine lone none (u :: us) = (combine lone none us).map (c :: ·) := by
  rcases escapeChar_cases c with ⟨h, hc⟩ | ⟨d, h, hd, hu⟩ | ⟨h, hc⟩
  · refine ⟨.unit c.toNat, fun r => ?_, fun lone us => ?_⟩
    · rw [h]
      exact units_unicodeEscape (by omega) r
    · have hh : isHigh c.toNat = false := by
        simp only [isHigh, Bool.and_eq_false_iff, decide_eq_false_iff_not]
        omega
      have hl : isLow c.toNat = false := by
        simp only [isLow, Bool.and_eq_false_iff, decide_eq_false_iff_not]
        omega
      simp only [combine, hh, hl, Bool.false_eq_true, if_false, flushHigh, Char.ofNat_toNat]
      cases combine lone none us <;> rfl
  · refine ⟨.char c, fun r => ?_, fun lone us => ?_⟩
    · simp [h, units, hu, hd]
    · simp only [combine, flushHigh]
      cases combine lone none us <;> rfl
  · refine ⟨.char c, fun r => ?_, fun lone us => ?_⟩
    · simp only [isPlain, Bool.and_eq_true, bne_iff_ne, ne_eq, decide_eq_true_eq] at hc
      obtain ⟨⟨-, hb⟩, hlow⟩ := hc
      simp only [h, List.cons_append, List.nil_append, units, if_neg hb]
      rw [if_neg (by omega)]
    · simp only [combine, flushHigh]
      cases combine lone none us <;> rfl

lemma splitLit_escapeChar (c : Char) (r : Text) :
    splitLit false (escapeChar c ++ r)
      = (splitLit false r).map fun x => (escapeChar c ++ x.1, x.2) := by
  rcases escapeChar_cases c with ⟨h, -⟩ | ⟨d, h, -, -⟩ | ⟨h, hc⟩
  · have hplain : ∀ n, n < 16 → isPlain (hexDigit n) := by
      intro n hn
      have : ∀ k : Fin 16, isPlain (hexDigit k) := by decide
      exact this ⟨n, hn⟩
    have htail : ∀ d ∈ [hexDigit (c.toNat / 4096 % 16), hexDigit (c.toNat / 256 % 16),
        hexDigit (c.toNat / 16 % 16), hexDigit (c.toNat % 16)], isPlain d := by
      intro d hd
      simp only [List.mem_cons, List.not_mem_nil, or_false] at hd
      rcases hd with rfl | rfl | rfl | rfl <;> exact hplain _ (by omega)
    have := splitLit_append_plain htail r
    simp only [List.cons_append, List.nil_append] at this
    simp only [h, unicodeEscape, List.cons_append, List.nil_append, splitLit_escape, this,
      Option.map_map, Function.comp_def]
  · simp only [h, List.cons_append, List.nil_append, splitLit_escape]
  · rw [h]
    exact splitLit_append_plain (k := [c]) (by simpa using hc) r

lemma units_encodeString (s : Text) : ∃ us, units .plain (encodeString s) = some us ∧
    ∀ lone, combine lone none us = some s := by
  induction s with
  | nil => exact ⟨[], rfl, fun _ => rfl⟩
  | cons c s ih =>
    obtain ⟨us, hus, hs⟩ := ih
    obtain ⟨u, hu, hc⟩ := exists_escapeUnit c
    refine ⟨u :: us, ?_, fun lone => ?_⟩
    · rw [encodeString, List.flatMap_cons, hu, ← encodeString, hus]
      rfl
    · rw [hc, hs lone]
      rfl

/-- An encoded string decodes to the string. -/
theorem decodeStr_encodeString (lone : Option Char) (s : Text) :
    decodeStr lone (encodeString s) = some s := by
  obtain ⟨us, hus, hs⟩ := units_encodeString s
  rw [decodeStr, hus, Option.bind_some, hs lone]

lemma splitLit_encodeString (s r : Text) :
    splitLit false (encodeString s ++ r)
      = (splitLit false r).map fun x => (encodeString s ++ x.1, x.2) := by
  induction s with
  | nil => simp [encodeString]
  | cons c s ih =>
    rw [encodeString, List.flatMap_cons, ← encodeString, List.append_assoc, splitLit_escapeChar, ih]
    simp [Option.map_map, Function.comp_def]

theorem isKey_encodeString (s : Text) : IsKey (encodeString s) := by
  intro r
  obtain ⟨us, hus, -⟩ := units_encodeString s
  rw [scanStr, splitLit_encodeString]
  simp [splitLit, hus]

lemma isValue_encodeString (s : Text) : IsValue (quote (encodeString s)) :=
  isValue_quote (isKey_encodeString s)

lemma isValue_encodeBool (b : Bool) : IsValue (encodeBool b) := by
  cases b with
  | true => exact isValue_true
  | false => exact isValue_false

lemma BroadcastEvent.fields_wf (e : BroadcastEvent) : ∀ f ∈ e.fields, f.WF := by
  intro f hf
  simp only [BroadcastEvent.fields, List.mem_cons, List.not_mem_nil, or_false] at hf
  rcases hf with rfl | rfl | rfl | rfl | rfl | rfl
  · exact Field.wf_of_plain (by decide) (isValue_showInt _)
  · exact Field.wf_of_plain (by decide) (isValue_encodeString _)
  · exact Field.wf_of_plain (by decide) (isValue_encodeString _)
  · exact Field.wf_of_plain (by decide) (isValue_showInt _)
  · exact Field.wf_of_plain (by decide) (isValue_showInt _)
  · exact Field.wf_of_plain (by decide) (isValue_encodeString _)

lemma BroadcastTextMessageEvent.fields_wf (e : BroadcastTextMessageEvent) :
    ∀ f ∈ e.fields, f.WF := by
  intro f hf
  simp only [BroadcastTextMessageEvent.fields, List.mem_cons, List.not_mem_nil, or_false] at hf
  rcases hf with rfl | rfl | rfl | rfl | rfl | rfl | rfl
  · exact Field.wf_of_plain (by decide) (isValue_showInt _)
  · exact Field.wf_of_plain (by decide) (isValue_encodeString _)
  · exact Field.wf_of_plain (by decide) (isValue_encodeString _)
  · exact Field.wf_of_plain (by decide) (isValue_encodeString _)
  · exact Field.wf_of_plain (by decide) (isValue_encodeString _)
  · exact Field.wf_of_plain (by decide) (isValue_encodeString _)
  · exact Field.wf_of_plain (by decide) (isValue_encodeBool _)

end MultiplayerCars.GoServer
