import MultiplayerCars.Lib.Json.Literals

/-!
# The frames that a client sends

The three `sprintf` templates of `websocketSession.cpp`, and what `simdjson::minify` leaves of
them.  Colours and UUIDs go into the templates as they are; they are hexadecimal, so the frames
of positions and colours are the compact texts of JSON objects.  The text of a chat message goes
in as it was typed.
-/

namespace MultiplayerCars.CPPClient

open Lib.Json

/-! ### The types of messages -/

def eventPositionMessage : ℤ := 0
def eventColorUpdateMessage : ℤ := 1
def eventTextUpdateMessage : ℤ := 2
def eventPositionDebugMessage : ℤ := 20

def bEventTimeStampMessage : ℤ := 0
def bEventPositionUpdateMessage : ℤ := 1
def bEventColorUpdateMessage : ℤ := 2
def bEventExternalConnectionExitMessage : ℤ := 3
def bEventTextUpdateMessage : ℤ := 4
def bEventPositionDebugUpdateMessage : ℤ := 20

/-! ### Colours, UUIDs and typed texts -/

/-- A digit of `std::hex`. -/
def isLowerHex (c : Char) : Bool := ('0' ≤ c && c ≤ '9') || ('a' ≤ c && c ≤ 'f')

/-- A hexadecimal digit of either case. -/
def isHexDigit (c : Char) : Bool := isLowerHex c || ('A' ≤ c && c ≤ 'F')

/-- A colour, as a text of six hexadecimal digits. -/
structure HexColor where
  text : Text
  length : text.length = 6
  digits : text.all isHexDigit
deriving DecidableEq

/-- The digit that stands for the variant. -/
def isVariant (c : Char) : Bool := c == '8' || c == '9' || c == 'a' || c == 'b'

/-- The digits and separators that `generate_uuid_v4` writes. -/
def uuidPattern : List (Char → Bool) :=
  List.replicate 8 isLowerHex ++ [(· == '-')] ++ List.replicate 4 isLowerHex
    ++ [(· == '-'), (· == '4')] ++ List.replicate 3 isLowerHex
    ++ [(· == '-'), isVariant]
    ++ List.replicate 3 isLowerHex ++ [(· == '-')] ++ List.replicate 12 isLowerHex

/-- The text fits a pattern, character by character. -/
def fits : List (Char → Bool) → Text → Bool
  | [], [] => true
  | p :: ps, c :: s => p c && fits ps s
  | _, _ => false

/-- A UUID of version 4. -/
@[ext] structure UuidV4 where
  text : Text
  shape : fits uuidPattern text
deriving DecidableEq

/-- `MAX_INPUT_CHARS`. -/
def maxInputChars : ℕ := 105

/-- A text that the keyboard loop can put together. -/
structure TypedText where
  text : Text
  length : text.length ≤ maxInputChars
  range : text.all fun c => 32 ≤ c.toNat && c.toNat ≤ 125
deriving DecidableEq

lemma lt_of_isHexDigit {c : Char} (h : isHexDigit c) : c.toNat < 128 := by
  by_contra hge
  have hle : ∀ d : Char, d.toNat < 128 → ¬ c ≤ d := by
    intro d hd hcd
    have : c.toNat ≤ d.toNat := hcd
    omega
  simp [isHexDigit, isLowerHex, hle '9' (by decide), hle 'f' (by decide),
    hle 'F' (by decide)] at h

lemma isPlain_of_isHexDigit {c : Char} (h : isHexDigit c) : isPlain c := by
  have hrange : ∀ n : Fin 128, isHexDigit (Char.ofNat n) → isPlain (Char.ofNat n) := by decide
  have hc := hrange ⟨c.toNat, lt_of_isHexDigit h⟩
  simp only [Char.ofNat_toNat] at hc
  exact hc h

lemma HexColor.plain (k : HexColor) : k.text.all isPlain :=
  List.all_eq_true.mpr fun c hc => isPlain_of_isHexDigit (List.all_eq_true.mp k.digits c hc)

lemma exists_of_fits {ps : List (Char → Bool)} {s : Text} (h : fits ps s) :
    ∀ c ∈ s, ∃ p ∈ ps, p c := by
  induction ps generalizing s with
  | nil =>
    cases s with
    | nil => simp
    | cons c s => simp [fits] at h
  | cons p ps ih =>
    cases s with
    | nil => simp
    | cons c s =>
      simp only [fits, Bool.and_eq_true] at h
      intro d hd
      rcases List.mem_cons.mp hd with rfl | hd
      · exact ⟨p, by simp, h.1⟩
      · obtain ⟨q, hq, hqd⟩ := ih h.2 d hd
        exact ⟨q, by simp [hq], hqd⟩

lemma length_of_fits {ps : List (Char → Bool)} {s : Text} (h : fits ps s) :
    s.length = ps.length := by
  induction ps generalizing s with
  | nil =>
    cases s with
    | nil => rfl
    | cons c s => simp [fits] at h
  | cons p ps ih =>
    cases s with
    | nil => simp [fits] at h
    | cons c s =>
      simp only [fits, Bool.and_eq_true] at h
      rw [List.length_cons, List.length_cons, ih h.2]

/-- The characters of a UUID are hexadecimal digits and dashes. -/
lemma UuidV4.mem_cases (u : UuidV4) {c : Char} (hc : c ∈ u.text) : isHexDigit c ∨ c = '-' := by
  obtain ⟨p, hp, hpc⟩ := exists_of_fits u.shape c hc
  have hcases : p = isLowerHex ∨ p = (· == '-') ∨ p = (· == '4') ∨ p = isVariant := by
    simp only [uuidPattern, List.mem_append, List.mem_replicate, List.mem_cons, List.not_mem_nil,
      or_false] at hp
    tauto
  rcases hcases with rfl | rfl | rfl | rfl
  · exact Or.inl (by simp [isHexDigit, hpc])
  · exact Or.inr (beq_iff_eq.mp hpc)
  · rw [beq_iff_eq.mp hpc]
    exact Or.inl (by decide)
  · simp only [isVariant, Bool.or_eq_true, beq_iff_eq] at hpc
    rcases hpc with ((rfl | rfl) | rfl) | rfl <;> exact Or.inl (by decide)

lemma UuidV4.plain (u : UuidV4) : u.text.all isPlain := by
  refine List.all_eq_true.mpr fun c hc => ?_
  rcases u.mem_cases hc with h | rfl
  · exact isPlain_of_isHexDigit h
  · decide

lemma UuidV4.length (u : UuidV4) : u.text.length = 36 := length_of_fits u.shape

/-! ### The templates -/

/-- The template of `sendPosition`. -/
def posRawJson (color uuid : Text) (X Y : ℤ) : Text :=
  " \x7b \"Type\": ".toList ++ showInt eventPositionMessage
    ++ " , \"Payload\": \x7b \"Color\": \"".toList ++ color
    ++ "\", \"Type\": ".toList ++ showInt bEventPositionUpdateMessage
    ++ ", \"UUID\": \"".toList ++ uuid ++ "\", \"X\": ".toList ++ showInt X
    ++ ", \"Y\": ".toList ++ showInt Y ++ " \x7d \x7d ".toList

/-- The template of `sendColorUpdate`. -/
def colorRawJson (color : Text) : Text :=
  " \x7b \"Type\": ".toList ++ showInt eventColorUpdateMessage
    ++ " , \"Payload\": \x7b \"Color\": \"".toList ++ color ++ "\" \x7d \x7d ".toList

/-- The template of `sendTextMessage` up to the text. -/
def textMsgHead (color fromUUID toUUID : Text) : Text :=
  " \x7b \"Type\": ".toList ++ showInt eventTextUpdateMessage
    ++ " , \"Payload\": \x7b \"Color\": \"".toList ++ color
    ++ "\", \"FromUUID\": \"".toList ++ fromUUID ++ "\", \"ToUUID\": \"".toList ++ toUUID
    ++ "\", \"Text\": \"".toList

/-- The template of `sendTextMessage` after the text. -/
def textMsgTail (global : Bool) : Text :=
  "\", \"Global\": ".toList ++ (if global then "true".toList else "false".toList)
    ++ " \x7d \x7d ".toList

/-- The template of `sendTextMessage`. -/
def textMsgRawJson (color fromUUID toUUID text : Text) (global : Bool) : Text :=
  textMsgHead color fromUUID toUUID ++ text ++ textMsgTail global

/-- The frame of `sendPosition`. -/
def posFrame (color uuid : Text) (X Y : ℤ) : Text := minify (posRawJson color uuid X Y)

/-- The frame of `sendColorUpdate`. -/
def colorFrame (color : Text) : Text := minify (colorRawJson color)

/-- The frame of `sendTextMessage`. -/
def textMsgFrame (color fromUUID toUUID text : Text) (global : Bool) : Text :=
  minify (textMsgRawJson color fromUUID toUUID text global)

/-! ### The frames as objects -/

/-- The members of the payload of a position. -/
def posPayload (color uuid : Text) (X Y : ℤ) : List Field :=
  [⟨"Color".toList, quote color⟩, ⟨"Type".toList, showInt bEventPositionUpdateMessage⟩,
    ⟨"UUID".toList, quote uuid⟩, ⟨"X".toList, showInt X⟩, ⟨"Y".toList, showInt Y⟩]

/-- The members of the payload of a colour. -/
def colorPayload (color : Text) : List Field := [⟨"Color".toList, quote color⟩]

/-- The members of the payload of a text. -/
def textMsgPayload (color fromUUID toUUID text : Text) (global : Bool) : List Field :=
  [⟨"Color".toList, quote color⟩, ⟨"FromUUID".toList, quote fromUUID⟩,
    ⟨"ToUUID".toList, quote toUUID⟩, ⟨"Text".toList, quote text⟩,
    ⟨"Global".toList, if global then "true".toList else "false".toList⟩]

/-- The members of a frame. -/
def frameFields (type : ℤ) (payload : List Field) : List Field :=
  [⟨"Type".toList, showInt type⟩, ⟨"Payload".toList, printObject payload⟩]

/-- Plain text is left alone inside a literal. -/
lemma squeezes_plain {k : Text} (hk : k.all isPlain) : Squeezes .str k k .str := by
  refine squeezes_str fun c hc => ?_
  have hc' : isPlain c := List.all_eq_true.mp hk c hc
  simp only [isPlain, Bool.and_eq_true, bne_iff_ne, ne_eq] at hc'
  exact hc'.1

/-- The beginning that the three templates share. -/
lemma squeezes_rawHead (type : ℤ) :
    Squeezes .out (" \x7b \"Type\": ".toList ++ showInt type
        ++ " , \"Payload\": \x7b \"Color\": \"".toList)
      ("\x7b\"Type\":".toList ++ showInt type ++ ",\"Payload\":\x7b\"Color\":\"".toList) .str := by
  have h₁ : Squeezes .out " \x7b \"Type\": ".toList "\x7b\"Type\":".toList .out := by decide
  have h₂ : Squeezes .out " , \"Payload\": \x7b \"Color\": \"".toList
      ",\"Payload\":\x7b\"Color\":\"".toList .str := by decide
  exact (h₁.append (squeezes_showInt type)).append h₂

/-- The frame of a position, as it stands. -/
lemma posFrame_text {color uuid : Text} (hk : color.all isPlain) (hu : uuid.all isPlain)
    (X Y : ℤ) : posFrame color uuid X Y
      = "\x7b\"Type\":".toList ++ showInt eventPositionMessage
        ++ ",\"Payload\":\x7b\"Color\":\"".toList ++ color ++ "\",\"Type\":".toList
        ++ showInt bEventPositionUpdateMessage ++ ",\"UUID\":\"".toList ++ uuid
        ++ "\",\"X\":".toList ++ showInt X ++ ",\"Y\":".toList ++ showInt Y
        ++ "\x7d\x7d".toList := by
  have hType : Squeezes .str "\", \"Type\": ".toList "\",\"Type\":".toList .out := by decide
  have hUUID : Squeezes .out ", \"UUID\": \"".toList ",\"UUID\":\"".toList .str := by decide
  have hX : Squeezes .str "\", \"X\": ".toList "\",\"X\":".toList .out := by decide
  have hY : Squeezes .out ", \"Y\": ".toList ",\"Y\":".toList .out := by decide
  have hEnd : Squeezes .out " \x7d \x7d ".toList "\x7d\x7d".toList .out := by decide
  have hsq := ((((((((((squeezes_rawHead eventPositionMessage).append (squeezes_plain hk)).append
    hType).append (squeezes_showInt bEventPositionUpdateMessage)).append hUUID).append
    (squeezes_plain hu)).append hX).append (squeezes_showInt X)).append hY).append
    (squeezes_showInt Y)).append hEnd
  exact minifies_minify.squeezes hsq

theorem posFrame_eq {color uuid : Text} (hk : color.all isPlain) (hu : uuid.all isPlain)
    (X Y : ℤ) : posFrame color uuid X Y
      = printObject (frameFields eventPositionMessage (posPayload color uuid X Y)) := by
  rw [posFrame_text hk hu]
  simp [printObject, printMembers, frameFields, posPayload, quote]

theorem colorFrame_eq {color : Text} (hk : color.all isPlain) : colorFrame color
    = printObject (frameFields eventColorUpdateMessage (colorPayload color)) := by
  have hEnd : Squeezes .str "\" \x7d \x7d ".toList "\"\x7d\x7d".toList .out := by decide
  have hsq := ((squeezes_rawHead eventColorUpdateMessage).append (squeezes_plain hk)).append hEnd
  refine (minifies_minify.squeezes hsq).trans ?_
  simp [printObject, printMembers, frameFields, colorPayload, quote]

/-- The beginning of a text frame, up to the text. -/
def textMsgFront (color fromUUID toUUID : Text) : Text :=
  "\x7b\"Type\":".toList ++ showInt eventTextUpdateMessage
    ++ ",\"Payload\":\x7b\"Color\":\"".toList ++ color ++ "\",\"FromUUID\":\"".toList ++ fromUUID
    ++ "\",\"ToUUID\":\"".toList ++ toUUID ++ "\",\"Text\":\"".toList

/-- The end of a text frame, after the text. -/
def textMsgBack (global : Bool) : Text :=
  "\",\"Global\":".toList ++ (if global then "true".toList else "false".toList)
    ++ "\x7d\x7d".toList

lemma squeezes_textMsgHead {color fromUUID toUUID : Text} (hk : color.all isPlain)
    (hf : fromUUID.all isPlain) (ht : toUUID.all isPlain) :
    Squeezes .out (textMsgHead color fromUUID toUUID) (textMsgFront color fromUUID toUUID)
      .str := by
  have hFrom : Squeezes .str "\", \"FromUUID\": \"".toList "\",\"FromUUID\":\"".toList .str := by
    decide
  have hTo : Squeezes .str "\", \"ToUUID\": \"".toList "\",\"ToUUID\":\"".toList .str := by decide
  have hText : Squeezes .str "\", \"Text\": \"".toList "\",\"Text\":\"".toList .str := by decide
  exact ((((((squeezes_rawHead eventTextUpdateMessage).append (squeezes_plain hk)).append
    hFrom).append (squeezes_plain hf)).append hTo).append (squeezes_plain ht)).append hText

lemma squeezes_textMsgTail (global : Bool) :
    Squeezes .str (textMsgTail global) (textMsgBack global) .out := by
  cases global <;> decide

/-- A text that can stand between quotation marks makes a frame that is an object with that text in
it. -/
theorem textMsgFrame_eq {color fromUUID toUUID text : Text} (hk : color.all isPlain)
    (hf : fromUUID.all isPlain) (ht : toUUID.all isPlain) (htext : IsKey text)
    (global : Bool) : textMsgFrame color fromUUID toUUID text global
      = printObject (frameFields eventTextUpdateMessage
          (textMsgPayload color fromUUID toUUID text global)) := by
  have hsq := ((squeezes_textMsgHead hk hf ht).append (squeezes_key htext)).append
    (squeezes_textMsgTail global)
  refine (minifies_minify.squeezes hsq).trans ?_
  unfold textMsgFront textMsgBack
  simp [printObject, printMembers, frameFields, textMsgPayload, quote]

/-! ### The members of the frames are well formed -/

lemma isValue_quote_plain {k : Text} (hk : k.all isPlain) : IsValue (quote k) :=
  isValue_quote (isKey_of_plain (List.all_eq_true.mp hk))

lemma frameFields_wf {type : ℤ} {payload : List Field} (h : ∀ f ∈ payload, f.WF) :
    ∀ f ∈ frameFields type payload, f.WF := by
  intro f hf
  simp only [frameFields, List.mem_cons, List.not_mem_nil, or_false] at hf
  rcases hf with rfl | rfl
  · exact Field.wf_of_plain (by decide) (isValue_showInt _)
  · exact Field.wf_of_plain (by decide) (isValue_printObject h)

lemma posPayload_wf {color uuid : Text} (hk : color.all isPlain) (hu : uuid.all isPlain)
    (X Y : ℤ) : ∀ f ∈ posPayload color uuid X Y, f.WF := by
  intro f hf
  simp only [posPayload, List.mem_cons, List.not_mem_nil, or_false] at hf
  rcases hf with rfl | rfl | rfl | rfl | rfl
  · exact Field.wf_of_plain (by decide) (isValue_quote_plain hk)
  · exact Field.wf_of_plain (by decide) (isValue_showInt _)
  · exact Field.wf_of_plain (by decide) (isValue_quote_plain hu)
  · exact Field.wf_of_plain (by decide) (isValue_showInt _)
  · exact Field.wf_of_plain (by decide) (isValue_showInt _)

lemma colorPayload_wf {color : Text} (hk : color.all isPlain) :
    ∀ f ∈ colorPayload color, f.WF := by
  intro f hf
  rw [colorPayload, List.mem_singleton] at hf
  rw [hf]
  exact Field.wf_of_plain (by decide) (isValue_quote_plain hk)

lemma textMsgPayload_wf {color fromUUID toUUID text : Text} (hk : color.all isPlain)
    (hf : fromUUID.all isPlain) (ht : toUUID.all isPlain) (htext : IsKey text)
    (global : Bool) : ∀ f ∈ textMsgPayload color fromUUID toUUID text global, f.WF := by
  intro f hmem
  simp only [textMsgPayload, List.mem_cons, List.not_mem_nil, or_false] at hmem
  rcases hmem with rfl | rfl | rfl | rfl | rfl
  · exact Field.wf_of_plain (by decide) (isValue_quote_plain hk)
  · exact Field.wf_of_plain (by decide) (isValue_quote_plain hf)
  · exact Field.wf_of_plain (by decide) (isValue_quote_plain ht)
  · exact Field.wf_of_plain (by decide) (isValue_quote htext)
  · cases global
    · exact Field.wf_of_plain (by decide) isValue_false
    · exact Field.wf_of_plain (by decide) isValue_true

end MultiplayerCars.CPPClient
