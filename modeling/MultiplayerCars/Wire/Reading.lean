import MultiplayerCars.GoServer.Manager
import MultiplayerCars.CPPClient.Frames

/-!
# The frames of a client, as the server reads them

A frame that is the compact text of an object is within the read limit, decodes to an event of
its type, and has its payload left as it is; the payload of a text without escapes decodes to
the values that were put into it.
-/

namespace MultiplayerCars.Wire

open Lib.Json CPPClient
open GoServer (Event unmarshal unmarshalEvent unmarshalColorUpdateEvent unmarshalTextUpdateEvent
  byteLength readLimit decodeString decodeInt decodeBool matchesField isNull replacementChar)

/-! ### The number of bytes -/

lemma byteLength_append (s t : Text) : byteLength (s ++ t) = byteLength s + byteLength t := by
  simp [byteLength]

/-- A character below 128 is one byte. -/
lemma byteLength_of_ascii {s : Text} (h : ∀ c ∈ s, c.toNat < 128) : byteLength s = s.length := by
  induction s with
  | nil => rfl
  | cons c s ih =>
    have hc : c.utf8Size = 1 := by
      have hlt : c.toNat < 128 := h c (by simp)
      have hle : c.val ≤ 0x7f := by
        rw [UInt32.le_iff_toNat_le]
        have : c.val.toNat < 128 := hlt
        simp only [UInt32.reduceToNat]
        omega
      simp [Char.utf8Size, hle]
    have hs := ih fun d hd => h d (by simp [hd])
    simp only [byteLength, List.map_cons, List.sum_cons, List.length_cons] at *
    omega

lemma byteLength_color (k : HexColor) : byteLength k.text = 6 := by
  rw [byteLength_of_ascii fun c hc => lt_of_isHexDigit (List.all_eq_true.mp k.digits c hc)]
  exact k.length

lemma byteLength_uuid (u : UuidV4) : byteLength u.text = 36 := by
  rw [byteLength_of_ascii, u.length]
  intro c hc
  rcases u.mem_cases hc with h | rfl
  · exact lt_of_isHexDigit h
  · decide

lemma byteLength_typedText (t : TypedText) : byteLength t.text ≤ 105 := by
  rw [byteLength_of_ascii]
  · exact t.length
  · intro c hc
    have hr := List.all_eq_true.mp t.range c hc
    simp only [Bool.and_eq_true, decide_eq_true_eq] at hr
    omega

/-- The frame of a text is within the read limit. -/
lemma byteLength_textMsgFrame (k : HexColor) (u : UuidV4) (t : TypedText) :
    byteLength (textMsgFront k.text u.text [] ++ t.text ++ textMsgBack true) ≤ readLimit := by
  have htype : showInt CPPClient.eventTextUpdateMessage = ['2'] := by decide
  have ht := byteLength_typedText t
  have h₁ : byteLength "\x7b\"Type\":".toList = 8 := by decide
  have h₂ : byteLength ['2'] = 1 := by decide
  have h₃ : byteLength ",\"Payload\":\x7b\"Color\":\"".toList = 21 := by decide
  have h₄ : byteLength "\",\"FromUUID\":\"".toList = 14 := by decide
  have h₅ : byteLength "\",\"ToUUID\":\"".toList = 12 := by decide
  have h₆ : byteLength "\",\"Text\":\"".toList = 10 := by decide
  have h₇ : byteLength [] = 0 := by decide
  have h₈ : byteLength (textMsgBack true) = 17 := by decide
  unfold textMsgFront
  simp only [byteLength_append, byteLength_color, byteLength_uuid, htype, h₁, h₂, h₃, h₄, h₅, h₆,
    h₇, h₈, readLimit]
  omega

/-! ### Decoding -/

lemma unmarshal_printObject {α : Type} (zero : α) (set : α → Field → Option α) {fs : List Field}
    (h : ∀ f ∈ fs, f.WF) : unmarshal zero set (printObject fs) = fs.foldlM set zero := by
  rw [unmarshal, parseObject_printObject h]

/-- A literal is decoded to what it spells. -/
lemma decodeString_literal {k t : Text} (hk : IsKey k)
    (ht : decodeStr (some replacementChar) k = some t) (old : Text) :
    decodeString old (quote k) = some t := by
  have hnull : isNull (quote k) = false := by simp [isNull, quote]
  rw [decodeString, hnull, if_neg (by simp), strLit_quote hk]
  exact ht

lemma decodeString_quote {k : Text} (hk : k.all isPlain) (old : Text) :
    decodeString old (quote k) = some k :=
  decodeString_literal (isKey_of_plain (List.all_eq_true.mp hk))
    (decodeStr_plain (List.all_eq_true.mp hk) _) old

lemma decodeInt_showInt {i : ℤ} (hi : -GoServer.intBound ≤ i ∧ i < GoServer.intBound) (old : ℤ) :
    decodeInt old (showInt i) = some i := by
  have hnull : isNull (showInt i) = false := by
    rw [isNull, Bool.eq_false_iff]
    intro h
    have hmem : 'n' ∈ showInt i := by
      rw [beq_iff_eq.mp h]
      decide
    exact absurd (isNumChar_of_mem_showInt hmem) (by decide)
  rw [decodeInt, hnull, if_neg (by simp), intOf_showInt]
  simp [Option.filter, hi]

/-- A frame is read as an event with its payload left as it is. -/
theorem unmarshalEvent_frame {type : ℤ} (ht : -GoServer.intBound ≤ type ∧ type < GoServer.intBound)
    {payload : List Field} (h : ∀ f ∈ payload, f.WF) :
    unmarshalEvent (printObject (frameFields type payload))
      = some ⟨type, printObject payload⟩ := by
  rw [unmarshalEvent, unmarshal_printObject _ _ (frameFields_wf h)]
  have htype : matchesField "Type".toList "Type".toList := by decide
  have hother : ¬ matchesField "Type".toList "Payload".toList := by decide
  have hpayload : matchesField "Payload".toList "Payload".toList := by decide
  have h₁ : Event.setField ⟨0, []⟩ ⟨"Type".toList, showInt type⟩ = some ⟨type, []⟩ := by
    refine (if_pos htype).trans ?_
    rw [decodeInt_showInt ht]
    rfl
  have h₂ : Event.setField ⟨type, []⟩ ⟨"Payload".toList, printObject payload⟩
      = some ⟨type, printObject payload⟩ := (if_neg hother).trans (if_pos hpayload)
  rw [frameFields, List.foldlM_cons, h₁]
  simp only [Option.bind_eq_bind, Option.bind_some]
  rw [List.foldlM_cons, h₂]
  rfl

section TextUpdateEvent

open GoServer.TextUpdateEvent (setField)

variable {e : GoServer.TextUpdateEvent} {v t : Text}

lemma setField_color (h : decodeString e.color v = some t) :
    e.setField ⟨"Color".toList, v⟩ = some { e with color := t } := by
  have hf : ¬ matchesField "FromUUID".toList "Color".toList := by decide
  have ht : ¬ matchesField "ToUUID".toList "Color".toList := by decide
  have hc : matchesField "Color".toList "Color".toList := by decide
  refine (if_neg hf).trans ((if_neg ht).trans ((if_pos hc).trans ?_))
  rw [h]
  rfl

lemma setField_fromUUID (h : decodeString e.fromUUID v = some t) :
    e.setField ⟨"FromUUID".toList, v⟩ = some { e with fromUUID := t } := by
  have hf : matchesField "FromUUID".toList "FromUUID".toList := by decide
  refine (if_pos hf).trans ?_
  rw [h]
  rfl

lemma setField_toUUID (h : decodeString e.toUUID v = some t) :
    e.setField ⟨"ToUUID".toList, v⟩ = some { e with toUUID := t } := by
  have hf : ¬ matchesField "FromUUID".toList "ToUUID".toList := by decide
  have ht : matchesField "ToUUID".toList "ToUUID".toList := by decide
  refine (if_neg hf).trans ((if_pos ht).trans ?_)
  rw [h]
  rfl

lemma setField_text (h : decodeString e.text v = some t) :
    e.setField ⟨"Text".toList, v⟩ = some { e with text := t } := by
  have hf : ¬ matchesField "FromUUID".toList "Text".toList := by decide
  have ht : ¬ matchesField "ToUUID".toList "Text".toList := by decide
  have hc : ¬ matchesField "Color".toList "Text".toList := by decide
  have hx : matchesField "Text".toList "Text".toList := by decide
  refine (if_neg hf).trans ((if_neg ht).trans ((if_neg hc).trans ((if_pos hx).trans ?_)))
  rw [h]
  rfl

lemma setField_global {b : Bool} (h : decodeBool e.global v = some b) :
    e.setField ⟨"Global".toList, v⟩ = some { e with global := b } := by
  have hf : ¬ matchesField "FromUUID".toList "Global".toList := by decide
  have ht : ¬ matchesField "ToUUID".toList "Global".toList := by decide
  have hc : ¬ matchesField "Color".toList "Global".toList := by decide
  have hx : ¬ matchesField "Text".toList "Global".toList := by decide
  have hg : matchesField "Global".toList "Global".toList := by decide
  refine (if_neg hf).trans ((if_neg ht).trans ((if_neg hc).trans ((if_neg hx).trans
    ((if_pos hg).trans ?_))))
  rw [h]
  rfl

end TextUpdateEvent

/-- What comes out of a payload is the text that the literal in it spells. -/
theorem unmarshalTextUpdateEvent_payload {color fromUUID toUUID raw text : Text}
    (hk : color.all isPlain) (hf : fromUUID.all isPlain) (ht : toUUID.all isPlain)
    (hraw : IsKey raw) (htext : decodeStr (some replacementChar) raw = some text)
    (global : Bool) :
    unmarshalTextUpdateEvent (printObject (textMsgPayload color fromUUID toUUID raw global))
      = some ⟨fromUUID, toUUID, color, text, global⟩ := by
  have hg : decodeBool false (if global then "true".toList else "false".toList)
      = some global := by
    cases global <;> decide
  rw [unmarshalTextUpdateEvent,
    unmarshal_printObject _ _ (textMsgPayload_wf hk hf ht hraw global), textMsgPayload,
    List.foldlM_cons, setField_color (decodeString_quote hk _)]
  simp only [Option.bind_eq_bind, Option.bind_some]
  rw [List.foldlM_cons, setField_fromUUID (decodeString_quote hf _)]
  simp only [Option.bind_eq_bind, Option.bind_some]
  rw [List.foldlM_cons, setField_toUUID (decodeString_quote ht _)]
  simp only [Option.bind_eq_bind, Option.bind_some]
  rw [List.foldlM_cons, setField_text (decodeString_literal hraw htext _)]
  simp only [Option.bind_eq_bind, Option.bind_some]
  rw [List.foldlM_cons, setField_global hg]
  rfl

/-- A colour comes out of its payload as it went in. -/
theorem unmarshalColorUpdateEvent_payload {color : Text} (hk : color.all isPlain) :
    unmarshalColorUpdateEvent (printObject (colorPayload color)) = some ⟨color⟩ := by
  have hc : matchesField "Color".toList "Color".toList := by decide
  have hset : GoServer.ColorUpdateEvent.setField ⟨[]⟩ ⟨"Color".toList, quote color⟩
      = some ⟨color⟩ := by
    refine (if_pos hc).trans ?_
    rw [decodeString_quote hk]
    rfl
  rw [unmarshalColorUpdateEvent, unmarshal_printObject _ _ (colorPayload_wf hk), colorPayload,
    List.foldlM_cons, hset]
  rfl

end MultiplayerCars.Wire
