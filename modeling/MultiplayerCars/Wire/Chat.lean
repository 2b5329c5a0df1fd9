import MultiplayerCars.Wire.Messages
import MultiplayerCars.Wire.Reading
import MultiplayerCars.CPPClient.Client

/-!
# Chat texts on the wire

A typed text is put into a JSON template as it stands, the frame is minified, the server decodes
it and encodes what it has read, and a peer decodes that.  The text arrives when it needs no
escape.  A text with a quotation mark or a backslash never does: the literal that would have to
decode to it would have to be longer than the text, and the frame has no such literal.
-/

namespace MultiplayerCars.Wire

open Lib.Json CPPClient
open GoServer (Event unmarshal unmarshalEvent unmarshalTextUpdateEvent replacementChar)

/-- The frame of `sendTextMessage("", "", text)`. -/
def chatFrame (uuid : UuidV4) (color : HexColor) (t : TypedText) : Text :=
  textMsgFrame color.text uuid.text [] t.text true

/-- The text survives the wire: the server takes the frame for an event of the type of texts,
decodes its payload to the text and its sender, and what it then sends to the peers makes each
of them push the text. -/
def Survives (uuid : UuidV4) (color : HexColor) (t : TypedText) : Prop :=
  GoServer.byteLength (chatFrame uuid color t) ≤ GoServer.readLimit ∧
    ∃ e textMsg, unmarshalEvent (chatFrame uuid color t) = some e ∧
      e.type = GoServer.eventTextUpdateMessage ∧
      unmarshalTextUpdateEvent e.payload = some textMsg ∧
      textMsg.text = t.text ∧ textMsg.fromUUID = uuid.text ∧ textMsg.toUUID = [] ∧
      textMsg.global = true ∧
      ∀ (c : GoServer.Client) (now : Text), c.uuid = uuid.text →
        ∃ m, (GoServer.routeEvent e c now).2 = .send (.others uuid.text) m ∧
          ∀ clientUUID g, clientUUID ≠ uuid.text →
            ∃ entry : TextContext, entry.text = t.text ∧
              process clientUUID m.bytes g = .popped (g.pushText entry)

/-- No character of the text has a meaning inside a string literal. -/
def NoEscapes (t : TypedText) : Prop := '"' ∉ t.text ∧ '\\' ∉ t.text

/-! ### Texts that need no escape -/

lemma plain_of_noEscapes {t : TypedText} (h : NoEscapes t) : t.text.all isPlain := by
  refine List.all_eq_true.mpr fun c hc => ?_
  have hr := List.all_eq_true.mp t.range c hc
  simp only [Bool.and_eq_true, decide_eq_true_eq] at hr
  have hq : c ≠ '"' := fun he => h.1 (he ▸ hc)
  have hb : c ≠ '\\' := fun he => h.2 (he ▸ hc)
  simp [isPlain, hq, hb, hr.1]

lemma isKey_of_noEscapes {t : TypedText} (h : NoEscapes t) : IsKey t.text :=
  isKey_of_plain (List.all_eq_true.mp (plain_of_noEscapes h))

lemma decodeStr_of_noEscapes {t : TypedText} (h : NoEscapes t) (lone : Option Char) :
    decodeStr lone t.text = some t.text :=
  decodeStr_plain (List.all_eq_true.mp (plain_of_noEscapes h)) lone

lemma chatFrame_eq (uuid : UuidV4) (color : HexColor) {t : TypedText} (h : IsKey t.text) :
    chatFrame uuid color t = printObject (frameFields eventTextUpdateMessage
      (textMsgPayload color.text uuid.text [] t.text true)) :=
  textMsgFrame_eq color.plain uuid.plain rfl h true

/-- The server reads the frame of a text that can stand between quotation marks. -/
lemma unmarshalEvent_chatFrame (uuid : UuidV4) (color : HexColor) {t : TypedText}
    (h : IsKey t.text) : unmarshalEvent (chatFrame uuid color t)
      = some ⟨GoServer.eventTextUpdateMessage,
          printObject (textMsgPayload color.text uuid.text [] t.text true)⟩ := by
  rw [chatFrame_eq uuid color h]
  exact unmarshalEvent_frame (by decide) (textMsgPayload_wf color.plain uuid.plain rfl h true)

lemma unmarshal_chatPayload (uuid : UuidV4) (color : HexColor) {t : TypedText} {text : Text}
    (h : IsKey t.text) (htext : decodeStr (some replacementChar) t.text = some text) :
    unmarshalTextUpdateEvent
        (printObject (textMsgPayload color.text uuid.text [] t.text true))
      = some ⟨uuid.text, [], color.text, text, true⟩ :=
  unmarshalTextUpdateEvent_payload color.plain uuid.plain (rfl : ([] : Text).all isPlain) h htext
    true

lemma byteLength_chatFrame (uuid : UuidV4) (color : HexColor) {t : TypedText} (h : NoEscapes t) :
    GoServer.byteLength (chatFrame uuid color t) ≤ GoServer.readLimit := by
  have hsq := ((squeezes_textMsgHead color.plain uuid.plain
    (rfl : ([] : Text).all isPlain)).append (squeezes_plain (plain_of_noEscapes h))).append
    (squeezes_textMsgTail true)
  have hframe : chatFrame uuid color t
      = textMsgFront color.text uuid.text [] ++ t.text ++ textMsgBack true :=
    minifies_minify.squeezes hsq
  rw [hframe]
  exact byteLength_textMsgFrame color uuid t

/-- A peer that is sent a text pushes it. -/
lemma process_textMessage {e : GoServer.BroadcastTextMessageEvent}
    (he : e.bType = GoServer.bEventTextUpdateMessage) {clientUUID : Text}
    (hne : clientUUID ≠ e.fromUUID) (g : Gui) :
    process clientUUID e.marshal g
      = .popped (g.pushText ⟨true, e.color, e.text, e.timeStamp⟩) := by
  have hwf := wellFormed_textMessage he
  rw [process, hwf.relay_eq]
  simp only [Update.isPosition, Bool.false_eq_true, if_false]
  rw [hwf.block_gui (by simp [Update.isPosition]) clientUUID g]
  simp only [Update.apply, if_neg (Ne.symm hne)]

lemma survives_of_noEscapes (uuid : UuidV4) (color : HexColor) {t : TypedText}
    (h : NoEscapes t) : Survives uuid color t := by
  have hread := unmarshalEvent_chatFrame uuid color (isKey_of_noEscapes h)
  have hmsg := unmarshal_chatPayload uuid color (isKey_of_noEscapes h) (decodeStr_of_noEscapes h _)
  refine ⟨byteLength_chatFrame uuid color h, _, _, hread, rfl, hmsg, rfl, rfl, rfl, rfl, ?_⟩
  intro c now hc
  refine ⟨.text ⟨GoServer.bEventTextUpdateMessage, uuid.text, [], color.text, t.text, now, true⟩,
    ?_, ?_⟩
  · rw [GoServer.routeEvent_text rfl, GoServer.handleTextUpdate, hmsg, ← hc]
    rfl
  · intro clientUUID g hne
    exact ⟨_, rfl, process_textMessage rfl hne g⟩

/-! ### Texts that do -/

/-- A decoded text was there before, or some literal decodes to it. -/
def FromLiteral (old new v : Text) : Prop :=
  new = old ∨ ∃ k ∈ lits v, decodeStr (some replacementChar) k = some new

lemma decodeString_cases {old new v : Text} (h : GoServer.decodeString old v = some new) :
    FromLiteral old new v := by
  rw [GoServer.decodeString] at h
  split_ifs at h
  · exact Or.inl (Option.some.inj h).symm
  · obtain ⟨k, hk, hd⟩ := Option.bind_eq_some_iff.mp h
    exact Or.inr ⟨k, (lits_of_strLit hk).2, hd⟩

lemma setField_text_cases {e e' : GoServer.TextUpdateEvent} {f : Field}
    (h : e.setField f = some e') : FromLiteral e.text e'.text f.value := by
  rw [GoServer.TextUpdateEvent.setField] at h
  split_ifs at h
  · obtain ⟨t, -, rfl⟩ := Option.map_eq_some_iff.mp h
    exact Or.inl rfl
  · obtain ⟨t, -, rfl⟩ := Option.map_eq_some_iff.mp h
    exact Or.inl rfl
  · obtain ⟨t, -, rfl⟩ := Option.map_eq_some_iff.mp h
    exact Or.inl rfl
  · obtain ⟨t, ht, rfl⟩ := Option.map_eq_some_iff.mp h
    exact decodeString_cases ht
  · obtain ⟨b, -, rfl⟩ := Option.map_eq_some_iff.mp h
    exact Or.inl rfl
  · exact Or.inl (by rw [Option.some.inj h])

lemma foldlM_text_cases {fs : List Field} {e e' : GoServer.TextUpdateEvent}
    (h : fs.foldlM GoServer.TextUpdateEvent.setField e = some e') :
    e'.text = e.text ∨
      ∃ f ∈ fs, ∃ k ∈ lits f.value, decodeStr (some replacementChar) k = some e'.text := by
  induction fs generalizing e with
  | nil =>
    rw [List.foldlM_nil] at h
    exact Or.inl (by rw [Option.some.inj h])
  | cons f fs ih =>
    rw [List.foldlM_cons, Option.bind_eq_bind, Option.bind_eq_some_iff] at h
    obtain ⟨e₁, he₁, h⟩ := h
    rcases ih h with ht | ⟨f', hf', hk⟩
    · rcases setField_text_cases he₁ with ht₁ | ⟨k, hk, hd⟩
      · exact Or.inl (ht.trans ht₁)
      · exact Or.inr ⟨f, by simp, k, hk, by rw [ht]; exact hd⟩
    · exact Or.inr ⟨f', by simp [hf'], hk⟩

/-- A text that the server has read stands in the payload as a literal. -/
lemma exists_literal_of_text {s : Text} {e : GoServer.TextUpdateEvent}
    (h : unmarshalTextUpdateEvent s = some e) (hne : e.text ≠ []) :
    ∃ k ∈ lits s, decodeStr (some replacementChar) k = some e.text := by
  rw [unmarshalTextUpdateEvent, unmarshal] at h
  cases hp : parseObject s with
  | none =>
    simp only [hp] at h
    split at h
    · split_ifs at h
      rw [← Option.some.inj h] at hne
      exact absurd rfl hne
    · simp at h
  | some fs =>
    simp only [hp] at h
    rcases foldlM_text_cases h with ht | ⟨f, hf, k, hk, hd⟩
    · exact absurd ht hne
    · exact ⟨k, lits_of_parseObject hp f hf k hk, hd⟩

lemma foldlM_payload_cases {fs : List Field} {e e' : Event}
    (h : fs.foldlM Event.setField e = some e') :
    e'.payload = e.payload ∨ ∃ f ∈ fs, e'.payload = f.value := by
  induction fs generalizing e with
  | nil =>
    rw [List.foldlM_nil] at h
    exact Or.inl (by rw [Option.some.inj h])
  | cons f fs ih =>
    rw [List.foldlM_cons, Option.bind_eq_bind, Option.bind_eq_some_iff] at h
    obtain ⟨e₁, he₁, h⟩ := h
    rcases ih h with hp | ⟨f', hf', hp⟩
    · rw [Event.setField] at he₁
      split_ifs at he₁
      · obtain ⟨t, -, rfl⟩ := Option.map_eq_some_iff.mp he₁
        exact Or.inl hp
      · exact Or.inr ⟨f, by simp, by rw [hp, ← Option.some.inj he₁]⟩
      · exact Or.inl (by rw [hp, Option.some.inj he₁])
    · exact Or.inr ⟨f', by simp [hf'], hp⟩

/-- The literals of a payload are literals of the frame. -/
lemma lits_payload {s : Text} {e : Event} (h : unmarshalEvent s = some e) {k : Text}
    (hk : k ∈ lits e.payload) : k ∈ lits s := by
  rw [unmarshalEvent, unmarshal] at h
  have hnil : lits ([] : Text) = [] := rfl
  cases hp : parseObject s with
  | none =>
    simp only [hp] at h
    split at h
    · split_ifs at h
      rw [← Option.some.inj h, hnil] at hk
      exact absurd hk (by simp)
    · simp at h
  | some fs =>
    simp only [hp] at h
    rcases foldlM_payload_cases h with hpay | ⟨f, hf, hpay⟩
    · rw [hpay, hnil] at hk
      exact absurd hk (by simp)
    · exact lits_of_parseObject hp f hf k (hpay ▸ hk)

/-! ### The literals of a chat frame -/

/-- The template up to the quotation mark before the text. -/
def chatLead (uuid : UuidV4) (color : HexColor) : Text :=
  " \x7b \"Type\": ".toList ++ showInt eventTextUpdateMessage
    ++ " , \"Payload\": \x7b \"Color\": \"".toList ++ color.text
    ++ "\", \"FromUUID\": \"".toList ++ uuid.text ++ "\", \"ToUUID\": \"".toList
    ++ "\", \"Text\": ".toList

/-- The template from the character after the quotation mark behind the text. -/
def chatRest : Text := ", \"Global\": true \x7d \x7d ".toList

lemma textMsgRawJson_eq (uuid : UuidV4) (color : HexColor) (t : Text) :
    textMsgRawJson color.text uuid.text [] t true
      = chatLead uuid color ++ (quote t ++ chatRest) := by
  unfold textMsgRawJson textMsgHead textMsgTail chatLead chatRest quote
  simp

lemma closed_chatLead (uuid : UuidV4) (color : HexColor) : Closed (chatLead uuid color) := by
  have hFrom : Squeezes .str "\", \"FromUUID\": \"".toList "\",\"FromUUID\":\"".toList .str := by
    decide
  have hTo : Squeezes .str "\", \"ToUUID\": \"".toList "\",\"ToUUID\":\"".toList .str := by decide
  have hText : Squeezes .str "\", \"Text\": ".toList "\",\"Text\":".toList .out := by decide
  exact ((((((squeezes_rawHead eventTextUpdateMessage).append (squeezes_plain color.plain)).append
    hFrom).append (squeezes_plain uuid.plain)).append hTo).append hText).2

lemma no_escape_of_plain {k : Text} (hk : k.all isPlain) : '\\' ∉ k := by
  intro hb
  exact absurd (List.all_eq_true.mp hk _ hb) (by decide)

lemma no_escape_chatLead (uuid : UuidV4) (color : HexColor) : '\\' ∉ chatLead uuid color := by
  have h₁ : '\\' ∉ " \x7b \"Type\": ".toList ++ showInt eventTextUpdateMessage
      ++ " , \"Payload\": \x7b \"Color\": \"".toList := by decide
  have h₂ : '\\' ∉ "\", \"FromUUID\": \"".toList := by decide
  have h₃ : '\\' ∉ "\", \"ToUUID\": \"".toList := by decide
  have h₄ : '\\' ∉ "\", \"Text\": ".toList := by decide
  have hc := no_escape_of_plain color.plain
  have hu := no_escape_of_plain uuid.plain
  unfold chatLead
  intro h
  rcases List.mem_append.mp h with h | h
  · rcases List.mem_append.mp h with h | h
    · rcases List.mem_append.mp h with h | h
      · rcases List.mem_append.mp h with h | h
        · rcases List.mem_append.mp h with h | h
          · exact h₁ h
          · exact hc h
        · exact h₂ h
      · exact hu h
    · exact h₃ h
  · exact h₄ h

/-- A frame that is not empty has left the text between literals. -/
lemma run_of_closed {uuid : UuidV4} {color : HexColor} {t : Text}
    (h : Closed (textMsgRawJson color.text uuid.text [] t true)) : Lex.str.run t = .str := by
  have hrun : ((Lex.str.run t).next '"').run chatRest = .out := by
    rw [textMsgRawJson_eq, Closed, Lex.run_append, closed_chatLead uuid color, Lex.run_append,
      quote, Lex.run_cons, Lex.run_append] at h
    exact h
  cases hm : Lex.str.run t with
  | str => rfl
  | out =>
    rw [hm] at hrun
    exact absurd hrun (by decide)
  | esc =>
    rw [hm] at hrun
    exact absurd hrun (by decide)

/-- A literal of the frame that has a backslash in it is no longer than the text. -/
lemma length_of_mem_lits_chatFrame {uuid : UuidV4} {color : HexColor} {t : TypedText}
    (hread : (unmarshalEvent (chatFrame uuid color t)).isSome) {k : Text}
    (hk : k ∈ lits (chatFrame uuid color t)) (hb : '\\' ∈ k) : k.length ≤ t.text.length := by
  have hclosed : Closed (textMsgRawJson color.text uuid.text [] t.text true) := by
    by_contra hno
    have hempty : chatFrame uuid color t = [] := if_neg hno
    rw [hempty] at hread
    exact absurd hread (by decide)
  have hframe : chatFrame uuid color t
      = squeeze .out (textMsgRawJson color.text uuid.text [] t.text true) := if_pos hclosed
  have hquote : Closed (quote t.text) := by
    rw [Closed, quote, Lex.run_cons, show Lex.out.next '"' = .str from rfl, Lex.run_append,
      run_of_closed hclosed]
    rfl
  rw [hframe, lits_squeeze, textMsgRawJson_eq, lits_append (closed_chatLead uuid color),
    lits_append hquote] at hk
  rcases List.mem_append.mp hk with hk | hk
  · exact absurd (mem_of_mem_lits hk hb) (no_escape_chatLead uuid color)
  rcases List.mem_append.mp hk with hk | hk
  · have hroom := length_lits hquote hk
    simp only [quote, List.length_cons, List.length_append, List.length_nil] at hroom
    omega
  · exact absurd (mem_of_mem_lits hk hb) (by decide)

/-- A text that the server reads from its own frame needs no escapes: a literal that decodes to a
text with a quotation mark or a backslash has a backslash in it, and so is longer than the text. -/
lemma noEscapes_of_read {uuid : UuidV4} {color : HexColor} {t : TypedText} {e : Event}
    {textMsg : GoServer.TextUpdateEvent} (he : unmarshalEvent (chatFrame uuid color t) = some e)
    (hmsg : unmarshalTextUpdateEvent e.payload = some textMsg) (htext : textMsg.text = t.text) :
    NoEscapes t := by
  by_cases hnil : t.text = []
  · simp [NoEscapes, hnil]
  obtain ⟨k, hk, hd⟩ := exists_literal_of_text hmsg (by rw [htext]; exact hnil)
  have hk' := lits_payload he hk
  rw [htext] at hd
  -- an escaped literal is longer than its text, and there is no room for it in the frame
  by_cases hb : '\\' ∈ k
  · have hlong := decodeStr_length_lt hd hb
    have hshort := length_of_mem_lits_chatFrame (by rw [he]; rfl) hk' hb
    omega
  · rw [NoEscapes, decodeStr_of_no_escape hd hb]
    exact ⟨no_quote_of_mem_lits hk' hb, hb⟩

lemma noEscapes_of_survives {uuid : UuidV4} {color : HexColor} {t : TypedText}
    (h : Survives uuid color t) : NoEscapes t := by
  obtain ⟨-, e, textMsg, he, -, hmsg, htext, -⟩ := h
  exact noEscapes_of_read he hmsg htext

/-- **A text survives the wire if and only if it needs no escapes.** -/
theorem text_survives_iff (uuid : UuidV4) (color : HexColor) (t : TypedText) :
    Survives uuid color t ↔ '"' ∉ t.text ∧ '\\' ∉ t.text :=
  ⟨noEscapes_of_survives, survives_of_noEscapes uuid color⟩

/-- A single quotation mark. -/
def quotationMark : TypedText where
  text := ['"']
  length := by decide
  range := by decide

/-- A quotation mark does not survive. -/
theorem quotation_mark_lost : ¬ ∀ uuid color t, Survives uuid color t := by
  intro h
  have hno := noEscapes_of_survives (h someUuid defaultColor quotationMark)
  exact absurd hno.1 (by decide)

end MultiplayerCars.Wire
