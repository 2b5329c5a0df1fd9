import MultiplayerCars.GoServer.Event
import MultiplayerCars.CPPClient.Updates

/-!
# The messages of the server, as a client reads them

What `encoding/json` prints, both parsers of the client read: each kind of message that the
server builds is a well-formed message, and stands for the update that its fields spell out.
The same holds of the payload of a position, which the server passes on as a client printed it.
-/

namespace MultiplayerCars.Wire

open Lib.Json CPPClient
open GoServer (BroadcastEvent BroadcastTextMessageEvent encodeString encodeBool
  isKey_encodeString decodeStr_encodeString)

/-! ### Members -/

lemma domField_string {k raw t : Text} (hk : k.all isPlain) (hr : IsKey raw)
    (hd : decodeStr none raw = some t) : DomField ⟨k, quote raw⟩ where
  wf := Field.wf_of_plain hk (isValue_quote hr)
  key := by simp [decodeStr_plain (List.all_eq_true.mp hk)]
  value := domValue_quote hr (by simp [hd])

lemma domField_int {k : Text} {i : ℤ} (hk : k.all isPlain)
    (hi : -int64Bound ≤ i ∧ i < int64Bound) : DomField ⟨k, showInt i⟩ where
  wf := Field.wf_of_plain hk (isValue_showInt i)
  key := by simp [decodeStr_plain (List.all_eq_true.mp hk)]
  value := by
    refine domValue_showInt ⟨hi.1, ?_⟩
    simp only [int64Bound, uint64Bound] at *
    omega

lemma domField_bool {k : Text} (b : Bool) (hk : k.all isPlain) : DomField ⟨k, encodeBool b⟩ where
  wf := Field.wf_of_plain hk (GoServer.isValue_encodeBool b)
  key := by simp [decodeStr_plain (List.all_eq_true.mp hk)]
  value := domValue_bool b

/-- A string that the server has encoded is a member that the client reads. -/
lemma domField_encodeString {k : Text} (hk : k.all isPlain) (s : Text) :
    DomField ⟨k, quote (encodeString s)⟩ :=
  domField_string hk (isKey_encodeString s) (decodeStr_encodeString none s)

/-- A string without escapes is a member that the client reads. -/
lemma domField_plain {k s : Text} (hk : k.all isPlain) (hs : s.all isPlain) :
    DomField ⟨k, quote s⟩ :=
  domField_string hk (isKey_of_plain (List.all_eq_true.mp hs))
    (decodeStr_plain (List.all_eq_true.mp hs) none)

/-- The types of messages are small. -/
lemma serverType_bounds {type : ℤ} (h : type ∈ serverTypes) : 0 ≤ type ∧ type ≤ 20 := by
  have hall : ∀ t ∈ serverTypes, 0 ≤ t ∧ t ≤ 20 := by decide
  exact hall type h

lemma serverType_int64 {type : ℤ} (h : type ∈ serverTypes) :
    -int64Bound ≤ type ∧ type < int64Bound := by
  have hb := serverType_bounds h
  simp only [int64Bound]
  omega

lemma serverType_uint64 {type : ℤ} (h : type ∈ serverTypes) :
    0 ≤ type ∧ type < uint64Bound := by
  have hb := serverType_bounds h
  simp only [uint64Bound]
  omega

/-! ### Events -/

/-- The event is one that the server sends: its type is known, and its coordinates are of type
`int`. -/
structure Sendable (e : BroadcastEvent) : Prop where
  type : e.bType ∈ serverTypes
  x : -int64Bound ≤ e.xPos ∧ e.xPos < int64Bound
  y : -int64Bound ≤ e.yPos ∧ e.yPos < int64Bound

/-- The events that the server makes itself are all at the origin. -/
lemma sendable_origin {type : ℤ} (h : type ∈ serverTypes) {uuid timeStamp color : Text} :
    Sendable ⟨type, uuid, timeStamp, 0, 0, color⟩ where
  type := h
  x := (by decide : -int64Bound ≤ 0 ∧ 0 < int64Bound)
  y := (by decide : -int64Bound ≤ 0 ∧ 0 < int64Bound)

section

variable {parse : Text → Option Object} {typeOf : Text → Option ℤ}

lemma parse_event (hparse : ReadsObjects parse) {e : BroadcastEvent} (h : Sendable e) :
    parse e.marshal = some e.fields := by
  refine hparse _ fun f hf => ?_
  simp only [BroadcastEvent.fields, List.mem_cons, List.not_mem_nil, or_false] at hf
  rcases hf with rfl | rfl | rfl | rfl | rfl | rfl
  · exact domField_int (by decide) (serverType_int64 h.type)
  · exact domField_encodeString (by decide) _
  · exact domField_encodeString (by decide) _
  · exact domField_int (by decide) h.x
  · exact domField_int (by decide) h.y
  · exact domField_encodeString (by decide) _

lemma typeOf_event (htype : ReadsType typeOf) {e : BroadcastEvent} (h : Sendable e) :
    typeOf e.marshal = some e.bType := by
  rw [BroadcastEvent.marshal, htype.printed _ e.fields_wf]
  exact getUnsigned_showInt (serverType_uint64 h.type)

end

lemma event_uint64_type {e : BroadcastEvent} (h : Sendable e) :
    Object.uint64 e.fields "Type" = some e.bType :=
  Object.uint64_of_at (by rw [BroadcastEvent.fields, Object.at_cons (by decide), if_pos rfl])
    (serverType_uint64 h.type)

/-- The members of an event under their names. -/
lemma event_members (e : BroadcastEvent) :
    Object.string e.fields "UUID" = some e.uuid ∧
      Object.string e.fields "TimeStamp" = some e.timeStamp ∧
      Object.string e.fields "Color" = some e.color := by
  refine ⟨Object.string_of_at ?_ (isKey_encodeString _) (decodeStr_encodeString none _),
    Object.string_of_at ?_ (isKey_encodeString _) (decodeStr_encodeString none _),
    Object.string_of_at ?_ (isKey_encodeString _) (decodeStr_encodeString none _)⟩
  · simp (disch := decide) only [BroadcastEvent.fields, Object.at_cons]
    rfl
  · simp (disch := decide) only [BroadcastEvent.fields, Object.at_cons]
    rfl
  · simp (disch := decide) only [BroadcastEvent.fields, Object.at_cons]
    rfl

lemma event_coordinates {e : BroadcastEvent} (h : Sendable e) :
    Object.int64 e.fields "X" = some e.xPos ∧ Object.int64 e.fields "Y" = some e.yPos := by
  refine ⟨Object.int64_of_at ?_ h.x, Object.int64_of_at ?_ h.y⟩
  · simp (disch := decide) only [BroadcastEvent.fields, Object.at_cons]
    rfl
  · simp (disch := decide) only [BroadcastEvent.fields, Object.at_cons]
    rfl

/-- An event of the server is well formed as soon as its fields spell out an update. -/
lemma wellFormed_event {e : BroadcastEvent} (h : Sendable e) {u : Update}
    (hu : readUpdate e.fields = some u) : WellFormed e.marshal u :=
  ⟨e.bType, h.type, typeOf_event readsType_onDemandType h, e.fields,
    parse_event readsObjects_domParse h, event_uint64_type h, hu⟩

/-- The announcement of a newcomer is a position. -/
theorem wellFormed_announcement {e : BroadcastEvent} (h : Sendable e)
    (he : e.bType = GoServer.bEventPositionUpdateMessage) :
    WellFormed e.marshal (.position e.uuid ⟨toInt e.xPos, toInt e.yPos, e.color⟩) := by
  obtain ⟨hu, -, hc⟩ := event_members e
  obtain ⟨hx, hy⟩ := event_coordinates h
  have ht : toInt e.bType = bEventPositionUpdateMessage := by
    rw [he]
    decide
  exact wellFormed_event h (readUpdate_position (event_uint64_type h) (Or.inl ht) hu hx hy hc)

/-- A colour of the server is a colour. -/
theorem wellFormed_color {e : BroadcastEvent} (h : Sendable e)
    (he : e.bType = GoServer.bEventColorUpdateMessage) :
    WellFormed e.marshal (.color e.uuid e.color) := by
  obtain ⟨hu, -, hc⟩ := event_members e
  have ht : toInt e.bType = bEventColorUpdateMessage := by
    rw [he]
    decide
  refine wellFormed_event h ?_
  simp [readUpdate, event_uint64_type h, ht, hu, hc, bEventColorUpdateMessage,
    bEventTimeStampMessage, bEventPositionUpdateMessage, bEventPositionDebugUpdateMessage]

/-- The periodic time stamp is a time stamp. -/
theorem wellFormed_timeStamp {e : BroadcastEvent} (h : Sendable e)
    (he : e.bType = GoServer.bEventTimeStampMessage) :
    WellFormed e.marshal (.timeStamp e.timeStamp) := by
  obtain ⟨-, hs, -⟩ := event_members e
  have ht : toInt e.bType = bEventTimeStampMessage := by
    rw [he]
    decide
  refine wellFormed_event h ?_
  simp [readUpdate, event_uint64_type h, ht, hs, bEventTimeStampMessage,
    bEventPositionUpdateMessage, bEventPositionDebugUpdateMessage]

/-- The exit notice is an exit. -/
theorem wellFormed_exit {e : BroadcastEvent} (h : Sendable e)
    (he : e.bType = GoServer.bEventExternalConnectionExitMessage) :
    WellFormed e.marshal (.exit e.uuid) := by
  obtain ⟨hu, -, -⟩ := event_members e
  have ht : toInt e.bType = bEventExternalConnectionExitMessage := by
    rw [he]
    decide
  refine wellFormed_event h ?_
  simp [readUpdate, event_uint64_type h, ht, hu, bEventExternalConnectionExitMessage,
    bEventColorUpdateMessage, bEventTimeStampMessage, bEventPositionUpdateMessage,
    bEventPositionDebugUpdateMessage]

/-! ### Texts -/

lemma textMessage_members (e : BroadcastTextMessageEvent) :
    Object.string e.fields "FromUUID" = some e.fromUUID ∧
      Object.string e.fields "Color" = some e.color ∧
      Object.string e.fields "Text" = some e.text ∧
      Object.string e.fields "TimeStamp" = some e.timeStamp := by
  refine ⟨Object.string_of_at ?_ (isKey_encodeString _) (decodeStr_encodeString none _),
    Object.string_of_at ?_ (isKey_encodeString _) (decodeStr_encodeString none _),
    Object.string_of_at ?_ (isKey_encodeString _) (decodeStr_encodeString none _),
    Object.string_of_at ?_ (isKey_encodeString _) (decodeStr_encodeString none _)⟩
  · simp (disch := decide) only [BroadcastTextMessageEvent.fields, Object.at_cons]
    rfl
  · simp (disch := decide) only [BroadcastTextMessageEvent.fields, Object.at_cons]
    rfl
  · simp (disch := decide) only [BroadcastTextMessageEvent.fields, Object.at_cons]
    rfl
  · simp (disch := decide) only [BroadcastTextMessageEvent.fields, Object.at_cons]
    rfl

/-- Both parsers read a text of the server, whatever is in it. -/
lemma parse_textMessage {parse : Text → Option Object} (hparse : ReadsObjects parse)
    {typeOf : Text → Option ℤ} (htype : ReadsType typeOf) {e : BroadcastTextMessageEvent}
    (he : e.bType = GoServer.bEventTextUpdateMessage) :
    parse e.marshal = some e.fields ∧ typeOf e.marshal = some e.bType ∧
      Object.uint64 e.fields "Type" = some e.bType := by
  refine ⟨?_, ?_, ?_⟩
  · refine hparse _ fun f hf => ?_
    simp only [BroadcastTextMessageEvent.fields, List.mem_cons, List.not_mem_nil, or_false] at hf
    rcases hf with rfl | rfl | rfl | rfl | rfl | rfl | rfl
    · exact domField_int (by decide) (by rw [he]; decide)
    · exact domField_encodeString (by decide) _
    · exact domField_encodeString (by decide) _
    · exact domField_encodeString (by decide) _
    · exact domField_encodeString (by decide) _
    · exact domField_encodeString (by decide) _
    · exact domField_bool _ (by decide)
  · rw [BroadcastTextMessageEvent.marshal, htype.printed _ e.fields_wf]
    exact getUnsigned_showInt (by rw [he]; decide)
  · exact Object.uint64_of_at
      (by rw [BroadcastTextMessageEvent.fields, Object.at_cons (by decide), if_pos rfl])
      (by rw [he]; decide)

/-- A text of the server is a text. -/
theorem wellFormed_textMessage {e : BroadcastTextMessageEvent}
    (he : e.bType = GoServer.bEventTextUpdateMessage) :
    WellFormed e.marshal (.text e.fromUUID ⟨true, e.color, e.text, e.timeStamp⟩) := by
  obtain ⟨hdom, hon, htype⟩ :=
    parse_textMessage readsObjects_domParse readsType_onDemandType he
  obtain ⟨hf, hc, ht, hs⟩ := textMessage_members e
  refine ⟨e.bType, by rw [he]; decide, hon, e.fields, hdom, htype, ?_⟩
  have hint : toInt GoServer.bEventTextUpdateMessage = bEventTextUpdateMessage := by decide
  simp [readUpdate, htype, he, hint, hf, hc, ht, hs, bEventTextUpdateMessage,
    bEventExternalConnectionExitMessage, bEventColorUpdateMessage, bEventTimeStampMessage,
    bEventPositionUpdateMessage, bEventPositionDebugUpdateMessage]

/-! ### Positions that the server passes on -/

/-- The payload of a position, as a client has printed it, is a position. -/
theorem wellFormed_posPayload {color uuid : Text} (hk : color.all isPlain) (hu : uuid.all isPlain)
    {X Y : ℤ} (hX : -int64Bound ≤ X ∧ X < int64Bound) (hY : -int64Bound ≤ Y ∧ Y < int64Bound) :
    WellFormed (printObject (posPayload color uuid X Y))
      (.position uuid ⟨toInt X, toInt Y, color⟩) := by
  have hdom : domParse (printObject (posPayload color uuid X Y))
      = some (posPayload color uuid X Y) := by
    refine readsObjects_domParse _ fun f hf => ?_
    simp only [posPayload, List.mem_cons, List.not_mem_nil, or_false] at hf
    rcases hf with rfl | rfl | rfl | rfl | rfl
    · exact domField_plain (by decide) hk
    · exact domField_int (by decide) (by decide)
    · exact domField_plain (by decide) hu
    · exact domField_int (by decide) hX
    · exact domField_int (by decide) hY
  have hon : onDemandType (printObject (posPayload color uuid X Y))
      = some bEventPositionUpdateMessage := by
    have hfind : (posPayload color uuid X Y).find? (fun f => f.key == "Type".toList)
        = some ⟨"Type".toList, showInt bEventPositionUpdateMessage⟩ := by
      simp [posPayload]
    have hpos : getUnsigned (showInt bEventPositionUpdateMessage)
        = some bEventPositionUpdateMessage := getUnsigned_showInt (by decide)
    rw [readsType_onDemandType.printed _ (posPayload_wf hk hu X Y), hfind, Option.bind_some, hpos]
  have hstr : ∀ {k : Text} {key : String} {o : Object}, k.all isPlain →
      o.at key.toList = some (quote k) → o.string key = some k := by
    intro k key o hk' hat
    exact Object.string_of_at hat (isKey_of_plain (List.all_eq_true.mp hk'))
      (decodeStr_plain (List.all_eq_true.mp hk') none)
  have ht : Object.uint64 (posPayload color uuid X Y) "Type"
      = some bEventPositionUpdateMessage := by
    refine Object.uint64_of_at ?_ (by decide)
    simp (disch := decide) only [posPayload, Object.at_cons]
    rfl
  have huuid : Object.string (posPayload color uuid X Y) "UUID" = some uuid := by
    refine hstr hu ?_
    simp (disch := decide) only [posPayload, Object.at_cons]
    rfl
  have hcolor : Object.string (posPayload color uuid X Y) "Color" = some color := by
    refine hstr hk ?_
    simp (disch := decide) only [posPayload, Object.at_cons]
    rfl
  have hx : Object.int64 (posPayload color uuid X Y) "X" = some X := by
    refine Object.int64_of_at ?_ hX
    simp (disch := decide) only [posPayload, Object.at_cons]
    rfl
  have hy : Object.int64 (posPayload color uuid X Y) "Y" = some Y := by
    refine Object.int64_of_at ?_ hY
    simp (disch := decide) only [posPayload, Object.at_cons]
    rfl
  exact ⟨bEventPositionUpdateMessage, by decide, hon, _, hdom, ht,
    readUpdate_position ht (Or.inl (by decide)) huuid hx hy hcolor⟩

end MultiplayerCars.Wire
