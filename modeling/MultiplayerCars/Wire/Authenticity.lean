import MultiplayerCars.GoServer.Setup
import MultiplayerCars.Wire.Messages
import MultiplayerCars.Wire.Reading

/-!
# In whose name a message speaks

A client believes the type and the UUID that it finds in a message.  The handler of colours puts
them there itself.  The handler of texts copies the UUID from the event, and the handler of
positions passes the payload on as it is, so that a client can send anything in anybody's name.
-/

namespace MultiplayerCars.Wire

open Lib Lib.Json CPPClient
open GoServer (Server ClientId Peers Event unmarshalEvent unmarshalColorUpdateEvent
  unmarshalTextUpdateEvent routeEvent)

/-- The message has the type, and its member names the player, as a client reads it. -/
def Names (type : ℤ) (member : String) (uuid m : Text) : Prop :=
  ∃ o, domParse m = some o ∧ o.uint64 "Type" = some type ∧ o.string member = some uuid

/-- The type of the broadcast that corresponds to an event, and the member that names the player
whom it is about. -/
def broadcastOf (type : ℤ) : ℤ × String :=
  if type = GoServer.eventPositionMessage then (GoServer.bEventPositionUpdateMessage, "UUID")
  else if type = GoServer.eventColorUpdateMessage then
    (GoServer.bEventColorUpdateMessage, "UUID")
  else (GoServer.bEventTextUpdateMessage, "FromUUID")

/-- Every message that is put on the `egress` of another client when `c` sends the frame speaks in
the name of `c`, and is of the type that corresponds to the event. -/
def Authentic (s : Server) (c : ClientId) (frame now : Text) : Prop :=
  ∀ e peers m, unmarshalEvent frame = some e →
    (routeEvent e (s.client c) now).2 = .send peers m →
      ∀ p ∈ s.clients, p ≠ c → peers.admits (s.client p).uuid →
        Names (broadcastOf e.type).1 (broadcastOf e.type).2 (s.client c).uuid m.bytes

/-- Another client is among the peers. -/
def Reaches (s : Server) (c : ClientId) (peers : Peers) : Prop :=
  ∃ p ∈ s.clients, p ≠ c ∧ peers.admits (s.client p).uuid

/-- The frame of `c` is in its own name, when somebody hears of it: the payload of a position is
of the type of a position and has the UUID of `c`, and so has the event of a text. -/
def Genuine (s : Server) (c : ClientId) (frame : Text) : Prop :=
  ∀ e, unmarshalEvent frame = some e →
    (e.type = GoServer.eventPositionMessage → Reaches s c (.others (s.client c).uuid) →
      Names GoServer.bEventPositionUpdateMessage "UUID" (s.client c).uuid e.payload) ∧
    (e.type = GoServer.eventTextUpdateMessage →
      ∀ t, unmarshalTextUpdateEvent e.payload = some t →
        Reaches s c (if t.global then .others (s.client c).uuid else .only t.toUUID) →
          t.fromUUID = (s.client c).uuid)

/-! ### The three handlers -/

/-- A colour speaks in the name of its sender, whatever the payload is. -/
lemma names_color (uuid now color : Text) :
    Names GoServer.bEventColorUpdateMessage "UUID" uuid
      (GoServer.BroadcastEvent.marshal
        ⟨GoServer.bEventColorUpdateMessage, uuid, now, 0, 0, color⟩) := by
  have hsend : Sendable ⟨GoServer.bEventColorUpdateMessage, uuid, now, 0, 0, color⟩ :=
    sendable_origin (by decide)
  exact ⟨_, parse_event readsObjects_domParse hsend, event_uint64_type hsend, (event_members _).1⟩

/-- A text speaks in the name that its event gives. -/
lemma names_text_iff {e : GoServer.BroadcastTextMessageEvent}
    (he : e.bType = GoServer.bEventTextUpdateMessage) (uuid : Text) :
    Names GoServer.bEventTextUpdateMessage "FromUUID" uuid e.marshal ↔ e.fromUUID = uuid := by
  obtain ⟨hdom, -, htype⟩ :=
    parse_textMessage readsObjects_domParse readsType_onDemandType he
  have hfrom := (textMessage_members e).1
  constructor
  · rintro ⟨o, ho, -, hu⟩
    rw [hdom] at ho
    obtain rfl := Option.some.inj ho
    rw [hfrom] at hu
    exact Option.some.inj hu
  · rintro rfl
    rw [he] at htype
    exact ⟨e.fields, hdom, htype, hfrom⟩

/-- What the handler of a text sends, and to whom. -/
lemma reply_of_text {e : Event} (htype : e.type = GoServer.eventTextUpdateMessage)
    {t : GoServer.TextUpdateEvent} (ht : unmarshalTextUpdateEvent e.payload = some t)
    (c : GoServer.Client) (now : Text) : (routeEvent e c now).2
      = .send (if t.global then .others c.uuid else .only t.toUUID)
        (.text ⟨GoServer.bEventTextUpdateMessage, t.fromUUID, t.toUUID, t.color, t.text, now,
          t.global⟩) := by
  rw [GoServer.routeEvent_text htype, GoServer.handleTextUpdate, ht]

lemma genuine_of_authentic {s : Server} {c : ClientId} {frame now : Text}
    (h : Authentic s c frame now) : Genuine s c frame := by
  intro e he
  refine ⟨?_, ?_⟩
  · rintro htype ⟨p, hp, hne, hadm⟩
    have hr : (routeEvent e (s.client c) now).2
        = .send (.others (s.client c).uuid) (.passthrough e.payload) := by
      rw [GoServer.routeEvent_position htype]
      rfl
    have hn := h e _ _ he hr p hp hne hadm
    rwa [broadcastOf, if_pos htype] at hn
  · rintro htype t ht ⟨p, hp, hne, hadm⟩
    have hn := h e _ _ he (reply_of_text htype ht _ now) p hp hne hadm
    rw [broadcastOf, htype, if_neg (by decide), if_neg (by decide)] at hn
    exact (names_text_iff rfl _).mp hn

lemma authentic_of_genuine {s : Server} {c : ClientId} {frame : Text} (h : Genuine s c frame)
    (now : Text) : Authentic s c frame now := by
  intro e peers m he hr p hp hne hadm
  obtain ⟨hposition, htext⟩ := h e he
  by_cases h₀ : e.type = GoServer.eventPositionMessage
  · rw [GoServer.routeEvent_position h₀] at hr
    obtain ⟨rfl, rfl⟩ := GoServer.Reply.send.inj hr
    rw [broadcastOf, if_pos h₀]
    exact hposition h₀ ⟨p, hp, hne, hadm⟩
  by_cases h₁ : e.type = GoServer.eventColorUpdateMessage
  · rw [GoServer.routeEvent_color h₁, GoServer.handleColorUpdate] at hr
    rw [broadcastOf, if_neg h₀, if_pos h₁]
    cases hc : unmarshalColorUpdateEvent e.payload with
    | none =>
      rw [hc] at hr
      cases hr
    | some colorMsg =>
      rw [hc] at hr
      obtain ⟨rfl, rfl⟩ := GoServer.Reply.send.inj hr
      exact names_color _ _ _
  by_cases h₂ : e.type = GoServer.eventTextUpdateMessage
  · rw [broadcastOf, if_neg h₀, if_neg h₁]
    cases ht : unmarshalTextUpdateEvent e.payload with
    | none =>
      rw [GoServer.routeEvent_text h₂, GoServer.handleTextUpdate, ht] at hr
      cases hr
    | some t =>
      rw [reply_of_text h₂ ht] at hr
      obtain ⟨rfl, rfl⟩ := GoServer.Reply.send.inj hr
      exact (names_text_iff rfl _).mpr (htext h₂ t ht ⟨p, hp, hne, hadm⟩)
  -- the other events are not for the peers
  · rw [routeEvent, if_neg h₀, if_neg h₁, if_neg h₂] at hr
    split_ifs at hr
    cases hr

/-- **Sender authenticity, exactly.**  What the server sends to others for a frame of a client is
in the name of that client if and only if the frame is. -/
theorem sender_authentic_iff (s : Server) (c : ClientId) (frame now : Text) :
    Authentic s c frame now ↔ Genuine s c frame :=
  ⟨genuine_of_authentic, fun h => authentic_of_genuine h now⟩

/-! ### A position that is none -/

/-- Two clients, `a` and `b`, as the server has set them up. -/
@[irreducible] def twoClients : List (Server × GoServer.Act) × Server :=
  (GoServer.manager.run GoServer.manager.init GoServer.inTurn).get (by decide)

lemma reachable_twoClients : GoServer.manager.Reachable twoClients.2 := by
  rw [twoClients]
  exact ⟨_, Machine.exec_get_run _⟩

/-- A position event with the exit notice of `b` in it. -/
def forgedExit : Text :=
  "\x7b\"Type\":0,\"Payload\":\x7b\"Type\":3,\"UUID\":\"b\"\x7d\x7d".toList

/-- A client can speak in the name of another. -/
theorem exit_forged : ¬ ∀ s c frame now, GoServer.manager.Reachable s → c ∈ s.clients →
    GoServer.byteLength frame ≤ GoServer.readLimit → Authentic s c frame now := by
  intro h
  have hauth := h twoClients.2 0 forgedExit [] reachable_twoClients
    (by rw [twoClients]; decide +kernel) (by decide +kernel)
  have hevent : unmarshalEvent forgedExit
      = some ⟨0, "\x7b\"Type\":3,\"UUID\":\"b\"\x7d".toList⟩ := by decide +kernel
  obtain ⟨hposition, -⟩ := genuine_of_authentic hauth _ hevent
  have hreach : Reaches twoClients.2 0 (.others (twoClients.2.client 0).uuid) := by
    refine ⟨1, ?_, by decide, ?_⟩
    · rw [twoClients]
      decide +kernel
    · rw [twoClients]
      decide +kernel
  obtain ⟨o, ho, htype, -⟩ := hposition rfl hreach
  have hparse : domParse "\x7b\"Type\":3,\"UUID\":\"b\"\x7d".toList
      = some [⟨"Type".toList, ['3']⟩, ⟨"UUID".toList, "\"b\"".toList⟩] := by decide +kernel
  rw [hparse] at ho
  obtain rfl := Option.some.inj ho
  have htype₃ : Object.uint64 [⟨"Type".toList, ['3']⟩, ⟨"UUID".toList, "\"b\"".toList⟩] "Type"
      = some 3 := by decide +kernel
  rw [htype₃] at htype
  exact absurd htype (by decide)

end MultiplayerCars.Wire
