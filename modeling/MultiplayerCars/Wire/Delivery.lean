import MultiplayerCars.GoServer.Manager
import MultiplayerCars.CPPClient.Updates

/-!
# What the server forwards, and whether a client survives it

The server passes the payload of a position on without a look at it, so what a client is sent is
up to the other clients.  A message does no harm when its block pops it, and has carried out
the whole update or nothing.  That depends on the fields that the block comes to read: when one
is missing, a `simdjson_error` leaves the main loop, since the block catches
`std::out_of_range` only.
-/

namespace MultiplayerCars.Wire

open Lib.Json CPPClient

/-- The server puts the text on the `egress` of a peer when it handles some frame. -/
def Forwards (s : Text) : Prop :=
  ∃ frame e c now peers m, GoServer.byteLength frame ≤ GoServer.readLimit ∧
    GoServer.unmarshalEvent frame = some e ∧
    (GoServer.routeEvent e c now).2 = .send peers m ∧ m.bytes = s

/-- A message is processed safely: it is popped, and the players, the time stamp and the chat
are as they were, or the whole update of the message has been carried out. -/
def Safe (clientUUID s : Text) (g : Gui) : Prop :=
  ∃ g', process clientUUID s g = .popped g' ∧
    ((g'.externalplayers = g.externalplayers ∧ g'.timestamp = g.timestamp ∧
        g'.textmessagesdisplay = g.textmessagesdisplay) ∨
      ∃ o u, domParse s = some o ∧ readUpdate o = some u ∧ g' = u.apply clientUUID g)

/-- The fields that the block of a message comes to read are there: that of its type, as the
relay reads it.  A message whose type the relay cannot read comes to no block, and one that the
DOM parser rejects has none of its fields read. -/
def FieldsThere (clientUUID s : Text) (g : Gui) : Prop :=
  ∀ type o, onDemandType s = some type → domParse s = some o →
    if type = bEventPositionUpdateMessage ∨ type = bEventPositionDebugUpdateMessage then
      PositionFields o
    else GuiFields clientUUID g o

lemma process_of_type {s : Text} {type : ℤ} (ht : onDemandType s = some type) (clientUUID : Text)
    (g : Gui) :
    process clientUUID s g
      = if type = bEventPositionUpdateMessage ∨ type = bEventPositionDebugUpdateMessage then
          block positionUpdate s g
        else block (guiUpdate clientUUID) s g := by
  have hs : s ≠ [] := by
    rintro rfl
    rw [readsType_onDemandType.empty] at ht
    cases ht
  rw [process, relay, if_neg hs]
  simp only [ht]
  by_cases hpos : type = bEventPositionUpdateMessage ∨ type = bEventPositionDebugUpdateMessage
  · rw [if_pos hpos, if_pos hpos]
  · rw [if_neg hpos, if_neg hpos]

lemma process_of_no_type {s : Text} (ht : onDemandType s = none) (clientUUID : Text) (g : Gui) :
    process clientUUID s g = .popped g := by
  by_cases hs : s = []
  · rw [process, relay, if_pos hs]
  · rw [process, relay, if_neg hs, ht]

/-- What has happened to the variables as a whole has happened safely. -/
lemma safe_of_whole {clientUUID s : Text} {o : Object} {g g' : Gui} (ho : domParse s = some o)
    (hp : process clientUUID s g = .popped g') (h : Whole clientUUID o g g') :
    Safe clientUUID s g := by
  refine ⟨g', hp, ?_⟩
  rcases h with rfl | ⟨u, hu, rfl⟩
  · exact Or.inl ⟨rfl, rfl, rfl⟩
  · exact Or.inr ⟨o, u, ho, hu, rfl⟩

lemma not_safe_of_escaped {clientUUID s : Text} {g g' : Gui} {e : Exn}
    (h : process clientUUID s g = .escaped e g') : ¬ Safe clientUUID s g := by
  rintro ⟨g'', h', -⟩
  rw [h] at h'
  exact absurd h' (by simp)

lemma fieldsThere_of_safe {clientUUID s : Text} {g : Gui} (h : Safe clientUUID s g) :
    FieldsThere clientUUID s g := by
  intro type o ht ho
  have hp := process_of_type ht clientUUID g
  by_contra hf
  split_ifs at hp hf
  · obtain ⟨g', hb⟩ := block_of_throws positionUpdate ho (throws_positionUpdate hf g)
    exact not_safe_of_escaped (hp.trans hb) h
  · obtain ⟨g', hb⟩ := block_of_throws (guiUpdate clientUUID) ho (throws_guiUpdate hf)
    exact not_safe_of_escaped (hp.trans hb) h

lemma safe_of_fieldsThere {clientUUID s : Text} {g : Gui} (h : FieldsThere clientUUID s g) :
    Safe clientUUID s g := by
  have hskip : process clientUUID s g = .popped g → Safe clientUUID s g := fun hp =>
    ⟨g, hp, Or.inl ⟨rfl, rfl, rfl⟩⟩
  cases ht : onDemandType s with
  | none => exact hskip (process_of_no_type ht clientUUID g)
  | some type =>
    have hp := process_of_type ht clientUUID g
    cases ho : domParse s with
    | none =>
      rw [block_of_unparsed ho, block_of_unparsed ho, ite_self] at hp
      exact hskip hp
    | some o =>
      have hf := h type o ht ho
      split_ifs at hp hf
      · obtain ⟨g', hends, hw⟩ := positionUpdate_whole hf clientUUID g
        exact safe_of_whole ho (hp.trans (block_of_ends ho hends)) hw
      · obtain ⟨g', hends, hw⟩ := guiUpdate_whole hf
        exact safe_of_whole ho (hp.trans (block_of_ends ho hends)) hw

/-- **A message is processed safely if and only if the fields are there** that its block comes
to read. -/
theorem message_safe_iff (clientUUID s : Text) (g : Gui) :
    Safe clientUUID s g ↔ FieldsThere clientUUID s g :=
  ⟨fieldsThere_of_safe, safe_of_fieldsThere⟩

/-- The variables of a client that has just started. -/
def freshGui : Gui where
  externalplayers := fun _ => none
  timestamp := []
  textmessagesdisplay := []
  move := false

/-- The payload of a position with nothing in it but its type. -/
def barePayload : Text := "\x7b\"Type\":1\x7d".toList

/-- The frame that makes the server forward it. -/
def bareFrame : Text := "\x7b\"Type\":0,\"Payload\":\x7b\"Type\":1\x7d\x7d".toList

/-- The server forwards the bare payload. -/
lemma forwards_barePayload : Forwards barePayload := by
  refine ⟨bareFrame, ⟨0, barePayload⟩, ⟨[], []⟩, [], .others [], .passthrough barePayload,
    ?_, ?_, ?_, rfl⟩
  · decide +kernel
  · decide +kernel
  · decide +kernel

/-- A position without a UUID is forwarded, and brings down every client that it reaches. -/
theorem bare_position_escapes :
    ¬ ∀ clientUUID s g, Forwards s → (parseObject s).isSome → Safe clientUUID s g := by
  intro h
  have hsafe := h [] barePayload freshGui forwards_barePayload (by decide +kernel)
  have hparse : domParse barePayload = some [⟨"Type".toList, ['1']⟩] := by decide +kernel
  have htype : onDemandType barePayload = some 1 := by decide +kernel
  have hfields := fieldsThere_of_safe hsafe 1 _ htype hparse
  rw [if_pos (by decide)] at hfields
  obtain ⟨type, ht, hpos⟩ := hfields
  have ht₁ : Object.uint64 [⟨"Type".toList, ['1']⟩] "Type" = some 1 := by decide +kernel
  rw [ht₁, Option.some.injEq] at ht
  subst ht
  have huuid : Object.string [⟨"Type".toList, ['1']⟩] "UUID" = none := by decide +kernel
  have hhas := (hpos (by decide +kernel)).uuid
  rw [huuid] at hhas
  exact absurd hhas (by simp)

end MultiplayerCars.Wire
