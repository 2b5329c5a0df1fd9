import MultiplayerCars.CPPClient.Session
import MultiplayerCars.Wire.Messages
import MultiplayerCars.Wire.Reading

/-!
# A position, from one client to another

The whole way of a position: the template and its minified frame, the event that the server
decodes, the payload that it passes on, the queue into which the relay of a peer puts it, and the
entry that the position block makes of it.  The entry is under the UUID that the server puts
into the exit notice of the sender, so that the gui block removes it again.
-/

namespace MultiplayerCars.Wire

open Lib.Json CPPClient
open GoServer (Server ClientId Event unmarshalEvent routeEvent byteLength readLimit)

/-- The integer is an `int` of 32 bits. -/
def IsInt (i : ℤ) : Prop := -2147483648 ≤ i ∧ i < 2147483648

/-- The size of `m_posRawJson`. -/
def posRawJsonSize : ℕ := 300

lemma toInt_of_isInt {i : ℤ} (h : IsInt i) : toInt i = i := by
  obtain ⟨h₁, h₂⟩ := h
  rw [toInt]
  omega

lemma int64_of_isInt {i : ℤ} (h : IsInt i) : -int64Bound ≤ i ∧ i < int64Bound := by
  obtain ⟨h₁, h₂⟩ := h
  simp only [int64Bound]
  omega

/-- An `int` has ten digits at most, and a sign. -/
lemma length_showInt {i : ℤ} (h : IsInt i) : (showInt i).length ≤ 11 := by
  obtain ⟨h₁, h₂⟩ := h
  have hdigits : (Nat.toDigits 10 i.natAbs).length ≤ 10 := by
    refine (Nat.length_toDigits_le_iff (by omega) (by omega)).mpr ?_
    norm_num
    omega
  rw [showInt]
  split_ifs
  · rw [List.length_cons]
    omega
  · omega

/-- The template, with its terminating zero, fits into its buffer. -/
lemma length_posRawJson (k : HexColor) (u : UuidV4) {X Y : ℤ} (hX : IsInt X) (hY : IsInt Y) :
    (posRawJson k.text u.text X Y).length < posRawJsonSize := by
  have htype : showInt eventPositionMessage = ['0'] := by decide
  have hbtype : showInt bEventPositionUpdateMessage = ['1'] := by decide
  have h₁ : " \x7b \"Type\": ".toList.length = 11 := by decide
  have h₂ : " , \"Payload\": \x7b \"Color\": \"".toList.length = 26 := by decide
  have h₃ : "\", \"Type\": ".toList.length = 11 := by decide
  have h₄ : ", \"UUID\": \"".toList.length = 11 := by decide
  have h₅ : "\", \"X\": ".toList.length = 8 := by decide
  have h₆ : ", \"Y\": ".toList.length = 7 := by decide
  have h₇ : " \x7d \x7d ".toList.length = 5 := by decide
  have hx := length_showInt hX
  have hy := length_showInt hY
  have hk := k.length
  have hu := u.length
  unfold posRawJson posRawJsonSize
  simp only [List.length_append, htype, hbtype, h₁, h₂, h₃, h₄, h₅, h₆, h₇, hk, hu,
    List.length_singleton]
  omega

lemma toNat_of_isNumChar {c : Char} (h : isNumChar c) : c.toNat < 128 := by
  have h₀ : '9'.toNat = 57 := rfl
  simp only [isNumChar, Bool.or_eq_true, beq_iff_eq] at h
  rcases h with ((((h | rfl) | rfl) | rfl) | rfl) | rfl
  · rw [Char.isDigit_iff_toNat] at h
    omega
  · decide
  · decide
  · decide
  · decide
  · decide

/-- The frame of a position is within the read limit. -/
lemma byteLength_posFrame (k : HexColor) (u : UuidV4) {X Y : ℤ} (hX : IsInt X) (hY : IsInt Y) :
    byteLength (posFrame k.text u.text X Y) ≤ readLimit := by
  have hint : ∀ i, byteLength (showInt i) = (showInt i).length := fun i =>
    byteLength_of_ascii fun c hc => toNat_of_isNumChar (isNumChar_of_mem_showInt hc)
  have htype : showInt eventPositionMessage = ['0'] := by decide
  have hbtype : showInt bEventPositionUpdateMessage = ['1'] := by decide
  have h₁ : byteLength "\x7b\"Type\":".toList = 8 := by decide
  have h₂ : byteLength ",\"Payload\":\x7b\"Color\":\"".toList = 21 := by decide
  have h₃ : byteLength "\",\"Type\":".toList = 9 := by decide
  have h₄ : byteLength ",\"UUID\":\"".toList = 9 := by decide
  have h₅ : byteLength "\",\"X\":".toList = 6 := by decide
  have h₆ : byteLength ",\"Y\":".toList = 5 := by decide
  have h₇ : byteLength "\x7d\x7d".toList = 2 := by decide
  have h₈ : byteLength ['0'] = 1 := by decide
  have h₉ : byteLength ['1'] = 1 := by decide
  have hx := length_showInt hX
  have hy := length_showInt hY
  rw [posFrame_text k.plain u.plain, htype, hbtype]
  simp only [byteLength_append, byteLength_color, byteLength_uuid, hint, h₁, h₂, h₃, h₄, h₅, h₆,
    h₇, h₈, h₉]
  unfold readLimit
  omega

/-- What the server decodes from the frame of a position. -/
lemma unmarshalEvent_posFrame (k : HexColor) (u : UuidV4) (X Y : ℤ) :
    unmarshalEvent (posFrame k.text u.text X Y)
      = some ⟨GoServer.eventPositionMessage, printObject (posPayload k.text u.text X Y)⟩ := by
  rw [posFrame_eq k.plain u.plain]
  exact unmarshalEvent_frame (by decide) (posPayload_wf k.plain u.plain X Y)

/-- What the payload of a position says. -/
lemma wellFormed_posFrame (k : HexColor) (u : UuidV4) {X Y : ℤ} (hX : IsInt X) (hY : IsInt Y) :
    WellFormed (printObject (posPayload k.text u.text X Y)) (.position u.text ⟨X, Y, k.text⟩) := by
  have hwf := wellFormed_posPayload k.plain u.plain (int64_of_isInt hX) (int64_of_isInt hY)
  rwa [toInt_of_isInt hX, toInt_of_isInt hY] at hwf

/-- What the exit notice of a client says. -/
lemma wellFormed_clientExit (srv : Server) (c : ClientId) (now : Text) :
    WellFormed (srv.clientExit c now).message.bytes (.exit (srv.client c).uuid) :=
  wellFormed_exit (sendable_origin (by decide)) rfl

/-- **The position codec, end to end.**  The frame that a connected session queues for a position
fits its buffer and the read limit, and the server decodes it to a position event; the payload
that the server forwards goes into the position queue of a peer, whose position block sets the
entry of the sender to exactly that car, and no other.  The exit notice of a client with that
UUID goes into the gui queue, and the gui block removes exactly that entry. -/
theorem position_codec (s : Session) {X Y : ℤ} (hX : IsInt X) (hY : IsInt Y) :
    ∃ frame payload,
      (s.sendPosition true X Y).asyncWriteQueue
        = s.asyncWriteQueue ++ [⟨s.currColor, frame⟩] ∧
      (posRawJson s.currColor.text s.uuid.text X Y).length < posRawJsonSize ∧
      byteLength frame ≤ readLimit ∧
      unmarshalEvent frame = some ⟨0, payload⟩ ∧
      (∀ c now, (routeEvent ⟨0, payload⟩ c now).2
        = .send (.others c.uuid) (.passthrough payload)) ∧
      relay payload = .position ∧
      (∀ g, ∃ g', block positionUpdate payload g = .popped g' ∧
        g'.externalplayers = Function.update g.externalplayers s.uuid.text
          (some ⟨X, Y, s.currColor.text⟩)) ∧
      ∀ (srv : Server) (c : ClientId) (now : Text), (srv.client c).uuid = s.uuid.text →
        relay (srv.clientExit c now).message.bytes = .gui ∧
        ∀ clientUUID g, ∃ g',
          block (guiUpdate clientUUID) (srv.clientExit c now).message.bytes g = .popped g' ∧
          g'.externalplayers = Function.update g.externalplayers s.uuid.text none := by
  have hwf := wellFormed_posFrame s.currColor s.uuid hX hY
  refine ⟨posFrame s.currColor.text s.uuid.text X Y,
    printObject (posPayload s.currColor.text s.uuid.text X Y), rfl,
    length_posRawJson s.currColor s.uuid hX hY, byteLength_posFrame s.currColor s.uuid hX hY,
    unmarshalEvent_posFrame s.currColor s.uuid X Y, ?_, hwf.relay_eq, ?_, ?_⟩
  · intro c now
    rw [GoServer.routeEvent_position rfl]
    rfl
  · intro g
    exact ⟨_, hwf.block_position rfl [] g, rfl⟩
  · intro srv c now hu
    have hexit := wellFormed_clientExit srv c now
    rw [hu] at hexit
    refine ⟨hexit.relay_eq, fun clientUUID g => ⟨_, hexit.block_gui (by simp [Update.isPosition])
      clientUUID g, rfl⟩⟩

/-- The least and the greatest `int`. -/
theorem position_codec_extremes : ∃ frame payload,
    ((Session.start someUuid blue).sendPosition true (-2147483648) 2147483647).asyncWriteQueue
      = [⟨blue, frame⟩] ∧ unmarshalEvent frame = some ⟨0, payload⟩ ∧ relay payload = .position := by
  have hmin : IsInt (-2147483648) := ⟨by omega, by omega⟩
  have hmax : IsInt 2147483647 := ⟨by omega, by omega⟩
  obtain ⟨frame, payload, hq, -, -, he, -, hr, -⟩ :=
    position_codec (Session.start someUuid blue) hmin hmax
  exact ⟨frame, payload, hq, he, hr⟩

end MultiplayerCars.Wire
