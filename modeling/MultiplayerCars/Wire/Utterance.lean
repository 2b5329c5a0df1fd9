import MultiplayerCars.CPPClient.ChatWindow
import MultiplayerCars.Wire.Courtesy
import MultiplayerCars.Wire.Passage

/-!
# What a player says

A text goes into a frame, and the server makes a message for the others of it.  In a run in which
the texts need no escapes the server reads every text as it was typed, under the name of its
sender, and whatever else it sends is no text.  Nothing is asked of positions and colours: they may
be dropped by a session that is not ready, and by a batch pass.
-/

namespace MultiplayerCars.Wire

open Lib Lib.Json CPPClient
open GoServer (ClientId Act Server Pc Thread Packet Begins Joined Event Peers Message Fresh
  unmarshalEvent unmarshalTextUpdateEvent routeEvent)

/-! ### Texts in frames and in messages -/

/-- The text of a chat message, if it is from the client with the UUID. -/
def textFrom (v : Text) (said : Text × TextContext) : Option Text :=
  if said.1 = v then some said.2.text else none

/-- The text of the client with the UUID that a message brings. -/
def textOf (v s : Text) : Option Text :=
  match updateOf s with
  | some (.text fromUUID entry) => if fromUUID = v then some entry.text else none
  | _ => none

/-- The text that the server reads from a frame. -/
def utterance (f : Frame) : Option Text :=
  (unmarshalEvent f.bytes).bind fun e =>
    if e.type = GoServer.eventTextUpdateMessage then
      (unmarshalTextUpdateEvent e.payload).map GoServer.TextUpdateEvent.text
    else none

section

variable {uuid : UuidV4} {f : Frame} {v : Text}

/-- A text of somebody else is shown as what it is. -/
lemma textFrom_of_chatOf {own : Text} (hne : v ≠ own) (s : Text) :
    (chatOf own s).bind (textFrom v) = textOf v s := by
  rw [chatOf, textOf]
  cases updateOf s with
  | none => rfl
  | some u =>
    cases u with
    | text fromUUID entry =>
      dsimp only
      by_cases hv : fromUUID = v
      · rw [if_neg (by rw [hv]; exact hne), Option.bind_some, textFrom]
      · rw [if_neg hv]
        split_ifs
        · rfl
        · rw [Option.bind_some, textFrom, if_neg hv]
    | _ => rfl

lemma textOf_of_wellFormed {s : Text} {u : Update} (hu : WellFormed s u)
    (hno : ∀ fromUUID entry, u ≠ .text fromUUID entry) : textOf v s = none := by
  rw [textOf, hu.updateOf_eq]
  cases u with
  | text fromUUID entry => exact absurd rfl (hno fromUUID entry)
  | _ => rfl

lemma timeless_textOf (v : Text) : Timeless (textOf v) := by
  intro s c now
  exact textOf_of_wellFormed (wellFormed_timeStamp (sendable_origin (by decide)) rfl) (by simp)

lemma utterance_posFrame {k : HexColor} {X Y : ℤ} (hf : f.bytes = posFrame k.text uuid.text X Y) :
    utterance f = none := by
  rw [utterance, hf, unmarshalEvent_posFrame, Option.bind_some]
  exact if_neg (by decide : GoServer.eventPositionMessage ≠ GoServer.eventTextUpdateMessage)

lemma utterance_colorFrame {k : HexColor} (hf : f.bytes = colorFrame k.text) :
    utterance f = none := by
  rw [utterance, hf, unmarshalEvent_colorFrame, Option.bind_some]
  exact if_neg (by decide : GoServer.eventColorUpdateMessage ≠ GoServer.eventTextUpdateMessage)

lemma utterance_chatFrame {k : HexColor} {t : TypedText} (ht : NoEscapes t)
    (hf : f.bytes = chatFrame uuid k t) : utterance f = some t.text := by
  rw [utterance, hf, unmarshalEvent_chatFrame uuid k (isKey_of_noEscapes ht), Option.bind_some,
    if_pos rfl, unmarshal_chatPayload uuid k (isKey_of_noEscapes ht) (decodeStr_of_noEscapes ht _)]
  rfl

/-- A message that says what a frame does brings its text, if it has one, under the name of the
sender. -/
lemma textOf_of_meant {s now : Text} {u : Update} (h : Meant uuid f now u) (hs : WellFormed s u) :
    textOf v s = if v = uuid.text then utterance f else none := by
  cases h with
  | position hX hY hf =>
    rw [utterance_posFrame hf, ite_self]
    exact textOf_of_wellFormed hs (by simp)
  | color hf =>
    rw [utterance_colorFrame hf, ite_self]
    exact textOf_of_wellFormed hs (by simp)
  | chat ht hf =>
    rw [utterance_chatFrame ht hf, textOf, hs.updateOf_eq]
    dsimp only
    by_cases hv : uuid.text = v
    · rw [if_pos hv, if_pos hv.symm]
    · rw [if_neg hv, if_neg (Ne.symm hv)]

end

/-! ### Runs in which texts need no escapes -/

/-- What holds in every state of such a run in which nobody leaves. -/
structure Sociable (P : Party) (w : World) : Prop where
  courteous : Courteous P (fun _ => True) w
  unbroken : GoServer.Unbroken w.server
  joined : Joined w.server
  /-- What waits for `workerWrite` is no text. -/
  queued : ∀ i, ∀ f ∈ (w.client i).session.asyncWriteQueue, utterance f = none
  undebugged : Undebugged w.server
  passed : ∀ v, Passed (textOf v) w

section Sociable

variable {P : Party} {w : World}

lemma lenient_true : Lenient fun _ => True :=
  ⟨fun _ => trivial, fun _ => trivial, fun _ _ _ => trivial⟩

lemma Sociable.start (P : Party) : Sociable P (World.start P) where
  courteous := Courteous.start P fun _ _ => ⟨trivial, trivial⟩
  unbroken := by
    intro t ht
    exact ht
  joined := by
    intro c hc
    exact absurd trivial hc
  queued := by simp [World.start, Client.start, Session.start]
  undebugged := by
    intro c payload hc
    cases hc
  passed := fun v i => rfl

/-- The clients of such a run are honest. -/
lemma Sociable.hosted (h : Sociable P w) : Hosted P w where
  server := h.courteous.server
  unbroken := h.unbroken
  member := fun c hc => (h.courteous.member c hc).imp id And.left
  owner := h.courteous.owner
  honest := by
    intro i f hf
    obtain ⟨u, hu, -⟩ := h.courteous.said i f hf []
    exact hu.honest
  frames := h.courteous.frames

lemma Sociable.server_step (h : Sociable P w) {a : Act} (ha : w.serves P a) {s : Server}
    (hs : GoServer.Step w.server a s) (hno : ∀ t, s.pc t ≠ .removeLock) :
    Sociable P { w with server := s, down := w.sent a } where
  courteous := h.courteous.server_step lenient_true ha hs
  unbroken := h.unbroken.step h.courteous.server.started hs hno
  joined := h.joined.step h.courteous.server.started h.unbroken hs
  queued := h.queued
  undebugged := h.undebugged.step h.hosted ha hs
  passed := fun v =>
    (h.passed v).server_step (timeless_textOf v) h.courteous.server h.undebugged hs hno

/-- What waits for `workerWrite` are positions, and those are no texts. -/
lemma queued_sessionStep {c : Client} {a : ClientAct} {s t : Session}
    (hs : SessionStep c a s t) (hq : ∀ f ∈ s.asyncWriteQueue, utterance f = none) :
    ∀ f ∈ t.asyncWriteQueue, utterance f = none := by
  intro f hf
  cases hs with
  | position =>
    rcases List.mem_append.mp hf with hf | hf
    · exact hq f hf
    · rw [List.mem_singleton.mp hf]
      exact utterance_posFrame (k := s.currColor) (X := c.X) (Y := c.Y) (by dsimp only)
  | pop => exact hq f (List.mem_of_mem_tail hf)
  | _ => exact hq f hf

lemma Sociable.client_step (h : Sociable P w) {i : ClientId} {c : Client} {a : ClientAct}
    (hs : ClientStep (w.client i) a c) {down : ClientId → List Text}
    (hcourteous : Courteous P (fun _ => True)
      { w with client := Function.update w.client i c, down := down })
    (hpassed : ∀ v, Passed (textOf v)
      { w with client := Function.update w.client i c, down := down }) :
    Sociable P { w with client := Function.update w.client i c, down := down } where
  courteous := hcourteous
  unbroken := h.unbroken
  joined := h.joined
  queued := fun j => forall_update (p := fun _ c =>
    ∀ f ∈ c.session.asyncWriteQueue, utterance f = none) (h.queued j)
    fun hq => queued_sessionStep hs.sessionStep hq
  undebugged := h.undebugged
  passed := hpassed

theorem Sociable.step (h : Sociable P w) {a : WorldAct} {w' : World} (ha : Outspoken w a)
    (hs : WorldStep P w a w') (hno : Staying w') : Sociable P w' := by
  have hspeaks : Speaks P (fun _ => True) w a := by
    cases a with
    | client => exact fun _ _ _ _ => trivial
    | _ => trivial
  have hcourteous := h.courteous.step lenient_true ha hs (fun _ _ => ⟨trivial, trivial⟩) hspeaks
  cases hs with
  | server hserves hs => exact h.server_step hserves hs hno
  | client hm hs =>
    refine h.client_step hs hcourteous fun v j => ?_
    rw [inbox_client_step hm hs]
    exact h.passed v j
  | deliver hd hs =>
    refine h.client_step hs hcourteous fun v j => ?_
    rw [inbox_deliver hd hs]
    exact h.passed v j

end Sociable

end MultiplayerCars.Wire
