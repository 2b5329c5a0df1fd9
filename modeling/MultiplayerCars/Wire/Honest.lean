import MultiplayerCars.GoServer.Goroutine
import MultiplayerCars.CPPClient.Calls
import MultiplayerCars.Wire.Chat

/-!
# Honest clients, and what the server makes of their frames

An honest client sends what its program builds: positions on the screen, colours, and texts that
do not pass for positions.  From their frames, from its announcements and from its time stamps
the server makes messages that every client can read, none of which is an exit, and whose
positions are those of the clients that are there.
-/

namespace MultiplayerCars.Wire

open Lib Lib.Json CPPClient
open GoServer (Event Peers Message routeEvent unmarshalEvent unmarshalColorUpdateEvent
  unmarshalTextUpdateEvent)

/-! ### Frames -/

/-- The server takes the frame for no position. -/
def NoPosition (frame : Text) : Prop := ∀ e, unmarshalEvent frame = some e →
  e.type ≠ GoServer.eventPositionMessage ∧ e.type ≠ GoServer.eventPositionDebugMessage

/-- A frame of an honest client: its position, or what the server takes for no position. -/
inductive Honest (uuid : UuidV4) (f : Frame) : Prop
  | position {k : HexColor} {X Y : ℤ} (hX : 0 ≤ X ∧ X < windowScreenWidth)
      (hY : 0 ≤ Y ∧ Y < windowYBoundary) (hf : f.bytes = posFrame k.text uuid.text X Y)
  | other (hp : f.isPosition = false) (hf : NoPosition f.bytes)

lemma noPosition_of_unmarshal {frame : Text} {event : Event}
    (h : unmarshalEvent frame = some event) (hpos : event.type ≠ GoServer.eventPositionMessage)
    (hdebug : event.type ≠ GoServer.eventPositionDebugMessage) : NoPosition frame := by
  intro e he
  rw [h] at he
  rw [← Option.some.inj he]
  exact ⟨hpos, hdebug⟩

lemma noPosition_colorFrame (k : HexColor) : NoPosition (colorFrame k.text) := by
  rw [colorFrame_eq k.plain]
  exact noPosition_of_unmarshal (unmarshalEvent_frame (by decide) (colorPayload_wf k.plain))
    (by decide : eventColorUpdateMessage ≠ GoServer.eventPositionMessage)
    (by decide : eventColorUpdateMessage ≠ GoServer.eventPositionDebugMessage)

/-! ### Messages -/

/-- A message that every client can read, that is no exit, and whose position, if it is one, is
that of one of the given UUIDs. -/
def Welcome (present : Text → Prop) (m : Text) : Prop :=
  ∃ u, WellFormed m u ∧ (∀ v, u ≠ .exit v) ∧ ∀ v car, u = .position v car → present v

section Welcome

variable {present : Text → Prop} {m uuid : Text}

lemma Welcome.mono {present' : Text → Prop} (h : Welcome present m)
    (hp : ∀ v, present v → present' v) : Welcome present' m := by
  obtain ⟨u, hu, hexit, hpos⟩ := h
  exact ⟨u, hu, hexit, fun v car he => hp v (hpos v car he)⟩

lemma Welcome.wellFormed (h : Welcome present m) : ∃ u, WellFormed m u := by
  obtain ⟨u, hu, -⟩ := h
  exact ⟨u, hu⟩

lemma Welcome.no_exit (h : Welcome present m) (uuid : Text) : verdict uuid m ≠ some false := by
  obtain ⟨u, hu, hexit, -⟩ := h
  rw [verdict, hu.updateOf_eq, Option.bind_some]
  cases u with
  | exit v => exact absurd rfl (hexit v)
  | position v car =>
    simp only [Update.verdict]
    split_ifs <;> simp
  | _ => simp [Update.verdict]

lemma Welcome.present_of_verdict (h : Welcome present m) (hv : verdict uuid m = some true) :
    present uuid := by
  obtain ⟨u, hu, -, hpos⟩ := h
  rw [verdict, hu.updateOf_eq, Option.bind_some] at hv
  cases u with
  | position v car =>
    simp only [Update.verdict] at hv
    split_ifs at hv with he
    exact he ▸ hpos v car rfl
  | exit v =>
    simp only [Update.verdict] at hv
    split_ifs at hv
    simp at hv
  | _ => simp [Update.verdict] at hv

lemma welcome_position {car : CarContext} (h : WellFormed m (.position uuid car))
    (hp : present uuid) : Welcome present m := by
  refine ⟨_, h, fun v he => by simp at he, fun v car' he => ?_⟩
  obtain ⟨rfl, -⟩ := Update.position.inj he
  exact hp

lemma welcome_of_quiet {u : Update} (h : WellFormed m u) (hexit : ∀ v, u ≠ .exit v)
    (hpos : ∀ v car, u ≠ .position v car) : Welcome present m :=
  ⟨u, h, hexit, fun v car he => absurd he (hpos v car)⟩

lemma verdict_position {car : CarContext} (h : WellFormed m (.position uuid car)) :
    verdict uuid m = some true := by
  rw [verdict, h.updateOf_eq, Option.bind_some, Update.verdict, if_pos rfl]

end Welcome

/-! ### What the server makes of a frame -/

/-- The payload of a position on the screen is a position. -/
lemma wellFormed_onScreen (k : HexColor) (uuid : UuidV4) {X Y : ℤ}
    (hX : 0 ≤ X ∧ X < windowScreenWidth) (hY : 0 ≤ Y ∧ Y < windowYBoundary) :
    ∃ car, WellFormed (printObject (posPayload k.text uuid.text X Y))
      (.position uuid.text car) := by
  have hwidth : windowScreenWidth = 1600 := rfl
  have hheight : windowYBoundary = 570 := by decide
  refine ⟨_, wellFormed_posPayload k.plain uuid.plain ?_ ?_⟩
  · simp only [int64Bound]
    omega
  · simp only [int64Bound]
    omega

/-- The server passes the position of an honest client on to the others. -/
lemma reply_of_position {uuid : UuidV4} {f : Frame} (h : Honest uuid f) (hp : f.isPosition)
    (c : GoServer.Client) (now : Text) :
    ∃ e payload car, unmarshalEvent f.bytes = some e ∧
      (routeEvent e c now).2 = .send (.others c.uuid) (.passthrough payload) ∧
      WellFormed payload (.position uuid.text car) := by
  cases h with
  | @position k X Y hX hY hf =>
    obtain ⟨car, hwf⟩ := wellFormed_onScreen k uuid hX hY
    refine ⟨⟨eventPositionMessage, printObject (posPayload k.text uuid.text X Y)⟩,
      printObject (posPayload k.text uuid.text X Y), car, ?_, ?_, hwf⟩
    · rw [hf, posFrame_eq k.plain uuid.plain]
      exact unmarshalEvent_frame (by decide) (posPayload_wf k.plain uuid.plain X Y)
    · rw [GoServer.routeEvent_position rfl]
      rfl
  | other hno =>
    rw [hno] at hp
    cases hp

/-- What the server sends to anybody because of a frame that is no position. -/
lemma welcome_of_noPosition {e : Event}
    (hpos : e.type ≠ GoServer.eventPositionMessage)
    (hdebug : e.type ≠ GoServer.eventPositionDebugMessage) (c : GoServer.Client) (now : Text) :
    (∀ peers m, (routeEvent e c now).2 = .send peers m → ∀ present, Welcome present m.bytes) ∧
      ∀ payload, (routeEvent e c now).2 ≠ .debug payload := by
  by_cases hcolor : e.type = GoServer.eventColorUpdateMessage
  · rw [GoServer.routeEvent_color hcolor, GoServer.handleColorUpdate]
    cases unmarshalColorUpdateEvent e.payload with
    | none => simp
    | some colorMsg =>
      refine ⟨fun peers m hr present => ?_, by simp⟩
      simp only [GoServer.Reply.send.injEq] at hr
      rw [← hr.2]
      exact welcome_of_quiet (wellFormed_color (sendable_origin (by decide)) rfl) (by simp)
        (by simp)
  by_cases htext : e.type = GoServer.eventTextUpdateMessage
  · rw [GoServer.routeEvent_text htext, GoServer.handleTextUpdate]
    cases unmarshalTextUpdateEvent e.payload with
    | none => simp
    | some textMsg =>
      refine ⟨fun peers m hr present => ?_, by simp⟩
      simp only [GoServer.Reply.send.injEq] at hr
      rw [← hr.2]
      exact welcome_of_quiet (wellFormed_textMessage rfl) (by simp) (by simp)
  rw [GoServer.routeEvent, if_neg hpos, if_neg hcolor, if_neg htext, if_neg hdebug]
  simp

/-- Because of a frame of an honest client the server sends welcome messages, its positions to the
others, and debugs nothing. -/
theorem welcome_reply {uuid : UuidV4} {f : Frame} (h : Honest uuid f) {e : Event}
    (he : unmarshalEvent f.bytes = some e) (c : GoServer.Client) (now : Text) :
    (∀ peers m, (routeEvent e c now).2 = .send peers m →
      Welcome (fun v => v = uuid.text ∧ peers = .others c.uuid) m.bytes) ∧
      ∀ payload, (routeEvent e c now).2 ≠ .debug payload := by
  by_cases hp : f.isPosition
  · obtain ⟨e', payload, car, he', hr, hwf⟩ := reply_of_position h hp c now
    rw [he'] at he
    obtain rfl := Option.some.inj he
    rw [hr]
    refine ⟨fun peers m hsend => ?_, by simp⟩
    simp only [GoServer.Reply.send.injEq] at hsend
    rw [← hsend.2]
    exact welcome_position hwf ⟨rfl, hsend.1.symm⟩
  · cases h with
    | @position k X Y hX hY hf =>
      refine absurd ?_ hp
      have hpos := isPosition_posFrame k uuid X Y
      rw [← hf] at hpos
      exact hpos
    | other hno hnone =>
      obtain ⟨h₁, h₂⟩ := hnone e he
      obtain ⟨hsend, hdebug⟩ := welcome_of_noPosition h₁ h₂ c now
      exact ⟨fun peers m hr => hsend peers m hr _, hdebug⟩

/-- The announcement of a client is a position of the client. -/
lemma wellFormed_initPosition (s : GoServer.Server) (c : GoServer.ClientId) (now : Text) :
    ∃ car, WellFormed (s.initPosition c now).message.bytes
      (.position (s.client c).uuid car) :=
  ⟨_, wellFormed_announcement (sendable_origin (by decide)) rfl⟩

lemma welcome_timeStamp (present : Text → Prop) (s : GoServer.Server) (c : GoServer.ClientId)
    (now : Text) : Welcome present (s.timeStamp c now).marshal :=
  welcome_of_quiet (wellFormed_timeStamp (sendable_origin (by decide)) rfl) (by simp) (by simp)

/-! ### Honest clients -/

/-- The session is ready for every position that the client has to send, and the client throws no
position away. -/
def Steady (c : Client) : ClientAct → Prop
  | .move ready => c.gui.move = true → ready = true
  | .batch => c.discards = false
  | _ => True

/-- A text that is sent does not pass for a position. -/
def Innocent (c : Client) : ClientAct → Prop
  | .text ready => ready = true → c.text = true →
      NoPosition (chatFrame c.session.uuid c.session.currColor c.textmessage)
  | _ => True

/-- What an honest client does not do: go on while its session is not ready for the position that
it has to send, throw away positions, and send a text that passes for a position. -/
def Civil (c : Client) : ClientAct → Prop
  | .move ready => c.gui.move = true → ready = true
  | .batch => c.discards = false
  | .text ready => ready = true → c.text = true →
      NoPosition (chatFrame c.session.uuid c.session.currColor c.textmessage)
  | _ => True

lemma civil_of_steady {c : Client} {a : ClientAct} (h : Steady c a) (h' : Innocent c a) :
    Civil c a := by
  cases a with
  | text ready => exact h'
  | _ => exact h

/-- What holds of an honest client with the given UUID, when all that has arrived is welcome. -/
structure Player (uuid : UuidV4) (present : Text → Prop) (c : Client) : Prop where
  owner : c.session.uuid = uuid
  tidy : Tidy c
  onScreen : OnScreen c
  paced : Paced c.session
  honest : ∀ f ∈ c.session.asyncWriteQueue ++ c.session.written, Honest uuid f
  arrived : ∀ m ∈ c.arrived, Welcome present m
  waiting : SplitStream.AllWaiting (Welcome present) c.view

section Player

variable {uuid : UuidV4} {present : Text → Prop} {c c' : Client} {a : ClientAct}

lemma Player.start (uuid : UuidV4) (present : Text → Prop) :
    Player uuid present (Client.start uuid) where
  owner := rfl
  tidy := (Orderly.start uuid).tidy
  onScreen := by
    have hwidth : (0 : ℤ) < windowScreenWidth := by decide
    have hheight : (0 : ℤ) < windowYBoundary := by decide
    exact ⟨le_refl 0, hwidth, le_refl 0, hheight⟩
  paced := ⟨by simp [Client.start, Session.start], by simp [Client.start, Session.start]⟩
  honest := by simp [Client.start, Session.start]
  arrived := by simp [Client.start]
  waiting := by
    intro b m hm
    cases b <;> simp [Client.view, Client.unrelayed, Client.untaken, Client.start] at hm

lemma Player.mono {present' : Text → Prop} (h : Player uuid present c)
    (hp : ∀ v, present v → present' v) : Player uuid present' c :=
  { h with
    arrived := fun m hm => (h.arrived m hm).mono hp
    waiting := fun b m hm => (h.waiting b m hm).mono hp }

/-- The messages that an honest client is handed are well formed. -/
lemma ordinary_of_civil (hc : Civil c a) (hmsg : ∀ msg, a = .onMessage msg → Welcome present msg) :
    Ordinary c a := by
  cases a with
  | onMessage msg => exact (hmsg msg rfl).wellFormed
  | batch => exact hc
  | _ => trivial

theorem Player.step (h : Player uuid present c) (hc : Civil c a)
    (hmsg : ∀ msg, a = .onMessage msg → Welcome present msg) (hs : ClientStep c a c') :
    Player uuid present c' := by
  have hord := ordinary_of_civil hc hmsg
  have harrived : ∀ m ∈ c'.arrived, Welcome present m := by
    intro m hm
    rcases arrived_of_step hs with he | ⟨msg, ha, he⟩
    · rw [he] at hm
      exact h.arrived m hm
    · rw [he] at hm
      rcases List.mem_append.mp hm with hm | hm
      · exact h.arrived m hm
      · rw [List.mem_singleton.mp hm]
        exact hmsg msg ha
  refine ⟨?_, h.tidy.step hord hs, h.onScreen.step hs, hs.sessionStep.paced h.paced, ?_,
    harrived, ?_⟩
  · rw [hs.sessionStep.uuid, h.owner]
  · intro f hf
    rcases hs.sessionStep.frame_cases h.paced hf with hf | ⟨k, rfl⟩ | ⟨k, rfl⟩ | ⟨rfl, ht, rfl⟩
    · exact h.honest f hf
    · rw [h.owner]
      exact .position (k := k) ⟨h.onScreen.left, h.onScreen.right⟩
        ⟨h.onScreen.top, h.onScreen.bottom⟩ (by dsimp only)
    · refine .other (isPosition_colorFrame k) ?_
      dsimp only
      exact noPosition_colorFrame k
    · have htext : NoPosition (chatFrame c.session.uuid c.session.currColor c.textmessage) :=
        hc rfl ht
      refine .other (isPosition_textMsgFrame _ _ _) ?_
      dsimp only
      exact htext
  · rcases view_step h.tidy hord hs with ⟨hv, -⟩ | hv
    · rw [hv]
      exact h.waiting
    · exact h.waiting.step hv harrived

/-- A player stays on the screen, since no exit is on its way. -/
lemma Player.player_stays (h : Player uuid present c) (ho : Ordinary c a)
    (hs : ClientStep c a c') {v : Text} (hv : c.gui.externalplayers v ≠ none) :
    c'.gui.externalplayers v ≠ none := by
  rcases view_step h.tidy ho hs with ⟨he, -⟩ | hstep
  · have hmem : c'.view.member v := by
      rw [he]
      exact hv
    exact hmem
  · exact hstep.member_stays lane_of_verdict hv
      (h.waiting.not_pending fun m hm => hm.no_exit v)

/-- A position that waits goes on waiting until it brings its player to the screen. -/
lemma Player.pending_or_player (h : Player uuid present c) (ho : Ordinary c a)
    (hs : ClientStep c a c') {v : Text} (hv : SplitStream.Pending verdict c.view v true) :
    SplitStream.Pending verdict c'.view v true ∨ c'.gui.externalplayers v ≠ none := by
  rcases view_step h.tidy ho hs with ⟨he, -⟩ | hstep
  · rw [he]
    exact Or.inl hv
  · exact hstep.pending_or_member lane_of_verdict hv

/-- A player who comes to the screen is one of those who are there, and makes the client send its
position. -/
lemma Player.newcomer (h : Player uuid present c) (ho : Ordinary c a)
    (hs : ClientStep c a c') {v : Text} (hv : c'.gui.externalplayers v ≠ none) :
    c.gui.externalplayers v ≠ none ∨ (present v ∧ c'.gui.move = true) := by
  by_cases hold : c.gui.externalplayers v = none
  · refine Or.inr ⟨?_, hs.move_of_newcomer h.tidy hold hv⟩
    rcases view_step h.tidy ho hs with ⟨he, -⟩ | hstep
    · have hmem : c.view.member v := by
        rw [← he]
        exact hv
      exact absurd hold hmem
    · rcases hstep.member_cases lane_of_verdict hv with hmem | ⟨m, hm, hverdict⟩
      · exact absurd hold hmem
      · exact (h.waiting true m hm).present_of_verdict hverdict
  · exact Or.inl hold

/-- A message that arrives waits to be relayed. -/
lemma mem_unrelayed_of_onMessage (h : Tidy c) {msg : Text}
    (hs : ClientStep c (.onMessage msg) c') : msg ∈ c'.unrelayed := by
  cases hs with
  | onMessage =>
    by_cases hpop : c.relayPc = .pop
    · simp [Client.unrelayed, hpop, List.tail_append_of_ne_nil (h.relayPop hpop)]
    · simp [Client.unrelayed, hpop]

end Player

end MultiplayerCars.Wire
