import MultiplayerCars.CPPClient.Queues
import MultiplayerCars.GoServer.Colors
import MultiplayerCars.Wire.Codec
import MultiplayerCars.Wire.World

/-!
# What the clients say goes round unaltered

A frame says one thing: where a car is, which colour it has taken, or a text.  As long as the texts
need no escapes, the server understands every frame as it was meant, and what it sends says the
same, under the name of the sender.  Besides that it sends time stamps, exit notices, and the
announcements of newcomers, in the colours that they have given.  So whatever is true of all that
the clients may say is true of all that is on its way to anybody, and of all that waits in a client.
Clients come and go, sessions are not ready, and positions are dropped, as it happens.
-/

namespace MultiplayerCars.Wire

open Lib Lib.Json CPPClient
open GoServer (ClientId Act Server Pc Thread Event Peers Message Fresh frameColor unmarshalEvent
  unmarshalColorUpdateEvent unmarshalTextUpdateEvent routeEvent)

/-! ### What a frame says -/

/-- What a frame of the client says to the others, when the server reads it at the time `now`. -/
inductive Meant (uuid : UuidV4) (f : Frame) (now : Text) : Update → Prop
  | position {k : HexColor} {X Y : ℤ} (hX : 0 ≤ X ∧ X < windowScreenWidth)
      (hY : 0 ≤ Y ∧ Y < windowYBoundary) (hf : f.bytes = posFrame k.text uuid.text X Y) :
      Meant uuid f now (.position uuid.text ⟨X, Y, k.text⟩)
  | color {k : HexColor} (hf : f.bytes = colorFrame k.text) :
      Meant uuid f now (.color uuid.text k.text)
  | chat {k : HexColor} {t : TypedText} (ht : NoEscapes t) (hf : f.bytes = chatFrame uuid k t) :
      Meant uuid f now (.text uuid.text ⟨true, k.text, t.text, now⟩)

section Frames

variable {uuid : UuidV4} {f : Frame} {now : Text} {u : Update}

lemma unmarshalEvent_colorFrame (k : HexColor) :
    unmarshalEvent (colorFrame k.text)
      = some ⟨GoServer.eventColorUpdateMessage, printObject (colorPayload k.text)⟩ := by
  rw [colorFrame_eq k.plain]
  exact unmarshalEvent_frame (by decide) (colorPayload_wf k.plain)

/-- **The server understands a frame as it is meant**, and tells everybody else. -/
theorem reply_of_meant (h : Meant uuid f now u) {c : GoServer.Client} (hc : c.uuid = uuid.text) :
    ∃ e m, unmarshalEvent f.bytes = some e ∧
      (routeEvent e c now).2 = .send (.others uuid.text) m ∧ WellFormed m.bytes u := by
  cases h with
  | @position k X Y hX hY hf =>
    have hwidth : windowScreenWidth = 1600 := rfl
    have hheight : windowYBoundary = 570 := by decide
    refine ⟨_, .passthrough (printObject (posPayload k.text uuid.text X Y)),
      by rw [hf, unmarshalEvent_posFrame], ?_, ?_⟩
    · rw [GoServer.routeEvent_position rfl, ← hc]
      rfl
    · exact wellFormed_posFrame k uuid ⟨by omega, by omega⟩ ⟨by omega, by omega⟩
  | @color k hf =>
    refine ⟨_, .event ⟨GoServer.bEventColorUpdateMessage, uuid.text, now, 0, 0, k.text⟩,
      by rw [hf, unmarshalEvent_colorFrame], ?_, ?_⟩
    · rw [GoServer.routeEvent_color rfl, GoServer.handleColorUpdate,
        unmarshalColorUpdateEvent_payload k.plain, ← hc]
    · exact wellFormed_color (sendable_origin (by decide)) rfl
  | @chat k t ht hf =>
    refine ⟨_, .text ⟨GoServer.bEventTextUpdateMessage, uuid.text, [], k.text, t.text, now, true⟩,
      by rw [hf, unmarshalEvent_chatFrame uuid k (isKey_of_noEscapes ht)], ?_, ?_⟩
    · rw [GoServer.routeEvent_text rfl, GoServer.handleTextUpdate,
        unmarshal_chatPayload uuid k (isKey_of_noEscapes ht) (decodeStr_of_noEscapes ht _), ← hc]
      rfl
    · exact wellFormed_textMessage rfl

/-- The frame that gives the sender a colour is the one that says so. -/
lemma color_of_meant (h : Meant uuid f now u) {k : Text} (hk : frameColor f.bytes = some k) :
    u = .color uuid.text k := by
  cases h with
  | @position k' X Y hX hY hf =>
    rw [frameColor, hf, unmarshalEvent_posFrame] at hk
    simp [GoServer.eventPositionMessage, GoServer.eventColorUpdateMessage] at hk
  | @color k' hf =>
    rw [frameColor, hf, unmarshalEvent_colorFrame] at hk
    dsimp only at hk
    rw [if_pos rfl, unmarshalColorUpdateEvent_payload k'.plain] at hk
    rw [← Option.some.inj hk]
  | @chat k' t ht hf =>
    rw [frameColor, hf, unmarshalEvent_chatFrame uuid k' (isKey_of_noEscapes ht)] at hk
    simp [GoServer.eventTextUpdateMessage, GoServer.eventColorUpdateMessage] at hk

/-- A client whose texts need no escapes is honest. -/
lemma Meant.honest (h : Meant uuid f now u) : Honest uuid f := by
  cases h with
  | position hX hY hf => exact .position hX hY hf
  | @color k hf =>
    refine .other ?_ ?_
    · rw [Frame.isPosition, hf]
      exact isPosition_colorFrame k
    · rw [hf]
      exact noPosition_colorFrame k
  | @chat k t ht hf =>
    refine .other ?_ ?_
    · have htext := isPosition_textMsgFrame k uuid t.text
      rw [Frame.isPosition, hf, chatFrame]
      simpa only [Frame.isPosition] using htext
    · rw [hf]
      exact noPosition_of_unmarshal (unmarshalEvent_chatFrame uuid k (isKey_of_noEscapes ht))
        (by decide : GoServer.eventTextUpdateMessage ≠ GoServer.eventPositionMessage)
        (by decide : GoServer.eventTextUpdateMessage ≠ GoServer.eventPositionDebugMessage)

end Frames

/-! ### What the clients may say -/

/-- The texts that are sent need no escapes. -/
def Outspoken (w : World) : WorldAct → Prop
  | .client i (.text ready) => ready = true → (w.client i).text = true →
      NoEscapes (w.client i).textmessage
  | _ => True

/-- Whatever the client may say now of its car satisfies `Q`. -/
structure Sincere (Q : Update → Prop) (uuid : Text) (c : Client) : Prop where
  position : Q (.position uuid ⟨c.X, c.Y, c.session.currColor.text⟩)
  color : Q (.color uuid c.session.currColor.text)

/-- The text that a step sends, if it does, satisfies `Q`. -/
def Utters (Q : Update → Prop) (uuid : Text) (c : Client) (a : ClientAct) : Prop :=
  a = .text true → c.text = true →
    ∀ now, Q (.text uuid ⟨true, c.session.currColor.text, c.textmessage.text, now⟩)

/-- What the server says of its own accord satisfies `Q`. -/
structure Lenient (Q : Update → Prop) : Prop where
  timeStamp : ∀ t, Q (.timeStamp t)
  exit : ∀ v, Q (.exit v)
  /-- A newcomer is announced at the origin. -/
  announced : ∀ v k, Q (.color v k) → Q (.position v ⟨0, 0, k⟩)

/-- What is on its way is understood, and satisfies `Q`. -/
structure Courteous (P : Party) (Q : Update → Prop) (w : World) : Prop where
  server : GoServer.Inv w.server
  /-- The server knows a client under its own UUID, and in a colour that satisfies `Q`. -/
  member : ∀ c, w.server.pc (.serve c) ≠ .idle →
    c ∈ P.members ∧ (w.server.client c).uuid = (P.uuid c).text ∧
      Q (.color (P.uuid c).text (w.server.client c).color)
  owner : ∀ i, (w.client i).session.uuid = P.uuid i
  frames : ∀ i, w.server.frames i ≤ (w.client i).session.written.length
  /-- The window shows the car in the colour that the session sends. -/
  matched : ∀ i, (w.client i).session.currColor = (w.client i).carColor
  sincere : ∀ i ∈ P.members, Sincere Q (P.uuid i).text (w.client i)
  said : ∀ i, ∀ f ∈ (w.client i).session.asyncWriteQueue ++ (w.client i).session.written,
    ∀ now, ∃ u, Meant (P.uuid i) f now u ∧ (i ∈ P.members → Q u)
  paced : ∀ i, Paced (w.client i).session
  onScreen : ∀ i, OnScreen (w.client i)
  supplied : ∀ i, Supplied Q (w.client i)
  held : ∀ t, ∀ m ∈ (w.server.pc t).messages, ∃ u, WellFormed m u ∧ Q u
  down : ∀ i, ∀ m ∈ w.down i, ∃ u, WellFormed m u ∧ Q u

section Courteous

variable {P : Party} {Q : Update → Prop} {w : World}

lemma Courteous.start (P : Party)
    (hQ : ∀ i ∈ P.members, Sincere Q (P.uuid i).text (Client.start (P.uuid i))) :
    Courteous P Q (World.start P) where
  server := GoServer.Inv.init
  member := by
    intro c hc
    exact absurd rfl hc
  owner := fun i => rfl
  frames := fun i => Nat.zero_le _
  matched := fun i => rfl
  sincere := hQ
  said := by simp [World.start, Client.start, Session.start]
  paced := fun i => (Player.start (P.uuid i) (fun _ => True)).paced
  onScreen := fun i => (Player.start (P.uuid i) (fun _ => True)).onScreen
  supplied := fun i => Supplied.start (P.uuid i)
  held := by simp [World.start, Server.init, Pc.messages, Pc.writes]
  down := by simp [World.start]

lemma Sincere.mono {Q' : Update → Prop} (hQ : ∀ u, Q u → Q' u) {uuid : Text} {c : Client}
    (h : Sincere Q uuid c) : Sincere Q' uuid c :=
  ⟨hQ _ h.position, hQ _ h.color⟩

lemma supplied_mono {Q' : Update → Prop} (hQ : ∀ u, Q u → Q' u) {c : Client}
    (h : Supplied Q c) : Supplied Q' c :=
  { h with
    ws := fun s hs => (h.ws s hs).imp fun u hu => ⟨hu.1, hQ u hu.2⟩
    pos := fun s hs => (h.pos s hs).imp fun u hu => ⟨hu.1, hQ u hu.2.1, hu.2.2⟩
    gui := fun s hs => (h.gui s hs).imp fun u hu => ⟨hu.1, hQ u hu.2.1, hu.2.2⟩ }

lemma Courteous.mono {Q' : Update → Prop} (hQ : ∀ u, Q u → Q' u) (h : Courteous P Q w) :
    Courteous P Q' w :=
  { h with
    member := fun c hc => (h.member c hc).imp id fun hu => hu.imp id (hQ _)
    sincere := fun i hi => (h.sincere i hi).mono hQ
    said := fun i f hf now =>
      (h.said i f hf now).imp fun u hu => hu.imp id fun hq hi => hQ u (hq hi)
    supplied := fun i => supplied_mono hQ (h.supplied i)
    held := fun t m hm => (h.held t m hm).imp fun u hu => hu.imp id (hQ u)
    down := fun i m hm => (h.down i m hm).imp fun u hu => hu.imp id (hQ u) }

/-- A frame that has still to be read is one of its client. -/
lemma Courteous.said_up (h : Courteous P Q w) {c : ClientId} {f : Frame} (hf : f ∈ w.up c)
    (now : Text) : ∃ u, Meant (P.uuid c) f now u ∧ (c ∈ P.members → Q u) :=
  h.said c f (List.mem_append_right _ (List.mem_of_mem_drop hf)) now

/-- A client whose frames are read is known under its own UUID. -/
lemma Courteous.uuid_of_reading (h : Courteous P Q w) {c : ClientId}
    (hc : w.server.pc (.read c) = .reading) :
    c ∈ P.members ∧ (w.server.client c).uuid = (P.uuid c).text := by
  obtain ⟨hm, hu, -⟩ :=
    h.member c (h.server.serve_ne_idle_of_pc (t := .read c) (by rw [hc]; simp))
  exact ⟨hm, hu⟩

/-! ### Steps of the server -/

/-- Every message that the server makes says what has been said to it, or is one of its own. -/
lemma Courteous.fresh (h : Courteous P Q w) (hQ : Lenient Q) {a : Act} (ha : w.serves P a)
    {m : Text} (hm : Fresh w.server a m) : ∃ u, WellFormed m u ∧ Q u := by
  cases hm with
  | @announce c now hc =>
    obtain ⟨-, hu, hk⟩ := h.member c (by rw [hc]; simp)
    refine ⟨_, wellFormed_announcement (sendable_origin (by decide)) rfl, ?_⟩
    rw [← hu] at hk
    exact hQ.announced _ _ hk
  | @reply c frame now e peers msg hc he hr =>
    obtain ⟨f, rest, hup, rfl⟩ := up_of_serves ha
    obtain ⟨u, hmeant, hu⟩ := h.said_up (f := f) (by rw [hup]; simp) now
    obtain ⟨hmember, huuid⟩ := h.uuid_of_reading hc
    obtain ⟨e', m', he', hr', hwf⟩ := reply_of_meant hmeant huuid
    rw [he'] at he
    obtain rfl := Option.some.inj he
    rw [hr'] at hr
    obtain ⟨-, rfl⟩ := GoServer.Reply.send.inj hr
    exact ⟨u, hwf, hu hmember⟩
  | @debug c frame now e payload he hr =>
    obtain ⟨f, rest, hup, rfl⟩ := up_of_serves ha
    obtain ⟨u, hmeant, -⟩ := h.said_up (f := f) (by rw [hup]; simp) now
    exact absurd hr ((welcome_reply hmeant.honest he _ _).2 m)
  | tick c now =>
    exact ⟨_, wellFormed_timeStamp (sendable_origin (by decide)) rfl, hQ.timeStamp _⟩
  | exit now ht => exact ⟨_, wellFormed_clientExit _ _ _, hQ.exit _⟩

/-- A step of the server keeps everybody known under its own UUID, in a colour that it has given. -/
lemma Courteous.member_step (h : Courteous P Q w) {a : Act} {s : Server} (ha : w.serves P a)
    (hs : GoServer.Step w.server a s) (c : ClientId) (hc : s.pc (.serve c) ≠ .idle) :
    c ∈ P.members ∧ (s.client c).uuid = (P.uuid c).text ∧
      Q (.color (P.uuid c).text (s.client c).color) := by
  by_cases hidle : w.server.pc (.serve c) = .idle
  · -- the client comes with what it has said in its request
    obtain ⟨uuid, color, rfl, -, -, he⟩ := hs.connected h.server.started hidle hc
    simp only [World.serves, Bool.and_eq_true, decide_eq_true_eq, beq_iff_eq] at ha
    obtain ⟨⟨hm, rfl⟩, rfl⟩ := ha
    rw [he]
    refine ⟨hm, ?_, (h.sincere c hm).color⟩
    rw [Client.clientUUID, h.owner]
  · obtain ⟨hm, hu, hk⟩ := h.member c hidle
    refine ⟨hm, ?_, ?_⟩
    · rcases hs.uuid_cases c with hu' | ⟨uuid, color, rfl, -⟩
      · rw [hu', hu]
      · cases hs with
        | connect hc' => exact absurd hc' hidle
    · rcases hs.color_cases hidle with hk' | ⟨frame, now, rfl, hk'⟩
      · rw [hk']
        exact hk
      · obtain ⟨f, rest, hup, rfl⟩ := up_of_serves ha
        obtain ⟨u, hmeant, hq⟩ := h.said_up (f := f) (by rw [hup]; simp) now
        rw [color_of_meant hmeant hk'] at hq
        exact hq hm

theorem Courteous.server_step (h : Courteous P Q w) (hQ : Lenient Q) {a : Act} {s : Server}
    (ha : w.serves P a) (hs : GoServer.Step w.server a s) :
    Courteous P Q { w with server := s, down := w.sent a } where
  server := h.server.step hs
  member := h.member_step ha hs
  owner := h.owner
  frames := by
    intro i
    rcases hs.frames_cases i with he | ⟨frame, now, rfl, -, he⟩
    · rw [he]
      exact h.frames i
    · -- what the server reads has been written and not read before
      obtain ⟨f, rest, hup, -⟩ := up_of_serves ha
      have hlt : w.server.frames i < (w.client i).session.written.length := by
        have hlen := congrArg List.length hup
        rw [World.up, List.length_drop, List.length_cons] at hlen
        omega
      rw [he]
      exact hlt
  matched := h.matched
  sincere := h.sincere
  said := h.said
  paced := h.paced
  onScreen := h.onScreen
  supplied := h.supplied
  held := by
    intro t m hm
    rcases hs.messages_cases h.server.started hm with ⟨t', hm'⟩ | hfresh
    · exact h.held t' m hm'
    · exact h.fresh hQ ha hfresh
  down := by
    intro i m hm
    rcases mem_sent hm with hm | ⟨t, -, hm⟩
    · exact h.down i m hm
    · exact h.held t m (GoServer.writes_subset_messages _ hm)

/-! ### Steps of a client -/

/-- A frame is made by a call, of what the client may say before or after it. -/
lemma frame_origin {c : Client} {a : ClientAct} {s t : Session}
    (hs : SessionStep c a s t) (hp : Paced s) {f : Frame}
    (hf : f ∈ t.asyncWriteQueue ++ t.written) :
    f ∈ s.asyncWriteQueue ++ s.written ∨
      f = ⟨s.currColor, posFrame s.currColor.text s.uuid.text c.X c.Y⟩ ∨
      f = ⟨t.currColor, colorFrame t.currColor.text⟩ ∨
      (a = .text true ∧ c.text = true ∧
        f = ⟨s.currColor, chatFrame s.uuid s.currColor c.textmessage⟩) := by
  cases hs with
  | position =>
    simp only [Session.sendPosition, if_true, List.append_assoc, List.mem_append,
      List.mem_singleton] at hf ⊢
    rcases hf with hf | rfl | hf
    · exact Or.inl (Or.inl hf)
    · exact Or.inr (Or.inl rfl)
    · exact Or.inl (Or.inr hf)
  | color k =>
    simp only [Session.sendColorUpdate, Session.writeNow, if_true, ← List.append_assoc] at hf ⊢
    rcases List.mem_append.mp hf with hf | hf
    · exact Or.inl hf
    · exact Or.inr (Or.inr (Or.inl (List.mem_singleton.mp hf)))
  | text ha ht =>
    simp only [Session.sendTextMessage, Session.writeNow, if_true, ← List.append_assoc] at hf ⊢
    rcases List.mem_append.mp hf with hf | hf
    · exact Or.inl hf
    · refine Or.inr (Or.inr (Or.inr ⟨ha, ht, ?_⟩))
      rw [List.mem_singleton.mp hf, chatFrame]
  | @write tmp hw =>
    refine Or.inl ?_
    rcases List.mem_append.mp hf with hf | hf
    · exact List.mem_append_left _ hf
    · rcases List.mem_append.mp hf with hf | hf
      · exact List.mem_append_right _ hf
      · rw [List.mem_singleton.mp hf]
        exact List.mem_append_left _ (List.mem_of_mem_head? (hp.writing tmp hw))
  | pop =>
    refine Or.inl ?_
    rcases List.mem_append.mp hf with hf | hf
    · exact List.mem_append_left _ (List.mem_of_mem_tail hf)
    · exact List.mem_append_right _ hf
  | _ => exact Or.inl hf

/-- What a client says is what it may say. -/
lemma Courteous.said_step (h : Courteous P Q w) {i : ClientId} {a : ClientAct} {c : Client}
    (ho : Outspoken w (.client i a)) (hs : ClientStep (w.client i) a c)
    (hsincere : i ∈ P.members → Sincere Q (P.uuid i).text c)
    (hutters : i ∈ P.members → Utters Q (P.uuid i).text (w.client i) a) :
    ∀ f ∈ c.session.asyncWriteQueue ++ c.session.written,
      ∀ now, ∃ u, Meant (P.uuid i) f now u ∧ (i ∈ P.members → Q u) := by
  intro f hf now
  have hon := h.onScreen i
  rcases frame_origin hs.sessionStep (h.paced i) hf with hf | rfl | rfl | ⟨rfl, ht, rfl⟩
  · exact h.said i f hf now
  · refine ⟨_, .position (k := (w.client i).session.currColor) ⟨hon.left, hon.right⟩
      ⟨hon.top, hon.bottom⟩ ?_, fun hi => (h.sincere i hi).position⟩
    rw [h.owner]
  · exact ⟨_, .color rfl, fun hi => (hsincere hi).color⟩
  · refine ⟨_, .chat (k := (w.client i).session.currColor) (ho rfl ht) ?_,
      fun hi => hutters hi rfl ht now⟩
    dsimp only
    rw [h.owner]

theorem Courteous.client_step (h : Courteous P Q w) {i : ClientId} {a : ClientAct} {c : Client}
    (ho : Outspoken w (.client i a)) (hb : Brings Q a) (hs : ClientStep (w.client i) a c)
    (hsincere : i ∈ P.members → Sincere Q (P.uuid i).text c)
    (hutters : i ∈ P.members → Utters Q (P.uuid i).text (w.client i) a)
    {down : ClientId → List Text} (hdown : ∀ j, down j ⊆ w.down j) :
    Courteous P Q { w with client := Function.update w.client i c, down := down } where
  server := h.server
  member := h.member
  owner := fun j => forall_update (p := fun j c => c.session.uuid = P.uuid j) (h.owner j)
    fun hi => hs.sessionStep.uuid.trans hi
  frames := fun j => forall_update (p := fun j c => w.server.frames j ≤ c.session.written.length)
    (h.frames j) fun hi => hi.trans hs.sessionStep.written.length_le
  matched := fun j => forall_update (p := fun _ c => c.session.currColor = c.carColor)
    (h.matched j) fun hi => hs.matched hi
  sincere := fun j => forall_update (p := fun j c => j ∈ P.members → Sincere Q (P.uuid j).text c)
    (h.sincere j) fun _ => hsincere
  said := fun j => forall_update (p := fun j c =>
    ∀ f ∈ c.session.asyncWriteQueue ++ c.session.written,
      ∀ now, ∃ u, Meant (P.uuid j) f now u ∧ (j ∈ P.members → Q u)) (h.said j)
    fun _ => h.said_step ho hs hsincere hutters
  paced := fun j => forall_update (p := fun _ c => Paced c.session) (h.paced j)
    fun hp => hs.sessionStep.paced hp
  onScreen := fun j => forall_update (p := fun _ c => OnScreen c) (h.onScreen j)
    fun hon => hon.step hs
  supplied := fun j => forall_update (p := fun _ c => Supplied Q c) (h.supplied j)
    fun hsup => hsup.step hb hs
  held := h.held
  down := fun j m hm => h.down j m (hdown j hm)

/-- The message that is first on a connection can be read. -/
lemma Courteous.brings (h : Courteous P Q w) {i : ClientId} {msg : Text} {rest : List Text}
    (hd : w.down i = msg :: rest) : Brings Q (.onMessage msg) :=
  h.down i msg (by rw [hd]; simp)

/-- The text that an action sends, if it is one of a client, satisfies `Q`. -/
def Speaks (P : Party) (Q : Update → Prop) (w : World) : WorldAct → Prop
  | .client i a => i ∈ P.members → Utters Q (P.uuid i).text (w.client i) a
  | _ => True

theorem Courteous.step (h : Courteous P Q w) (hQ : Lenient Q) {a : WorldAct} {w' : World}
    (ha : Outspoken w a) (hs : WorldStep P w a w')
    (hsincere : ∀ i ∈ P.members, Sincere Q (P.uuid i).text (w'.client i))
    (hspeaks : Speaks P Q w a) : Courteous P Q w' := by
  cases hs with
  | server hserves hs => exact h.server_step hQ hserves hs
  | @client i a c hm hs =>
    have hb : Brings Q a := by
      cases a with
      | onMessage msg => exact absurd rfl (hm msg)
      | _ => trivial
    refine h.client_step ha hb hs (fun hi => ?_) hspeaks fun j => List.Subset.refl _
    have hc := hsincere i hi
    dsimp only at hc
    rwa [Function.update_self] at hc
  | @deliver i msg rest c hd hs =>
    have ho : Outspoken w (.client i (.onMessage msg)) := trivial
    have hutters : Utters Q (P.uuid i).text (w.client i) (.onMessage msg) := by
      intro he
      cases he
    refine h.client_step ho (h.brings hd) hs (fun hi => ?_) (fun _ => hutters) fun j => ?_
    · have hc := hsincere i hi
      dsimp only at hc
      rwa [Function.update_self] at hc
    · by_cases hj : j = i
      · subst hj
        rw [Function.update_self, hd]
        exact List.subset_cons_self _ _
      · rw [Function.update_of_ne hj]
        exact List.Subset.refl _

end Courteous

end MultiplayerCars.Wire
