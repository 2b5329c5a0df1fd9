import MultiplayerCars.GoServer.Setup
import MultiplayerCars.GoServer.Goroutine

/-!
# The colours of the clients

`serveWS` lets nobody in without a colour, and from then on a colour changes only by the frames of
its client.  The handler of colour events takes over whatever `Color` the payload decodes to, which
is empty where the key is absent, where its value is `null`, or where the payload is.  The colours
stay set, and every event that shows one has one, as long as no frame brings an empty colour.
-/

namespace MultiplayerCars.GoServer

open Lib Lib.Json Lib.Machine

/-- The colour that a frame gives to the client that sent it. -/
def frameColor (frame : Text) : Option Text :=
  match unmarshalEvent frame with
  | some e =>
    if e.type = eventColorUpdateMessage then
      (unmarshalColorUpdateEvent e.payload).map ColorUpdateEvent.color
    else none
  | none => none

/-- Every registered client has a colour, and so has every announcement, colour update and exit
notice that the server has built and not yet handed to all its receivers. -/
structure Colored (s : Server) : Prop where
  clients : ∀ c ∈ s.clients, (s.client c).color ≠ []
  events : ∀ t l e, (s.pc t).loop? = some l → l.packet.message = .event e → e.color ≠ []

/-- No frame that is read brings an empty colour. -/
def Tinted (_ : Server) (a : Act) : Prop :=
  ∀ c frame now, a = .readFrame c frame now → frameColor frame ≠ some []

/-! ### Colours and frames -/

/-- A frame changes the colour of its client, or nothing about it. -/
lemma routeEvent_client {frame : Text} {e : Event} (he : unmarshalEvent frame = some e)
    (c : Client) (now : Text) :
    (routeEvent e c now).1 = { c with color := (frameColor frame).getD c.color } := by
  simp only [routeEvent, handlePosition, handleColorUpdate, handleTextUpdate, handlePositionDebug,
    frameColor, he]
  split_ifs with h₀ h₁ h₂ h₃
  · rw [h₀] at h₁
    exact absurd h₁ (by decide)
  · rfl
  · cases unmarshalColorUpdateEvent e.payload <;> rfl
  · cases unmarshalTextUpdateEvent e.payload <;> rfl
  · rfl
  · rfl

lemma readFrame_client (s : Server) (c : ClientId) (frame now : Text) :
    (s.readFrame c frame now).client = Function.update s.client c
      { s.client c with color := (frameColor frame).getD (s.client c).color } := by
  rw [Server.readFrame]
  cases he : unmarshalEvent frame with
  | none =>
    have hcolor : frameColor frame = none := by
      rw [frameColor, he]
    rw [hcolor]
    exact (Function.update_eq_self c s.client).symm
  | some e =>
    rw [← routeEvent_client he (s.client c) now]
    dsimp only
    cases (routeEvent e (s.client c) now).2 <;> rfl

/-- The only events that the handlers build show the colour that the frame has brought. -/
lemma frameColor_of_event {frame : Text} {e : Event} (he : unmarshalEvent frame = some e)
    {c : Client} {now : Text} {peers : Peers} {b : BroadcastEvent}
    (hr : (routeEvent e c now).2 = .send peers (.event b)) : frameColor frame = some b.color := by
  simp only [routeEvent, handlePosition, handleColorUpdate, handleTextUpdate,
    handlePositionDebug] at hr
  simp only [frameColor, he]
  split_ifs at hr with h₀ h₁ h₂ h₃
  · simp at hr
  · rw [if_pos h₁]
    cases hu : unmarshalColorUpdateEvent e.payload with
    | none => simp [hu] at hr
    | some colorMsg =>
      simp only [hu, Reply.send.injEq, Message.event.injEq] at hr
      rw [← hr.2]
      rfl
  · cases hu : unmarshalTextUpdateEvent e.payload <;> simp [hu] at hr

/-- A frame that brings a colour starts its broadcast. -/
lemma exists_loop_of_frameColor {s : Server} {c : ClientId} {frame now k : Text}
    (h : frameColor frame = some k) :
    ∃ l e, (s.handled c frame now).loop? = some l ∧ l.packet.message = .event e ∧ e.color = k := by
  rw [frameColor] at h
  split at h
  · rename_i e he
    split_ifs at h with htype
    obtain ⟨colorMsg, hmsg, rfl⟩ := Option.map_eq_some_iff.mp h
    have hreply : (routeEvent e (s.client c) now).2 = .send (.others (s.client c).uuid)
        (.event ⟨bEventColorUpdateMessage, (s.client c).uuid, now, 0, 0, colorMsg.color⟩) := by
      rw [routeEvent, if_neg (by rw [htype]; decide), if_pos htype, handleColorUpdate, hmsg]
    rw [handled_send he hreply]
    exact ⟨_, _, rfl, rfl, rfl⟩
  · cases h

/-- What a step does to the colour of a client that has been connected. -/
lemma Step.color_cases {s s' : Server} {a : Act} (hs : Step s a s') {c : ClientId}
    (hc : s.pc (.serve c) ≠ .idle) : (s'.client c).color = (s.client c).color ∨
      ∃ frame now, a = .readFrame c frame now ∧ frameColor frame = some (s'.client c).color := by
  cases hs with
  | @connect c₀ uuid color hidle =>
    have hne : c ≠ c₀ := by
      rintro rfl
      exact hc hidle
    exact Or.inl (by simp [hne])
  | @readFrame c₀ frame now =>
    rw [readFrame_client]
    by_cases he : c = c₀
    · subst he
      rw [Function.update_self]
      cases hk : frameColor frame with
      | none => exact Or.inl rfl
      | some k => exact Or.inr ⟨frame, now, rfl, hk⟩
    · exact Or.inl (by rw [Function.update_of_ne he])
  | _ => exact Or.inl rfl

/-! ### One step -/

/-- Every client that `serveWS` has made has a colour, and so has every event of a loop. -/
structure Dyed (s : Server) : Prop where
  started : ∀ c, s.pc (.serve c) ≠ .idle → (s.client c).color ≠ []
  events : ∀ t l e, (s.pc t).loop? = some l → l.packet.message = .event e → e.color ≠ []

lemma Dyed.init : Dyed Server.init where
  started := fun c hc => absurd rfl hc
  events := fun t l e hl => by cases hl

lemma Dyed.colored {s : Server} (h : Dyed s) (hi : Inv s) : Colored s where
  clients := fun _ hc => h.started _ (hi.serve_ne_idle hc)
  events := h.events

lemma Dyed.started_step {s s' : Server} {a : Act} (h : Dyed s) (hi : Inv s) (ht : Tinted s a)
    (hs : Step s a s') {c : ClientId} (hc : s'.pc (.serve c) ≠ .idle) :
    (s'.client c).color ≠ [] := by
  by_cases hidle : s.pc (.serve c) = .idle
  · obtain ⟨uuid, color, -, -, hk, he⟩ := hs.connected hi.started hidle hc
    rw [he]
    exact hk
  · rcases hs.color_cases hidle with he | ⟨frame, now, rfl, hk⟩
    · rw [he]
      exact h.started c hidle
    · intro he
      rw [he] at hk
      exact ht c frame now rfl hk

lemma Dyed.events_step {s s' : Server} {a : Act} (h : Dyed s) (hi : Inv s) (ht : Tinted s a)
    (hs : Step s a s') {t : Thread} {l : RangeLoop} {e : BroadcastEvent}
    (hl : (s'.pc t).loop? = some l) (hm : l.packet.message = .event e) : e.color ≠ [] := by
  rcases hs.packet_cases hi.started hl with ⟨l₀, hl₀, -, hpacket⟩ | hb
  · exact h.events t l₀ e hl₀ (hpacket ▸ hm)
  · generalize l.peers = peers at hb
    generalize l.packet = packet at hb hm
    cases hb with
    | announce c now =>
      obtain rfl : BroadcastEvent.mk _ _ now 0 0 (s.client c).color = e := Message.event.inj hm
      cases hs with
      | announce hc => exact h.started c (by simp [hc])
    | @reply c frame now ev peers m he hr =>
      rw [show m = .event e from hm] at hr
      intro hk
      have hcolor := frameColor_of_event he hr
      rw [hk] at hcolor
      exact ht c frame now rfl hcolor
    | exit t now =>
      obtain rfl : BroadcastEvent.mk _ _ now 0 0 (s.client t.owner).color = e :=
        Message.event.inj hm
      cases hs with
      | delete ht => exact h.started _ (hi.serve_ne_idle_of_pc (by simp [ht]))

theorem Dyed.step {s s' : Server} {a : Act} (h : Dyed s) (hi : Inv s) (ht : Tinted s a)
    (hs : Step s a s') : Dyed s' where
  started := fun _ hc => h.started_step hi ht hs hc
  events := fun _ _ _ hl hm => h.events_step hi ht hs hl hm

/-- A frame that brings an empty colour is at once in the event that its reader sends. -/
lemma tinted_of_colored {s s' : Server} {a : Act} (hs : Step s a s') (h : Colored s') :
    Tinted s a := by
  rintro c frame now rfl hk
  obtain ⟨l, e, hl, hm, he⟩ : ∃ l e, (s.handled c frame now).loop? = some l ∧
      l.packet.message = .event e ∧ e.color = [] := exists_loop_of_frameColor hk
  cases hs with
  | readFrame =>
    refine h.events (.read c) l e ?_ hm he
    rw [readFrame_pc, if_pos rfl]
    exact hl

/-- **Colours stay set, exactly.**  In every state of a run every registered client has a colour,
and so has every event that is built for one, if and only if no frame that is read brings an empty
colour. -/
theorem colors_stay_iff {l : List (Server × Act)} {s : Server} (h : manager.Exec l s) :
    Always Colored l s ↔ Meets Tinted l :=
  h.always_iff_meets_of_strong (R := Dyed) inv_of_exec Dyed.init (fun _ hi hd => hd.colored hi)
    (fun _ _ _ hi hd ht hs => hd.step hi ht (step_cases hs))
    fun _ _ _ _ hs hc => tinted_of_colored (step_cases hs) hc

/-! ### A colour update without a colour -/

/-- Client `0` sends a colour update whose payload has no `Color`. -/
def colorless : List Act :=
  inTurn ++ [.readFrame 0 "\x7b\"Type\":1,\"Payload\":\x7b\x7d\x7d".toList []]

lemma colorless_runs : (manager.run manager.init colorless).isSome := by
  decide +kernel

def colorlessRun : List (Server × Act) × Server :=
  (manager.run manager.init colorless).get colorless_runs

lemma exec_colorless : manager.Exec colorlessRun.1 colorlessRun.2 := exec_get_run colorless_runs

/-- A registered client can lose its colour. -/
theorem color_lost : ¬ ∀ s, manager.Reachable s → Colored s := by
  intro h
  exact (h colorlessRun.2 ⟨_, exec_colorless⟩).clients 0 (by decide +kernel) (by decide +kernel)

theorem colors_stay_iff_colorless :
    Always Colored colorlessRun.1 colorlessRun.2 ↔ Meets Tinted colorlessRun.1 :=
  colors_stay_iff exec_colorless

end MultiplayerCars.GoServer
