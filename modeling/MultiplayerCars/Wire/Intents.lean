import MultiplayerCars.Wire.Codec
import MultiplayerCars.Wire.Honest

/-!
# What the player does, and what is sent of it

The main loop clears `move` and `text` and sets the colour whatever becomes of the call of the
session, which does nothing when `m_isConnected && m_wss.is_message_done()` is false.  A text is
shown by the player's own client when the send button is clicked and when Enter is released, and
it is sent later in the frame, once, as the text field stands then.
-/

namespace MultiplayerCars.Wire

open Lib Lib.Json Lib.Machine CPPClient
open GoServer (unmarshalEvent unmarshalColorUpdateEvent unmarshalTextUpdateEvent replacementChar)

/-- A position, a colour, a text that is to be sent. -/
inductive Intent
  | position (X Y : ℤ)
  | color (k : HexColor)
  | text (t : TypedText)

/-- The server reads exactly that from the frame. -/
def Says (uuid : UuidV4) (frame : Text) : Intent → Prop
  | .position X Y => ∃ payload color,
      unmarshalEvent frame = some ⟨GoServer.eventPositionMessage, payload⟩ ∧
      WellFormed payload (.position uuid.text ⟨X, Y, color⟩)
  | .color k => ∃ payload,
      unmarshalEvent frame = some ⟨GoServer.eventColorUpdateMessage, payload⟩ ∧
      unmarshalColorUpdateEvent payload = some ⟨k.text⟩
  | .text t => ∃ payload textMsg,
      unmarshalEvent frame = some ⟨GoServer.eventTextUpdateMessage, payload⟩ ∧
      unmarshalTextUpdateEvent payload = some textMsg ∧ textMsg.text = t.text

/-! ### Intents of a frame of the main loop -/

/-- The texts that have been shown and not been sent yet, after one more step: a click on the
send button and the release of Enter show the text field as it is then. -/
def echoes (owed : List TypedText) (c : Client) : ClientAct → List TypedText
  | .mouse _ true _ => owed ++ [c.textmessage]
  | .typing textmessage true => owed ++ [textmessage]
  | .text _ => []
  | _ => owed

/-- The texts that are shown and still to be sent after the given steps. -/
def owed (l : List (Client × ClientAct)) : List TypedText :=
  l.foldl (fun o x => echoes o x.1 x.2) []

/-- The colour that a step selects. -/
def selected : ClientAct → List Intent
  | .mouse (some k) _ _ => [.color k]
  | _ => []

/-- What a step from `c` to `c'` treats as done: the colour that it applies, the position when it
clears `move`, every text that was shown when it clears `text`. -/
def settled (owed : List TypedText) (c : Client) (a : ClientAct) (c' : Client) : List Intent :=
  selected a ++ (if c.gui.move && !c'.gui.move then [.position c.X c.Y] else [])
    ++ (if c.text && !c'.text then owed.map .text else [])

/-- For each thing that a step treats as done, the session has built a frame that says it, and
queued or written it. -/
def Kept (owed : List TypedText) (c : Client) (a : ClientAct) (c' : Client) : Prop :=
  ∃ fs, c'.session.issued = c.session.issued ++ fs ∧
    List.Forall₂ (fun f i => Says c.session.uuid f.bytes i) fs (settled owed c a c')

/-- The text field `sent` stands for the text `t` that was shown: between quotation marks it is a
string, which spells `t`; or it ends the string of the frame early, and what comes after happens to
make up a frame with the text `t`. -/
def Spells (uuid : UuidV4) (k : HexColor) (sent t : TypedText) : Prop :=
  IsKey sent.text ∧ decodeStr (some replacementChar) sent.text = some t.text ∨
  ¬ IsKey sent.text ∧ Says uuid (chatFrame uuid k sent) (.text t)

/-- The session is ready when it is called for a colour, a position or a text; and when it is
called for a text, one text was shown since the last one, for which the text field stands. -/
def Answered (owed : List TypedText) (c : Client) : ClientAct → Prop
  | .mouse (some _) _ ready => ready
  | .move ready => c.gui.move → ready
  | .text ready => c.text →
      ready ∧ ∃ t, owed = [t] ∧ Spells c.session.uuid c.session.currColor c.textmessage t
  | _ => True

/-! ### What the frames say -/

lemma says_position (uuid : UuidV4) (k : HexColor) {X Y : ℤ} (hX : 0 ≤ X ∧ X < windowScreenWidth)
    (hY : 0 ≤ Y ∧ Y < windowYBoundary) :
    Says uuid (posFrame k.text uuid.text X Y) (.position X Y) := by
  have hwidth : windowScreenWidth = 1600 := rfl
  have hheight : windowYBoundary = 570 := by decide
  have hx : IsInt X := ⟨by omega, by omega⟩
  have hy : IsInt Y := ⟨by omega, by omega⟩
  exact ⟨_, k.text, unmarshalEvent_posFrame k uuid X Y, wellFormed_posFrame k uuid hx hy⟩

lemma says_color (uuid : UuidV4) (k : HexColor) :
    Says uuid (colorFrame k.text) (.color k) := by
  refine ⟨_, ?_, unmarshalColorUpdateEvent_payload k.plain⟩
  rw [colorFrame_eq k.plain]
  exact unmarshalEvent_frame (by decide) (colorPayload_wf k.plain)

/-- A string is read as what it spells. -/
lemma says_text_of_isKey {uuid : UuidV4} {k : HexColor} {sent : TypedText} (hkey : IsKey sent.text)
    (t : TypedText) : Says uuid (chatFrame uuid k sent) (.text t) ↔
      decodeStr (some replacementChar) sent.text = some t.text := by
  have hevent := unmarshalEvent_chatFrame uuid k hkey
  obtain ⟨text, hdecoded⟩ := Option.isSome_iff_exists.mp (hkey.decodes replacementChar)
  have hpayload := unmarshal_chatPayload uuid k hkey hdecoded
  rw [hdecoded, Option.some.injEq]
  constructor
  · rintro ⟨payload, textMsg, he, hmsg, htext⟩
    rw [hevent, Option.some.injEq, GoServer.Event.mk.injEq] at he
    rw [he.2, hmsg, Option.some.injEq] at hpayload
    rwa [hpayload] at htext
  · rintro rfl
    exact ⟨_, _, hevent, hpayload, rfl⟩

lemma says_iff_spells (uuid : UuidV4) (k : HexColor) (sent t : TypedText) :
    Says uuid (chatFrame uuid k sent) (.text t) ↔ Spells uuid k sent t := by
  by_cases hkey : IsKey sent.text
  · rw [says_text_of_isKey hkey]
    simp [Spells, hkey]
  · simp [Spells, hkey]

/-- A text that has not changed since it was shown stands for itself exactly if it needs no
escapes. -/
theorem spells_self_iff (uuid : UuidV4) (k : HexColor) (t : TypedText) :
    Spells uuid k t t ↔ '"' ∉ t.text ∧ '\\' ∉ t.text := by
  rw [← says_iff_spells]
  constructor
  · rintro ⟨payload, textMsg, he, hmsg, htext⟩
    exact noEscapes_of_read he hmsg htext
  · intro h
    rw [says_text_of_isKey (isKey_of_noEscapes h)]
    exact decodeStr_of_noEscapes h _

/-! ### One step -/

section Step

variable {c c' : Client} {a : ClientAct} {o : List TypedText}

lemma kept_of_settled_nil (hi : c'.session.issued = c.session.issued)
    (hs : settled o c a c' = []) : Kept o c a c' := by
  refine ⟨[], by rw [hi, List.append_nil], ?_⟩
  rw [hs]
  exact .nil

/-- When the session builds no frame, nothing may be treated as done. -/
lemma kept_iff_of_silent (hi : c'.session.issued = c.session.issued) :
    Kept o c a c' ↔ settled o c a c' = [] := by
  constructor
  · rintro ⟨fs, hfs, hall⟩
    rw [hi, List.self_eq_append_right] at hfs
    rw [hfs] at hall
    exact List.forall₂_nil_left_iff.mp hall
  · exact kept_of_settled_nil hi

/-- When it builds one, exactly one thing may be. -/
lemma kept_iff_of_frame {k : HexColor} {frame : Text}
    (hi : c'.session.issued = c.session.issued ++ [⟨k, frame⟩]) :
    Kept o c a c' ↔ ∃ i, settled o c a c' = [i] ∧ Says c.session.uuid frame i := by
  constructor
  · rintro ⟨fs, hfs, hall⟩
    rw [hi, List.append_cancel_left_eq] at hfs
    rw [← hfs, List.forall₂_cons_left_iff] at hall
    obtain ⟨i, is, hsays, hnil, hset⟩ := hall
    rw [List.forall₂_nil_left_iff] at hnil
    exact ⟨i, by rw [hset, hnil], hsays⟩
  · rintro ⟨i, hset, hsays⟩
    refine ⟨[⟨k, frame⟩], hi, ?_⟩
    rw [hset]
    exact .cons hsays .nil

/-- `text` stays set until the text is sent. -/
lemma text_stays (hs : ClientStep c a c') (h : c.text = true) :
    c'.text = true ∨ ∃ ready, a = .text ready := by
  cases hs with
  | posFront | guiFront =>
    left
    obtain ⟨pc, -, hc⟩ := exists_endBlock c _ _
    rw [hc]
    exact h
  | keys pressed => left; simpa only [keys_text] using h
  | mouse color send ready => left; cases color <;> cases send <;> first | exact h | rfl
  | move ready =>
    left
    simp only [Client.sendMove]
    split_ifs <;> exact h
  | typing textmessage enter => left; cases enter <;> first | exact h | rfl
  | text ready => exact Or.inr ⟨ready, rfl⟩
  | _ => exact Or.inl h

/-- What the session has issued stays, but for the calls of the main loop. -/
lemma issued_stays (hs : ClientStep c a c') (ha : selected a = [])
    (hm : ∀ ready, a ≠ .move ready) (ht : ∀ ready, a ≠ .text ready) :
    c'.session.issued = c.session.issued := by
  cases hs with
  | @posFront front => cases block positionUpdate front c.gui <;> rfl
  | @guiFront front => cases block (guiUpdate c.clientUUID) front c.gui <;> rfl
  | keys pressed =>
    rw [show Client.session { c.keys pressed with mainPc := .mouse } = c.session from
      keys_session c pressed]
  | mouse color send ready =>
    cases color with
    | none => cases send <;> rfl
    | some k => cases ha
  | move ready => exact absurd rfl (hm ready)
  | typing textmessage enter => cases enter <;> rfl
  | text ready => exact absurd rfl (ht ready)
  | workerFront h =>
    simp only [Session.step] at h
    split at h
    · rw [← Option.some.inj h]
    · cases h
  | workerWrite h =>
    simp only [Session.step] at h
    split at h
    · rw [← Option.some.inj h]
    · cases h
  | workerPop h =>
    simp only [Session.step] at h
    split at h
    · rw [← Option.some.inj h]
    · cases h
  | _ => rfl

lemma move_settled_nil (hs : ClientStep c a c') (hm : ∀ ready, a ≠ .move ready) :
    (c.gui.move && !c'.gui.move) = false := by
  cases h : c.gui.move with
  | false => rfl
  | true =>
    rcases hs.move_stays h with h' | ⟨ready, hr⟩
    · rw [h']
      rfl
    · exact absurd hr (hm ready)

lemma text_settled_nil (hs : ClientStep c a c') (ht : ∀ ready, a ≠ .text ready) :
    (c.text && !c'.text) = false := by
  cases h : c.text with
  | false => rfl
  | true =>
    rcases text_stays hs h with h' | ⟨ready, hr⟩
    · rw [h']
      rfl
    · exact absurd hr (ht ready)

/-- A step other than the calls for a position or a text treats at most a colour as done. -/
lemma settled_eq_selected (hs : ClientStep c a c') (hm : ∀ ready, a ≠ .move ready)
    (ht : ∀ ready, a ≠ .text ready) : settled o c a c' = selected a := by
  simp [settled, move_settled_nil hs hm, text_settled_nil hs ht]

/-- A step other than those calls keeps everything. -/
lemma kept_of_quiet (hs : ClientStep c a c') (ha : selected a = [])
    (hm : ∀ ready, a ≠ .move ready) (ht : ∀ ready, a ≠ .text ready) : Kept o c a c' :=
  kept_of_settled_nil (issued_stays hs ha hm ht) ((settled_eq_selected hs hm ht).trans ha)

lemma kept_mouse_iff {k : HexColor} {send ready : Bool}
    (hs : ClientStep c (.mouse (some k) send ready) c') :
    Kept o c (.mouse (some k) send ready) c' ↔ ready := by
  have hset : settled o c (.mouse (some k) send ready) c' = [.color k] :=
    settled_eq_selected hs (by simp) (by simp)
  cases hs with
  | mouse color send ready hpc =>
    cases ready with
    | false =>
      -- the colour of the car and of the session has changed all the same
      rw [kept_iff_of_silent (by cases send <;> rfl), hset]
      simp
    | true =>
      have hi : (c.mouse (some k) send true).session.issued
          = c.session.issued ++ [⟨k, colorFrame k.text⟩] := by cases send <;> rfl
      refine Iff.trans (kept_iff_of_frame hi) ?_
      rw [hset]
      exact iff_of_true ⟨_, rfl, says_color _ k⟩ rfl

lemma kept_move_iff {ready : Bool} (hs : ClientStep c (.move ready) c') (hon : OnScreen c) :
    Kept o c (.move ready) c' ↔ (c.gui.move → ready) := by
  cases hs with
  | move ready hpc =>
    cases hm : c.gui.move with
    | false =>
      have hstay : c.sendMove ready = c := by simp [Client.sendMove, hm]
      refine iff_of_true (kept_of_settled_nil ?_ ?_) (by simp)
      · rw [hstay]
      · simp [settled, selected, hstay, hm]
    | true =>
      have hset : settled o c (.move ready) { c.sendMove ready with mainPc := .typing }
          = [.position c.X c.Y] := by
        simp [settled, selected, Client.sendMove, hm]
      cases ready with
      | false =>
        -- `move` is cleared all the same
        have hi : (c.sendMove false).session.issued = c.session.issued := by
          simp [Client.sendMove, Session.sendPosition, hm]
        refine Iff.trans (kept_iff_of_silent hi) ?_
        rw [hset]
        simp
      | true =>
        have hi : (c.sendMove true).session.issued = c.session.issued ++ [⟨c.session.currColor,
            posFrame c.session.currColor.text c.session.uuid.text c.X c.Y⟩] := by
          simp [Client.sendMove, Session.sendPosition, hm]
        refine Iff.trans (kept_iff_of_frame hi) ?_
        rw [hset]
        exact iff_of_true
          ⟨_, rfl, says_position _ _ ⟨hon.left, hon.right⟩ ⟨hon.top, hon.bottom⟩⟩ fun _ => rfl

lemma kept_text_iff {ready : Bool} (hs : ClientStep c (.text ready) c')
    (ho : c.text = true → o ≠ []) :
    Kept o c (.text ready) c' ↔ Answered o c (.text ready) := by
  cases hs with
  | text ready hpc =>
    cases ht : c.text with
    | false =>
      have hstay : c.sendText ready = c := by simp [Client.sendText, ht]
      refine iff_of_true (kept_of_settled_nil ?_ ?_) (by simp [Answered, ht])
      · rw [hstay]
      · simp [settled, selected, hstay, ht]
    | true =>
      have hset : settled o c (.text ready) { c.sendText ready with mainPc := .batch }
          = o.map .text := by
        simp [settled, selected, Client.sendText, ht]
      cases ready with
      | false =>
        -- `text` is cleared all the same, and something has been shown
        have hi : (c.sendText false).session.issued = c.session.issued := by
          simp [Client.sendText, Session.sendTextMessage, ht]
        refine Iff.trans (kept_iff_of_silent hi) ?_
        rw [hset, List.map_eq_nil_iff]
        simp [Answered, ht, ho ht]
      | true =>
        have hi : (c.sendText true).session.issued = c.session.issued ++ [⟨c.session.currColor,
            chatFrame c.session.uuid c.session.currColor c.textmessage⟩] := by
          simp [Client.sendText, Session.sendTextMessage, Session.writeNow, chatFrame, ht]
        refine Iff.trans (kept_iff_of_frame hi) ?_
        rw [hset]
        constructor
        · rintro ⟨i, hone, hsays⟩
          obtain ⟨t, rfl, rfl⟩ := List.map_eq_singleton_iff.mp hone
          exact fun _ => ⟨rfl, t, rfl, (says_iff_spells _ _ _ _).mp hsays⟩
        · intro h
          obtain ⟨-, t, rfl, hspells⟩ := h ht
          exact ⟨.text t, rfl, (says_iff_spells _ _ _ _).mpr hspells⟩

/-- A step keeps what it treats as done exactly if it is answered. -/
theorem kept_iff (hs : ClientStep c a c') (hon : OnScreen c) (ho : c.text = true → o ≠ []) :
    Kept o c a c' ↔ Answered o c a := by
  cases a with
  | mouse color send ready =>
    cases color with
    | none => exact iff_of_true (kept_of_quiet hs rfl (by simp) (by simp)) trivial
    | some k => exact kept_mouse_iff hs
  | move ready => exact kept_move_iff hs hon
  | text ready => exact kept_text_iff hs ho
  | _ => exact iff_of_true (kept_of_quiet hs rfl (by simp) (by simp)) trivial

end Step

/-! ### Runs -/

/-- As long as `text` is set, a text that is shown is still to be sent. -/
lemma echoes_ne_nil {c c' : Client} {a : ClientAct} (hs : ClientStep c a c') {o : List TypedText}
    (ho : c.text = true → o ≠ []) (h : c'.text = true) : echoes o c a ≠ [] := by
  cases hs with
  | posFront | guiFront =>
    obtain ⟨pc, -, hc⟩ := exists_endBlock c _ _
    rw [hc] at h
    exact ho h
  | keys pressed => exact ho (by simpa only [keys_text] using h)
  | mouse color send ready =>
    cases send with
    | true => simp [echoes]
    | false => exact ho (by cases color <;> exact h)
  | move ready =>
    refine ho ?_
    simp only [Client.sendMove] at h
    split_ifs at h <;> exact h
  | typing textmessage enter =>
    cases enter with
    | true => simp [echoes]
    | false => exact ho h
  | text ready =>
    by_cases ht : c.text
    · simp [Client.sendText, ht] at h
    · simp [Client.sendText, ht] at h
  | _ => exact ho h

lemma owed_snoc (l : List (Client × ClientAct)) (c : Client) (a : ClientAct) :
    owed (l ++ [(c, a)]) = echoes (owed l) c a := by
  simp [owed]

lemma owed_ne_nil {uuid : UuidV4} {l : List (Client × ClientAct)} {c : Client}
    (h : (client uuid).Exec l c) : c.text = true → owed l ≠ [] := by
  induction h with
  | nil => intro ht; cases ht
  | @snoc l c c' a hl hs ih =>
    rw [owed_snoc]
    exact echoes_ne_nil (clientStep_of_step hs) ih

lemma onScreen_of_exec {uuid : UuidV4} {l : List (Client × ClientAct)} {c : Client}
    (h : (client uuid).Exec l c) : OnScreen c := by
  have hstart : OnScreen (client uuid).init :=
    ⟨le_refl 0, (by decide : (0 : ℤ) < windowScreenWidth), le_refl 0,
      (by decide : (0 : ℤ) < windowYBoundary)⟩
  exact h.invariant hstart fun _ _ _ ho hs => ho.step (clientStep_of_step hs)

/-- After the given steps, the step keeps what it treats as done. -/
def KeepsIntents (l : List (Client × ClientAct)) (c : Client) (a : ClientAct) : Prop :=
  ∀ c', c.step a = some c' → Kept (owed l) c a c'

lemma keepsIntents_iff {uuid : UuidV4} {l : List (Client × ClientAct)} {c c' : Client}
    {a : ClientAct} (h : (client uuid).Exec l c) (hs : c.step a = some c') :
    KeepsIntents l c a ↔ Answered (owed l) c a := by
  have hiff : Kept (owed l) c a c' ↔ Answered (owed l) c a :=
    kept_iff (clientStep_of_step hs) (onScreen_of_exec h) (owed_ne_nil h)
  rw [← hiff]
  constructor
  · intro hk
    exact hk c' hs
  · intro hk c'' hs'
    have he : c' = c'' := Option.some.inj (hs.symm.trans hs')
    exact he ▸ hk

/-- **No intent is lost, exactly.**  Along a run, every step keeps what it treats as done if and
only if the session is ready whenever it is called for something, and every text that is sent
stands for the only one that was shown. -/
theorem intents_kept_iff {uuid : UuidV4} {l : List (Client × ClientAct)} {c : Client}
    (h : (client uuid).Exec l c) :
    Along KeepsIntents l ↔ Along (fun l c a => Answered (owed l) c a) l :=
  h.along_iff fun _ _ _ _ hl hs => keepsIntents_iff hl hs

/-! ### A text that is shown and not sent -/

/-- Enter is released while the session is not ready. -/
def unsent : List ClientAct :=
  [.posEmpty, .guiEmpty, .keys ⟨false, false, false, false⟩, .mouse none false true, .move true,
    .typing emptyText true, .text false]

lemma unsent_runs : ((client someUuid).run (client someUuid).init unsent).isSome := by
  decide

def unsentClient : List (Client × ClientAct) × Client :=
  ((client someUuid).run (client someUuid).init unsent).get unsent_runs

lemma exec_unsent : (client someUuid).Exec unsentClient.1 unsentClient.2 :=
  exec_get_run unsent_runs

lemma unsent_ne_nil : unsentClient.1 ≠ [] := by
  rw [← List.length_pos_iff]
  decide

lemma unsent_last : (unsentClient.1.getLast unsent_ne_nil).2 = .text false
    ∧ (unsentClient.1.getLast unsent_ne_nil).1.text = true := by
  decide

/-- What the player means to send can get lost. -/
theorem text_lost : ¬ ∀ uuid l c, (client uuid).Exec l c → Along KeepsIntents l := by
  intro h
  have hkeeps : Along KeepsIntents unsentClient.1 := h someUuid _ _ exec_unsent
  have hanswered : Along (fun l c a => Answered (owed l) c a) unsentClient.1 :=
    (exec_unsent.along_iff fun _ _ _ _ hl hs => keepsIntents_iff hl hs).mp hkeeps
  obtain ⟨hact, htext⟩ := unsent_last
  have hlast := hanswered.getLast unsent_ne_nil
  rw [hact] at hlast
  exact Bool.false_ne_true (hlast htext).1

theorem intents_kept_iff_unsent : Along KeepsIntents unsentClient.1
    ↔ Along (fun l c a => Answered (owed l) c a) unsentClient.1 :=
  intents_kept_iff exec_unsent

end MultiplayerCars.Wire
