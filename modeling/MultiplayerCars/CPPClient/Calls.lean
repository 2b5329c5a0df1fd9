import MultiplayerCars.CPPClient.Ghosts

/-!
# When a client sends its position

The main loop calls the session at three places, and `move` decides about one of them: it is set
when the car moves and when a position of a player who was not known is taken, and it stays set
until the main loop sends the position.  The position then waits in `asyncWriteQueue` until
`workerWrite` has written it.  A client that has set `move` therefore owes the server a position
until the server reads one.
-/

namespace MultiplayerCars.CPPClient

open Lib Lib.Json

/-! ### When `move` is set -/

/-- However the computation ends, `move` is still set if it was. -/
def KeepsMove {α : Type} (m : GuiM α) : Prop :=
  ∀ g, g.move = true → (∃ a g', m.run g = .ok a g' ∧ g'.move = true) ∨
    ∃ e g', m.run g = .error e g' ∧ g'.move = true

lemma keepsMove_positionUpdate (o : Object) : KeepsMove (positionUpdate o) :=
  keeps_positionUpdate (fun _ _ _ _ hg => hg) fun _ _ => rfl

lemma keepsMove_guiUpdate (clientUUID : Text) (o : Object) :
    KeepsMove (guiUpdate clientUUID o) :=
  keeps_guiUpdate fun _ _ hmove _ hg => hmove.trans hg

/-- A block leaves `move` set, whatever the message says. -/
lemma move_block {update : Object → GuiM Unit} (h : ∀ o, KeepsMove (update o)) (front : Text)
    (c : Client) (pop : MainPc) (hm : c.gui.move = true) :
    (c.endBlock (block update front c.gui) pop).gui.move = true := by
  obtain ⟨pc, -, hc⟩ := exists_endBlock c _ _
  rw [hc]
  exact Keeps.block (P := fun g => g.move = true) (fun o _ => h o) hm

/-- An update that brings in a player sets `move`. -/
lemma Update.move_of_newcomer (u : Update) (clientUUID : Text) {g : Gui} {uuid : Text}
    (hno : g.externalplayers uuid = none)
    (h : (u.apply clientUUID g).externalplayers uuid ≠ none) :
    (u.apply clientUUID g).move = true := by
  cases u with
  | position v car =>
    by_cases hv : uuid = v
    · simp [Update.apply, ← hv, hno]
    · exact absurd hno (by simpa [Update.apply, Gui.setPlayer, hv] using h)
  | exit v =>
    by_cases hv : uuid = v
    · exact absurd h (by simp [Update.apply, Gui.setPlayer, hv])
    · exact absurd hno (by simpa [Update.apply, Gui.setPlayer, hv] using h)
  | color v c =>
    cases hp : g.externalplayers v with
    | none => exact absurd hno (by simpa [Update.apply, hp] using h)
    | some car =>
      by_cases hv : uuid = v
      · rw [hv, hp] at hno
        exact absurd hno (by simp)
      · exact absurd hno (by simpa [Update.apply, Gui.setPlayer, hp, hv] using h)
  | timeStamp t => exact absurd hno h
  | text v entry =>
    simp only [Update.apply] at h
    split_ifs at h <;> exact absurd hno h
  | other => exact absurd hno h

/-- `move` stays set until the main loop comes to the place where the position is sent. -/
lemma ClientStep.move_stays {c c' : Client} {a : ClientAct} (hs : ClientStep c a c')
    (h : c.gui.move = true) : c'.gui.move = true ∨ ∃ ready, a = .move ready := by
  cases hs with
  | posFront => exact Or.inl (move_block keepsMove_positionUpdate _ c _ h)
  | guiFront => exact Or.inl (move_block (keepsMove_guiUpdate c.clientUUID) _ c _ h)
  | keys pressed =>
    left
    obtain ⟨X, Y, move, hmove, hc⟩ := steered_keys c pressed
    rw [hc]
    exact hmove h
  | mouse color send ready =>
    left
    cases color <;> cases send <;> exact h
  | move ready => exact Or.inr ⟨ready, rfl⟩
  | typing textmessage enter =>
    left
    cases enter <;> exact h
  | text ready =>
    left
    simp only [Client.sendText]
    split_ifs <;> exact h
  | _ => exact Or.inl h

/-- A step that brings in a player sets `move`. -/
lemma ClientStep.move_of_newcomer {c c' : Client} {a : ClientAct} (hs : ClientStep c a c')
    (ht : Tidy c) {uuid : Text} (hno : c.gui.externalplayers uuid = none)
    (h : c'.gui.externalplayers uuid ≠ none) : c'.gui.move = true := by
  by_cases ha : a.roams
  · exact absurd ((congrFun (hs.undisturbed ha).players uuid).trans hno) h
  cases hs with
  | @posFront front rest hpc hq =>
    obtain ⟨u, hu, hp⟩ := ht.pos front (by rw [hq]; simp)
    rw [hu.block_position hp c.clientUUID] at h ⊢
    exact u.move_of_newcomer c.clientUUID hno h
  | @guiFront front rest hpc hq =>
    obtain ⟨u, hu, hp⟩ := ht.gui front (by rw [hq]; simp)
    rw [hu.block_gui hp c.clientUUID] at h ⊢
    exact u.move_of_newcomer c.clientUUID hno h
  | _ => first | exact absurd rfl ha | exact absurd hno h

/-! ### Where the car is -/

/-- The car is within the window. -/
structure OnScreen (c : Client) : Prop where
  left : 0 ≤ c.X
  right : c.X < windowScreenWidth
  top : 0 ≤ c.Y
  bottom : c.Y < windowYBoundary

lemma OnScreen.steer {c : Client} (h : OnScreen c) {pressed allowed : Bool} {X Y : ℤ}
    (hm : allowed = true → (0 ≤ X ∧ X < windowScreenWidth) ∧ 0 ≤ Y ∧ Y < windowYBoundary) :
    OnScreen (c.steer pressed allowed X Y) := by
  rw [Client.steer]
  split_ifs with hp
  · obtain ⟨⟨hl, hr⟩, ht, hb⟩ := hm (by simp_all)
    exact ⟨hl, hr, ht, hb⟩
  · exact h

/-- A car that moves by two towards the upper edge was further than that from it, and so for the
other edges. -/
lemma OnScreen.up {c : Client} (h : OnScreen c) (pressed : Bool) :
    OnScreen (c.steer pressed (1 < c.Y) c.X (c.Y - 2)) := by
  refine h.steer fun ha => ?_
  obtain ⟨hl, hr, ht, hb⟩ := h
  have hY : 1 < c.Y := of_decide_eq_true ha
  omega

lemma OnScreen.down {c : Client} (h : OnScreen c) (pressed : Bool) :
    OnScreen (c.steer pressed (c.Y < windowYBoundary - getCarHeight - 1) c.X (c.Y + 2)) := by
  refine h.steer fun ha => ?_
  obtain ⟨hl, hr, ht, hb⟩ := h
  have hheight : getCarHeight = 50 := rfl
  have hY : c.Y < windowYBoundary - getCarHeight - 1 := of_decide_eq_true ha
  omega

lemma OnScreen.toLeft {c : Client} (h : OnScreen c) (pressed : Bool) :
    OnScreen (c.steer pressed (1 < c.X) (c.X - 2) c.Y) := by
  refine h.steer fun ha => ?_
  obtain ⟨hl, hr, ht, hb⟩ := h
  have hX : 1 < c.X := of_decide_eq_true ha
  omega

lemma OnScreen.toRight {c : Client} (h : OnScreen c) (pressed : Bool) :
    OnScreen (c.steer pressed (c.X < windowScreenWidth - getCarWidth - 1) (c.X + 2) c.Y) := by
  refine h.steer fun ha => ?_
  obtain ⟨hl, hr, ht, hb⟩ := h
  have hwidth : getCarWidth = 50 := rfl
  have hX : c.X < windowScreenWidth - getCarWidth - 1 := of_decide_eq_true ha
  omega

lemma OnScreen.keys {c : Client} (h : OnScreen c) (k : Keys) : OnScreen (c.keys k) :=
  (((h.up k.up).down k.down).toLeft k.left).toRight k.right

theorem OnScreen.step {c c' : Client} {a : ClientAct} (h : OnScreen c) (hs : ClientStep c a c') :
    OnScreen c' := by
  cases hs with
  | posFront | guiFront =>
    obtain ⟨pc, -, hc⟩ := exists_endBlock c _ _
    rw [hc]
    exact ⟨h.left, h.right, h.top, h.bottom⟩
  | keys pressed =>
    have hk := h.keys pressed
    exact ⟨hk.left, hk.right, hk.top, hk.bottom⟩
  | mouse color send ready =>
    cases color <;> cases send <;> exact ⟨h.left, h.right, h.top, h.bottom⟩
  | move ready =>
    simp only [Client.sendMove]
    split_ifs <;> exact ⟨h.left, h.right, h.top, h.bottom⟩
  | typing textmessage enter => cases enter <;> exact ⟨h.left, h.right, h.top, h.bottom⟩
  | text ready =>
    simp only [Client.sendText]
    split_ifs <;> exact ⟨h.left, h.right, h.top, h.bottom⟩
  | _ => exact ⟨h.left, h.right, h.top, h.bottom⟩

/-! ### The calls of the session, and what is still to be read -/

/-- The frames that are still to be read when `n` have been: those that have been written since,
and those that wait to be written. -/
def Session.unread (s : Session) (n : ℕ) : List Frame := s.written.drop n ++ s.pending

lemma mem_unread_of_subset {s t : Session} {n : ℕ} {f : Frame} {r : List Frame}
    (hw : t.written = s.written ++ r) (hp : s.pending ⊆ t.pending) (hf : f ∈ s.unread n) :
    f ∈ t.unread n := by
  rw [Session.unread, hw, List.drop_append]
  rcases List.mem_append.mp hf with hf | hf
  · simp [hf]
  · simp [hp hf]

lemma keys_session (c : Client) (k : Keys) : (c.keys k).session = c.session := by
  obtain ⟨X, Y, move, -, hc⟩ := steered_keys c k
  rw [hc]

lemma keys_text (c : Client) (k : Keys) : (c.keys k).text = c.text := by
  obtain ⟨X, Y, move, -, hc⟩ := steered_keys c k
  rw [hc]

/-- What the session of a client does in one step: nothing that shows, a call that is not ready
or is, or a step of `workerWrite`. -/
inductive SessionStep (c : Client) (a : ClientAct) (s : Session) : Session → Prop
  | same : SessionStep c a s s
  | recolor (k : HexColor) : SessionStep c a s { s with currColor := k }
  | position (ha : a = .move true) :
      SessionStep c a s (s.sendPosition true c.X c.Y)
  | color (k : HexColor) : SessionStep c a s (s.sendColorUpdate true k)
  | text (ha : a = .text true) (ht : c.text = true) :
      SessionStep c a s (s.sendTextMessage true c.textmessage)
  | front {tmp : Frame} {q : List Frame} (hw : s.worker = .front)
      (hq : s.asyncWriteQueue = tmp :: q) : SessionStep c a s { s with worker := .write tmp }
  | write {tmp : Frame} (hw : s.worker = .write tmp) :
      SessionStep c a s { s with written := s.written ++ [tmp], worker := .pop }
  | pop (hw : s.worker = .pop) :
      SessionStep c a s { s with asyncWriteQueue := s.asyncWriteQueue.tail, worker := .front }

theorem ClientStep.sessionStep {c c' : Client} {a : ClientAct} (hs : ClientStep c a c') :
    SessionStep c a c.session c'.session := by
  cases hs with
  | posFront | guiFront =>
    obtain ⟨pc, -, hc⟩ := exists_endBlock c _ _
    rw [hc]
    exact .same
  | keys pressed =>
    rw [show Client.session { c.keys pressed with mainPc := .mouse } = c.session from
      keys_session c pressed]
    exact .same
  | mouse color send ready =>
    cases color with
    | none => cases send <;> exact .same
    | some k =>
      cases ready
      · cases send <;> exact .recolor k
      · cases send <;> exact .color k
  | move ready =>
    simp only [Client.sendMove]
    split_ifs
    · cases ready
      · exact .same
      · exact .position rfl
    · exact .same
  | typing textmessage enter => cases enter <;> exact .same
  | text ready =>
    simp only [Client.sendText]
    split_ifs with ht
    · cases ready
      · exact .same
      · exact .text rfl ht
    · exact .same
  | workerFront h =>
    simp only [Session.step] at h
    split at h
    · rename_i hw hq
      rw [← Option.some.inj h]
      exact .front hw hq
    · cases h
  | workerWrite h =>
    simp only [Session.step] at h
    split at h
    · rename_i hw
      rw [← Option.some.inj h]
      exact .write hw
    · cases h
  | workerPop h =>
    simp only [Session.step] at h
    split at h
    · rename_i hw
      rw [← Option.some.inj h]
      exact .pop hw
    · cases h
  | _ => exact .same

section SessionStep

variable {c : Client} {a : ClientAct} {s t : Session}

lemma SessionStep.uuid (hs : SessionStep c a s t) : t.uuid = s.uuid := by
  cases hs <;> rfl

/-- What has been written stays written. -/
lemma SessionStep.written (hs : SessionStep c a s t) : s.written <+: t.written := by
  cases hs with
  | color k => exact List.prefix_append _ _
  | text => exact List.prefix_append _ _
  | write => exact List.prefix_append _ _
  | _ => exact List.prefix_refl _

lemma SessionStep.paced (h : Paced s) (hs : SessionStep c a s t) : Paced t := by
  cases hs with
  | position => exact h.sendPosition _ _
  | front hw hq =>
    refine ⟨fun tmp' ht => ?_, fun ht => by simp at ht⟩
    cases ht
    simp [hq]
  | write hw =>
    refine ⟨fun tmp' ht => by simp at ht, fun _ he => ?_⟩
    have hhead := h.writing _ hw
    rw [he] at hhead
    cases hhead
  | pop hw => exact ⟨fun tmp' ht => by simp at ht, fun ht => by simp at ht⟩
  | _ => exact ⟨h.writing, h.popping⟩

/-- A frame that is still to be read stays so, as far as the client is concerned. -/
theorem SessionStep.unread (h : Paced s) (hs : SessionStep c a s t) {n : ℕ}
    (hn : n ≤ s.written.length) {f : Frame} (hf : f ∈ s.unread n) : f ∈ t.unread n := by
  cases hs with
  | same => exact hf
  | recolor k => exact hf
  | position =>
    refine mem_unread_of_subset (List.append_nil s.written).symm ?_ hf
    rw [h.pending_sendPosition]
    exact List.subset_append_left _ _
  | color k => exact mem_unread_of_subset rfl (List.Subset.refl _) hf
  | text => exact mem_unread_of_subset rfl (List.Subset.refl _) hf
  | front hw hq => simpa only [Session.unread, Session.pending, hw] using hf
  | @write tmp hw =>
    -- the frame that is written is the one that waited at the front
    obtain ⟨q, hq⟩ := List.head?_eq_some_iff.mp (h.writing tmp hw)
    simp only [Session.unread, Session.pending, hw, hq, List.tail_cons] at hf ⊢
    rw [List.drop_append_of_le_length hn, List.append_assoc]
    exact hf
  | pop hw => simpa only [Session.unread, Session.pending, hw] using hf

/-- The frames of a client are made by its calls. -/
lemma SessionStep.frame_cases (hs : SessionStep c a s t) {f : Frame}
    (hp : Paced s) (hf : f ∈ t.asyncWriteQueue ++ t.written) :
    f ∈ s.asyncWriteQueue ++ s.written ∨
      (∃ k, f = ⟨k, posFrame k.text s.uuid.text c.X c.Y⟩) ∨
      (∃ k, f = ⟨k, colorFrame k.text⟩) ∨
      (a = .text true ∧ c.text = true ∧
        f = ⟨s.currColor,
          textMsgFrame s.currColor.text s.uuid.text [] c.textmessage.text true⟩) := by
  cases hs with
  | position =>
    simp only [Session.sendPosition, if_true, List.append_assoc, List.mem_append,
      List.mem_singleton] at hf ⊢
    rcases hf with hf | rfl | hf
    · exact Or.inl (Or.inl hf)
    · exact Or.inr (Or.inl ⟨s.currColor, rfl⟩)
    · exact Or.inl (Or.inr hf)
  | color k =>
    simp only [Session.sendColorUpdate, Session.writeNow, if_true, ← List.append_assoc] at hf
    rcases List.mem_append.mp hf with hf | hf
    · exact Or.inl hf
    · exact Or.inr (Or.inr (Or.inl ⟨k, List.mem_singleton.mp hf⟩))
  | text ha ht =>
    simp only [Session.sendTextMessage, Session.writeNow, if_true, ← List.append_assoc] at hf
    rcases List.mem_append.mp hf with hf | hf
    · exact Or.inl hf
    · exact Or.inr (Or.inr (Or.inr ⟨ha, ht, List.mem_singleton.mp hf⟩))
  | @write tmp hw =>
    obtain ⟨q, hq⟩ := List.head?_eq_some_iff.mp (hp.writing tmp hw)
    left
    simp only [← List.append_assoc] at hf
    rcases List.mem_append.mp hf with hf | hf
    · exact hf
    · rw [List.mem_singleton.mp hf, hq]
      simp
  | pop hw =>
    left
    rcases List.mem_append.mp hf with hf | hf
    · exact List.mem_append_left _ (List.mem_of_mem_tail hf)
    · exact List.mem_append_right _ hf
  | _ => exact Or.inl hf

end SessionStep

/-! ### What a client owes -/

/-- The client has still to send its position, or has sent one that is still to be read, when `n`
of its frames have been. -/
def Client.Owes (c : Client) (n : ℕ) : Prop :=
  c.gui.move = true ∨ ∃ f ∈ c.session.unread n, f.isPosition

/-- A client that finds its session ready whenever it sends its position owes the position until
it is read. -/
theorem Client.Owes.step {c c' : Client} {a : ClientAct} {n : ℕ} (h : c.Owes n)
    (hp : Paced c.session) (hn : n ≤ c.session.written.length)
    (hready : ∀ ready, a = .move ready → c.gui.move = true → ready = true)
    (hs : ClientStep c a c') : c'.Owes n := by
  rcases h with hm | ⟨f, hf, hpos⟩
  · rcases hs.move_stays hm with hm' | ⟨ready, rfl⟩
    · exact Or.inl hm'
    · have hr := hready ready rfl hm
      subst hr
      refine Or.inr ⟨_, ?_, isPosition_posFrame c.session.currColor c.session.uuid c.X c.Y⟩
      cases hs with
      | move =>
        simp only [Client.sendMove, hm, if_true, Session.unread]
        rw [hp.pending_sendPosition]
        simp
  · exact Or.inr ⟨f, hs.sessionStep.unread hp hn hf, hpos⟩

/-- The window shows the car in the colour that the session sends: a click on a colour changes both,
and nothing else changes either. -/
lemma ClientStep.matched {c c' : Client} {a : ClientAct} (hs : ClientStep c a c')
    (h : c.session.currColor = c.carColor) : c'.session.currColor = c'.carColor := by
  cases hs with
  | posFront | guiFront =>
    obtain ⟨pc, -, hc⟩ := exists_endBlock c _ _
    rw [hc]
    exact h
  | keys k =>
    obtain ⟨X, Y, move, -, hc⟩ := steered_keys c k
    rw [hc]
    exact h
  | mouse color send ready =>
    cases color with
    | none => cases send <;> exact h
    | some k => cases send <;> cases ready <;> rfl
  | move ready =>
    simp only [Client.sendMove, Session.sendPosition]
    split_ifs <;> exact h
  | typing textmessage enter => cases enter <;> exact h
  | text ready =>
    simp only [Client.sendText, Session.sendTextMessage, Session.writeNow]
    split_ifs <;> exact h
  | workerFront hw | workerWrite hw | workerPop hw =>
    simp only [Session.step] at hw
    split at hw
    · rw [← Option.some.inj hw]
      exact h
    · cases hw
  | _ => exact h

end MultiplayerCars.CPPClient
