import MultiplayerCars.CPPClient.Calls
import MultiplayerCars.CPPClient.Converge

/-!
# Positions that are sent unasked

A client of which neither the keyboard nor the mouse is used still sends its position: when the
position block has taken the position of a player who was not known.  It does so in the same frame
of the main loop, and for no other reason.  As long as nobody leaves, a player who is known stays
known, so that each of the players makes the client send its position once at most.
-/

namespace MultiplayerCars.CPPClient

open Lib Lib.Json

/-- Neither the keyboard nor the mouse is used. -/
def Untouched (c : Client) : ClientAct → Prop
  | .keys pressed => pressed = ⟨false, false, false, false⟩
  | .mouse color send _ => color = none ∧ send = false
  | .typing textmessage enter => textmessage = c.textmessage ∧ enter = false
  | _ => True

/-- The player is on the screen. -/
def Client.knows (c : Client) (uuid : Text) : Prop := c.gui.externalplayers uuid ≠ none

/-- The update is no exit, and if it is a position, it is that of one of the given players. -/
def Greets (present : Text → Prop) (u : Update) : Prop :=
  u.Stays ∧ ∀ uuid car, u = .position uuid car → present uuid

/-- The places of the main loop between the position block and the place where the position is
sent. -/
def MainPc.AfterPositions : MainPc → Prop
  | .posPop | .guiEmpty | .guiSize | .guiFront | .guiPop | .keys | .mouse | .move => True
  | _ => False

/-! ### What an update does -/

/-- An update that is no exit brings in the player of whom it is a position, and nobody else. -/
lemma Update.Stays.known_apply {u : Update} (h : u.Stays) (clientUUID : Text) (g : Gui)
    (uuid : Text) :
    (u.apply clientUUID g).externalplayers uuid ≠ none ↔
      g.externalplayers uuid ≠ none ∨ ∃ car, u = .position uuid car := by
  cases u with
  | position v car =>
    by_cases hv : uuid = v
    · simp [Update.apply, Gui.setPlayer, hv]
    · simp [Update.apply, Gui.setPlayer, hv, Ne.symm hv]
  | exit v => exact absurd rfl (h v)
  | color v k =>
    cases hp : g.externalplayers v with
    | none => simp [Update.apply, hp]
    | some car =>
      by_cases hv : uuid = v
      · simp [Update.apply, Gui.setPlayer, hp, hv]
      · simp [Update.apply, Gui.setPlayer, hp, hv]
  | text v entry =>
    simp only [Update.apply]
    split_ifs <;> simp [Gui.pushText]
  | timeStamp t => simp [Update.apply]
  | other => simp [Update.apply]

/-- An update sets `move` for a player who was not known. -/
lemma Update.move_apply (u : Update) {clientUUID : Text} {g : Gui}
    (h : (u.apply clientUUID g).move = true) :
    g.move = true ∨ ∃ uuid car, u = .position uuid car ∧ g.externalplayers uuid = none := by
  cases u with
  | position v car =>
    simp only [Update.apply, Bool.or_eq_true, Option.isNone_iff_eq_none] at h
    rcases h with h | h
    · exact Or.inl h
    · exact Or.inr ⟨v, car, rfl, h⟩
  | color v k =>
    left
    simp only [Update.apply] at h
    split at h <;> exact h
  | text v entry =>
    left
    simp only [Update.apply] at h
    split_ifs at h <;> exact h
  | _ => exact Or.inl h

/-! ### One step of an untouched client -/

/-- What one step of an untouched client makes of the variables of its main loop. -/
inductive GuiStep (P : Update → Prop) (c : Client) : ClientAct → Gui → Prop
  | same {a : ClientAct} (ha : ∀ ready, a ≠ .move ready) : GuiStep P c a c.gui
  | posFront {u : Update} (hu : P u) (hp : u.isPosition) :
      GuiStep P c .posFront (u.apply c.clientUUID c.gui)
  | guiFront {u : Update} (hu : P u) (hp : ¬ u.isPosition) :
      GuiStep P c .guiFront (u.apply c.clientUUID c.gui)
  | move (ready : Bool) : GuiStep P c (.move ready) { c.gui with move := false }

section Step

variable {P : Update → Prop} {present : Text → Prop} {c c' : Client} {a : ClientAct}

lemma keys_untouched (c : Client) : c.keys ⟨false, false, false, false⟩ = c := by
  simp [Client.keys, Client.steer]

lemma sendMove_gui (c : Client) (ready : Bool) :
    (c.sendMove ready).gui = { c.gui with move := false } := by
  rw [Client.sendMove]
  split_ifs with hm
  · rfl
  · have hoff : c.gui.move = false := by simpa using hm
    rw [← hoff]

theorem Supplied.guiStep (h : Supplied P c) (htext : c.text = false) (hu : Untouched c a)
    (hs : ClientStep c a c') : GuiStep P c a c'.gui := by
  cases hs with
  | @posFront front rest hpc hq =>
    obtain ⟨u, hwf, hP, hp⟩ := h.pos front (by rw [hq]; simp)
    rw [hwf.block_position hp c.clientUUID]
    exact .posFront hP hp
  | @guiFront front rest hpc hq =>
    obtain ⟨u, hwf, hP, hp⟩ := h.gui front (by rw [hq]; simp)
    rw [hwf.block_gui hp c.clientUUID]
    exact .guiFront hP hp
  | keys pressed =>
    obtain rfl : pressed = ⟨false, false, false, false⟩ := hu
    rw [keys_untouched]
    exact .same (by simp)
  | mouse color send ready =>
    obtain ⟨rfl, rfl⟩ : color = none ∧ send = false := hu
    exact .same (by simp)
  | move ready =>
    dsimp only
    rw [sendMove_gui]
    exact .move ready
  | typing textmessage enter =>
    obtain ⟨rfl, rfl⟩ : textmessage = c.textmessage ∧ enter = false := hu
    exact .same (by simp)
  | text ready =>
    rw [Client.sendText, htext]
    exact .same (by simp)
  | _ => exact .same (by simp)

/-- What a run without input and without exits keeps of a client: it has something to reply to
when `move` is set, and then it is past its position block. -/
structure Bystander (present : Text → Prop) (c : Client) : Prop where
  supplied : Supplied (Greets present) c
  onScreen : OnScreen c
  paced : Paced c.session
  silent : c.text = false
  after : c.gui.move = true → c.mainPc.AfterPositions
  greeted : c.gui.move = true → ∃ uuid, present uuid ∧ c.knows uuid

lemma Bystander.start (uuid : UuidV4) (present : Text → Prop) :
    Bystander present (Client.start uuid) where
  supplied := Supplied.start uuid
  onScreen := by
    have hwidth : (0 : ℤ) < windowScreenWidth := by decide
    have hheight : (0 : ℤ) < windowYBoundary := by decide
    exact ⟨le_refl 0, hwidth, le_refl 0, hheight⟩
  paced := ⟨by simp [Client.start, Session.start], by simp [Client.start, Session.start]⟩
  silent := rfl
  after := by simp [Client.start]
  greeted := by simp [Client.start]

/-- What a step does about the players who are known and about `move`: nothing new, or the position
block takes the position of a player who was not known. -/
inductive Learning (present : Text → Prop) (c : Client) (a : ClientAct) (c' : Client) : Prop
  | nothing (hk : ∀ uuid, c'.knows uuid ↔ c.knows uuid)
      (hm : c'.gui.move = true → c.gui.move = true ∧ ∀ ready, a ≠ .move ready)
  | newcomer {uuid : Text} (ha : a = .posFront) (hp : present uuid) (hnew : ¬ c.knows uuid)
      (hk : ∀ v, c'.knows v ↔ c.knows v ∨ v = uuid)

theorem Bystander.learning (h : Bystander present c) (hu : Untouched c a)
    (hs : ClientStep c a c') : Learning present c a c' := by
  have hgui := h.supplied.guiStep h.silent hu hs
  generalize hg : c'.gui = g at hgui
  cases hgui with
  | same ha =>
    refine .nothing (fun uuid => ?_) (fun hm => ?_)
    · rw [Client.knows, hg]
      rfl
    · rw [hg] at hm
      exact ⟨hm, ha⟩
  | @posFront u hgreets hp =>
    obtain ⟨hstays, hpresent⟩ := hgreets
    cases u with
    | position v car =>
      by_cases hv : c.knows v
      · refine .nothing (fun uuid => ?_) (fun hm => ?_)
        · rw [Client.knows, hg, hstays.known_apply]
          refine or_iff_left_of_imp ?_
          rintro ⟨car', he⟩
          obtain ⟨rfl, -⟩ := Update.position.inj he
          exact hv
        · rw [hg] at hm
          rcases Update.move_apply _ hm with hm | ⟨uuid, car', he, hno⟩
          · exact ⟨hm, by simp⟩
          · obtain ⟨rfl, -⟩ := Update.position.inj he
            exact absurd hno hv
      · refine .newcomer rfl (hpresent v car rfl) hv fun uuid => ?_
        rw [Client.knows, hg, hstays.known_apply]
        refine or_congr_right ⟨?_, ?_⟩
        · rintro ⟨car', he⟩
          exact (Update.position.inj he).1.symm
        · rintro rfl
          exact ⟨car, rfl⟩
    | _ => cases hp
  | @guiFront u hgreets hp =>
    have hno : ∀ uuid car, u ≠ .position uuid car := by
      rintro uuid car rfl
      exact hp rfl
    refine .nothing (fun uuid => ?_) (fun hm => ?_)
    · rw [Client.knows, hg, hgreets.1.known_apply]
      refine or_iff_left_of_imp ?_
      rintro ⟨car, he⟩
      exact absurd he (hno uuid car)
    · rw [hg] at hm
      rcases u.move_apply hm with hm | ⟨uuid, car, he, -⟩
      · exact ⟨hm, by simp⟩
      · exact absurd he (hno uuid car)
  | move ready =>
    refine .nothing (fun uuid => ?_) (fun hm => ?_)
    · rw [Client.knows, hg]
      rfl
    · rw [hg] at hm
      cases hm

/-- A client that has still to send its position goes on from the position block to the place where
it does. -/
lemma Bystander.after_step (h : Bystander present c) (hu : Untouched c a)
    (hs : ClientStep c a c') (hm : c'.gui.move = true) : c'.mainPc.AfterPositions := by
  -- past that place, and up to the next position block, `move` is not set
  have off : ∀ {pc : MainPc}, c.mainPc = pc → ¬ pc.AfterPositions → c.gui.move = false := by
    intro pc hpc hno
    by_contra hset
    have hafter := h.after (by simpa using hset)
    rw [hpc] at hafter
    exact hno hafter
  cases hs with
  | posEmpty hpc => exact absurd hm (by simp [off hpc id])
  | @posFront front rest hpc hq =>
    obtain ⟨u, hwf, -, hp⟩ := h.supplied.pos front (by rw [hq]; simp)
    rw [hwf.block_position hp c.clientUUID]
    trivial
  | posPop => trivial
  | guiEmpty =>
    dsimp only
    split_ifs <;> trivial
  | guiSize =>
    dsimp only
    split_ifs <;> trivial
  | @guiFront front rest hpc hq =>
    obtain ⟨u, hwf, -, hp⟩ := h.supplied.gui front (by rw [hq]; simp)
    rw [hwf.block_gui hp c.clientUUID]
    trivial
  | guiPop => trivial
  | keys => trivial
  | mouse => trivial
  | move ready =>
    dsimp only at hm
    rw [sendMove_gui] at hm
    cases hm
  | typing textmessage enter hpc =>
    obtain ⟨rfl, rfl⟩ : textmessage = c.textmessage ∧ enter = false := hu
    exact absurd hm (by simp [Client.typing, off hpc id])
  | text ready hpc =>
    rw [Client.sendText, h.silent] at hm
    exact absurd hm (by simp [off hpc id])
  | batch hpc => exact absurd hm (by simp [off hpc id])
  | discardTest hpc | discardEnd hpc | discardPop hpc => exact absurd hm (by simp [off hpc id])
  | _ => exact h.after hm

lemma Bystander.silent_step (h : Bystander present c) (hu : Untouched c a)
    (hs : ClientStep c a c') : c'.text = false := by
  cases hs with
  | posFront | guiFront =>
    obtain ⟨pc, -, hc⟩ := exists_endBlock c _ _
    rw [hc]
    exact h.silent
  | keys pressed =>
    obtain rfl : pressed = ⟨false, false, false, false⟩ := hu
    rw [keys_untouched]
    exact h.silent
  | mouse color send ready =>
    obtain ⟨rfl, rfl⟩ : color = none ∧ send = false := hu
    exact h.silent
  | move ready =>
    rw [Client.sendMove]
    split_ifs <;> exact h.silent
  | typing textmessage enter =>
    obtain ⟨rfl, rfl⟩ : textmessage = c.textmessage ∧ enter = false := hu
    exact h.silent
  | text ready =>
    rw [Client.sendText, h.silent]
    exact h.silent
  | _ => exact h.silent

theorem Bystander.step (h : Bystander present c) (hu : Untouched c a)
    (ho : Brings (Greets present) a) (hs : ClientStep c a c') : Bystander present c' where
  supplied := h.supplied.step ho hs
  onScreen := h.onScreen.step hs
  paced := hs.sessionStep.paced h.paced
  silent := h.silent_step hu hs
  after := h.after_step hu hs
  greeted := by
    intro hm
    have hlearn := h.learning hu hs
    cases hlearn with
    | nothing hk hm' =>
      obtain ⟨uuid, hp, hknows⟩ := h.greeted (hm' hm).1
      exact ⟨uuid, hp, (hk uuid).mpr hknows⟩
    | newcomer ha hp hnew hk => exact ⟨_, hp, (hk _).mpr (Or.inr rfl)⟩

/-- `move` is set in the frame in which the position block takes the position of a player who was
not known, and stays set in that frame only. -/
lemma Bystander.move_cases (h : Bystander present c) (hu : Untouched c a)
    (hs : ClientStep c a c') (hm : c'.gui.move = true) :
    (c.gui.move = true ∧ a ≠ .posEmpty) ∨
      (a = .posFront ∧ ∃ uuid, ¬ c.knows uuid ∧ c'.knows uuid) := by
  cases h.learning hu hs with
  | nothing hk hm' =>
    have hold := (hm' hm).1
    refine Or.inl ⟨hold, ?_⟩
    rintro rfl
    cases hs with
    | posEmpty hpc =>
      have hafter := h.after hold
      rw [hpc] at hafter
      exact hafter
  | newcomer ha hp hnew hk => exact Or.inr ⟨ha, _, hnew, (hk _).mpr (Or.inr rfl)⟩

end Step

end MultiplayerCars.CPPClient
