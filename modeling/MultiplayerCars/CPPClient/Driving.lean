import MultiplayerCars.CPPClient.Calls

/-!
# Where a car can be

A car begins in the upper left corner and moves by two along either coordinate, as long as it is
further than one from the edge to which it moves.  So it stays on even coordinates, and wholly
inside the field; and there it can be driven everywhere.
-/

namespace MultiplayerCars.CPPClient

open Lib

/-- The car, with all its width and height, is inside the field, on even coordinates. -/
structure InField (X Y : ℤ) : Prop where
  left : 0 ≤ X
  right : X + getCarWidth ≤ windowScreenWidth
  top : 0 ≤ Y
  bottom : Y + getCarHeight ≤ windowYBoundary
  evenX : Even X
  evenY : Even Y

/-! ### It stays in the field -/

section

variable {c c' : Client} {a : ClientAct}

lemma InField.steer (h : InField c.X c.Y) (pressed : Bool) {allowed : Bool} {X Y : ℤ}
    (hm : allowed = true → InField X Y) :
    InField (c.steer pressed allowed X Y).X (c.steer pressed allowed X Y).Y := by
  rw [Client.steer]
  split_ifs with hp
  · exact hm (by simp_all)
  · exact h

/-- A move towards an edge, of a car that is further than one from it. -/
lemma InField.keys (h : InField c.X c.Y) (k : Keys) : InField (c.keys k).X (c.keys k).Y := by
  have htwo : Even (2 : ℤ) := even_two
  have hwidth : getCarWidth = 50 := rfl
  have hheight : getCarHeight = 50 := rfl
  have hscreen : windowScreenWidth = 1600 := rfl
  have hboundary : windowYBoundary = 570 := by decide
  have hup : ∀ {c : Client}, InField c.X c.Y → 1 < c.Y → InField c.X (c.Y - 2) := by
    rintro c ⟨hl, hr, ht, hb, hx, hy⟩ hc
    exact ⟨hl, hr, by omega, by omega, hx, hy.sub htwo⟩
  have hdown : ∀ {c : Client}, InField c.X c.Y → c.Y < windowYBoundary - getCarHeight - 1 →
      InField c.X (c.Y + 2) := by
    rintro c ⟨hl, hr, ht, hb, hx, hy⟩ hc
    -- an even coordinate below 519 is at most 518
    obtain ⟨n, hn⟩ := hy
    exact ⟨hl, hr, by omega, by omega, hx, n + 1, by omega⟩
  have hleft : ∀ {c : Client}, InField c.X c.Y → 1 < c.X → InField (c.X - 2) c.Y := by
    rintro c ⟨hl, hr, ht, hb, hx, hy⟩ hc
    exact ⟨by omega, by omega, ht, hb, hx.sub htwo, hy⟩
  have hright : ∀ {c : Client}, InField c.X c.Y → c.X < windowScreenWidth - getCarWidth - 1 →
      InField (c.X + 2) c.Y := by
    rintro c ⟨hl, hr, ht, hb, hx, hy⟩ hc
    obtain ⟨n, hn⟩ := hx
    exact ⟨by omega, by omega, ht, hb, ⟨n + 1, by omega⟩, hy⟩
  have h₁ := h.steer k.up fun ha => hup h (of_decide_eq_true ha)
  have h₂ := h₁.steer k.down fun ha => hdown h₁ (of_decide_eq_true ha)
  have h₃ := h₂.steer k.left fun ha => hleft h₂ (of_decide_eq_true ha)
  exact h₃.steer k.right fun ha => hright h₃ (of_decide_eq_true ha)

theorem InField.step (h : InField c.X c.Y) (hs : ClientStep c a c') : InField c'.X c'.Y := by
  cases hs with
  | posFront | guiFront =>
    obtain ⟨pc, -, hc⟩ := exists_endBlock c _ _
    rw [hc]
    exact h
  | keys pressed => exact h.keys pressed
  | mouse color send ready => cases color <;> cases send <;> exact h
  | move ready =>
    simp only [Client.sendMove]
    split_ifs <;> exact h
  | typing textmessage enter => cases enter <;> exact h
  | text ready =>
    simp only [Client.sendText]
    split_ifs <;> exact h
  | _ => exact h

lemma inField_origin : InField 0 0 := by
  constructor <;> decide

end

/-! ### And gets everywhere in it -/

section

variable {uuid : UuidV4}

/-- A client to which nothing has come in, somewhere in an iteration of the main loop. -/
def placed (uuid : UuidV4) (pc : MainPc) (move : Bool) (X Y : ℤ) : Client :=
  { Client.start uuid with
    mainPc := pc
    gui := { (Client.start uuid).gui with move := move }
    X := X
    Y := Y }

/-- The iteration after the arrow keys, in a session that is not ready. -/
lemma reachable_posEmpty {X Y : ℤ}
    (h : (client uuid).Reachable (placed uuid .mouse true X Y)) :
    (client uuid).Reachable (placed uuid .posEmpty false X Y) := by
  obtain ⟨l, h⟩ := h
  have h₁ : (client uuid).Exec _ (placed uuid .move true X Y) :=
    h.snoc (a := .mouse none false false) rfl
  have h₂ : (client uuid).Exec _ (placed uuid .typing false X Y) := h₁.snoc (a := .move false) rfl
  have h₃ : (client uuid).Exec _ (placed uuid .text false X Y) :=
    h₂.snoc (a := .typing emptyText false) rfl
  have h₄ : (client uuid).Exec _ (placed uuid .batch false X Y) := h₃.snoc (a := .text false) rfl
  exact ⟨_, h₄.snoc (a := .batch) rfl⟩

/-- One iteration of the main loop, with some arrow key pressed. -/
lemma reachable_keys {X Y X' Y' : ℤ} (h : (client uuid).Reachable (placed uuid .posEmpty false X Y))
    {k : Keys} (hk : (placed uuid .keys false X Y).keys k = placed uuid .keys true X' Y') :
    (client uuid).Reachable (placed uuid .posEmpty false X' Y') := by
  obtain ⟨l, h⟩ := h
  have h₁ : (client uuid).Exec _ (placed uuid .guiEmpty false X Y) := h.snoc (a := .posEmpty) rfl
  have h₂ : (client uuid).Exec _ (placed uuid .keys false X Y) := h₁.snoc (a := .guiEmpty) rfl
  refine reachable_posEmpty ⟨_, h₂.snoc (a := .keys k) ?_⟩
  change some { (placed uuid .keys false X Y).keys k with mainPc := .mouse } = _
  rw [hk]
  rfl

lemma reachable_right {X Y : ℤ} (h : (client uuid).Reachable (placed uuid .posEmpty false X Y))
    (hX : X < windowScreenWidth - getCarWidth - 1) :
    (client uuid).Reachable (placed uuid .posEmpty false (X + 2) Y) := by
  refine reachable_keys h (k := ⟨false, false, false, true⟩) ?_
  simp [Client.keys, Client.steer, placed, hX, Client.start]

lemma reachable_down {X Y : ℤ} (h : (client uuid).Reachable (placed uuid .posEmpty false X Y))
    (hY : Y < windowYBoundary - getCarHeight - 1) :
    (client uuid).Reachable (placed uuid .posEmpty false X (Y + 2)) := by
  refine reachable_keys h (k := ⟨false, true, false, false⟩) ?_
  simp [Client.keys, Client.steer, placed, hY, Client.start]

/-- **Where a car can be.**  The places at which the car of a client can ever be, whatever arrives
and whatever the player does, are those at which it is wholly inside the field, on even
coordinates. -/
theorem driven_iff (uuid : UuidV4) (X Y : ℤ) :
    (∃ c, (client uuid).Reachable c ∧ c.X = X ∧ c.Y = Y) ↔ InField X Y := by
  have hwidth : getCarWidth = 50 := rfl
  have hheight : getCarHeight = 50 := rfl
  have hscreen : windowScreenWidth = 1600 := rfl
  have hboundary : windowYBoundary = 570 := by decide
  constructor
  · rintro ⟨c, ⟨l, h⟩, rfl, rfl⟩
    exact h.invariant (I := fun c => InField c.X c.Y) inField_origin fun _ _ _ hc hs =>
      hc.step (clientStep_of_step hs)
  · rintro ⟨hl, hr, ht, hb, ⟨m, rfl⟩, ⟨n, rfl⟩⟩
    -- to the right first, and then down
    have hright : ∀ i : ℕ, (i : ℤ) ≤ m →
        (client uuid).Reachable (placed uuid .posEmpty false (2 * i) 0) := by
      intro i
      induction i with
      | zero => exact fun _ => ⟨[], .nil⟩
      | succ i ih =>
        intro hi
        have hstep := reachable_right (ih (by omega)) (by omega)
        have hnext : (2 * (i : ℤ) + 2) = 2 * ((i + 1 : ℕ) : ℤ) := by push_cast; ring
        rwa [hnext] at hstep
    have hdown : ∀ j : ℕ, (j : ℤ) ≤ n →
        (client uuid).Reachable (placed uuid .posEmpty false (2 * m) (2 * j)) := by
      intro j
      induction j with
      | zero =>
        intro _
        have hm := hright m.toNat (by omega)
        rwa [Int.toNat_of_nonneg (by omega)] at hm
      | succ j ih =>
        intro hj
        have hstep := reachable_down (ih (by omega)) (by omega)
        have hnext : (2 * (j : ℤ) + 2) = 2 * ((j + 1 : ℕ) : ℤ) := by push_cast; ring
        rwa [hnext] at hstep
    have hn := hdown n.toNat (by omega)
    rw [Int.toNat_of_nonneg (by omega)] at hn
    exact ⟨_, hn, two_mul m, two_mul n⟩

end

end MultiplayerCars.CPPClient
