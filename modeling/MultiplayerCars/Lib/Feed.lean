import Mathlib.Data.List.Basic

/-!
# The latest value of a key, by way of a queue

Messages give values to keys.  They arrive in order and wait in a queue; from its front they are
taken, or dropped.  A key shows the value of the last message about it that was taken.  When the
queue is empty it shows the latest value that has arrived for it, unless the message with that
value was dropped while the key showed another one.
-/

namespace Lib

/-- The messages that have arrived, those that still wait, and what the keys show. -/
structure Feed (κ μ ν : Type*) where
  /-- All messages so far, oldest first. -/
  arrived : List μ
  /-- Those that have been neither taken nor dropped. -/
  waiting : List μ
  shown : κ → Option ν

namespace Feed

variable {κ μ ν : Type*} (value : κ → μ → Option ν)

/-- The value that the last of some messages to give one to the key gives it. -/
def latest (k : κ) (l : List μ) : Option ν := (l.filterMap (value k)).getLast?

inductive Event (μ : Type*)
  | arrive (m : μ)
  | take
  | drop

inductive Step : Event μ → Feed κ μ ν → Feed κ μ ν → Prop
  | arrive {s t : Feed κ μ ν} (m : μ) (ha : t.arrived = s.arrived ++ [m])
      (hw : t.waiting = s.waiting ++ [m]) (hs : t.shown = s.shown) : Step (.arrive m) s t
  | take {s t : Feed κ μ ν} (m : μ) (ha : t.arrived = s.arrived) (hw : s.waiting = m :: t.waiting)
      (hs : ∀ k, t.shown k = (value k m).or (s.shown k)) : Step .take s t
  | drop {s t : Feed κ μ ν} (m : μ) (ha : t.arrived = s.arrived) (hw : s.waiting = m :: t.waiting)
      (hs : t.shown = s.shown) : Step .drop s t

/-- The key will show its latest value if everything that waits is taken. -/
def Current (s : Feed κ μ ν) (k : κ) : Prop :=
  latest value k s.arrived = (latest value k s.waiting).or (s.shown k)

/-- The message at the front is the only one that waits with a value for the key, and the key shows
another one. -/
def Precious (s : Feed κ μ ν) (k : κ) : Prop :=
  ∃ m rest v, s.waiting = m :: rest ∧ value k m = some v ∧ latest value k rest = none ∧
    s.shown k ≠ some v

/-- What waits is what has arrived last, and what is shown has arrived. -/
structure Grounded (s : Feed κ μ ν) : Prop where
  waiting : s.waiting <:+ s.arrived
  shown : ∀ k v, s.shown k = some v → ∃ m ∈ s.arrived, value k m = some v

variable {value}

/-! ### The latest value -/

@[simp] lemma latest_nil (k : κ) : latest value k [] = none := rfl

lemma latest_append (k : κ) (l l' : List μ) :
    latest value k (l ++ l') = (latest value k l').or (latest value k l) := by
  rw [latest, List.filterMap_append, List.getLast?_append]
  rfl

lemma latest_singleton (k : κ) (m : μ) : latest value k [m] = value k m := by
  cases h : value k m <;> simp [latest, h]

lemma latest_cons (k : κ) (m : μ) (l : List μ) :
    latest value k (m :: l) = (latest value k l).or (value k m) := by
  rw [← List.singleton_append, latest_append, latest_singleton]

lemma latest_eq_none {k : κ} {l : List μ} :
    latest value k l = none ↔ ∀ m ∈ l, value k m = none := by
  rw [latest, List.getLast?_eq_none_iff, List.filterMap_eq_nil_iff]

/-- The latest value is that of one of the messages. -/
lemma exists_of_latest {k : κ} {l : List μ} {v : ν} (h : latest value k l = some v) :
    ∃ m ∈ l, value k m = some v := by
  have hmem := List.mem_of_getLast? h
  exact List.mem_filterMap.mp hmem

/-- Messages without a value for the key can be left out. -/
lemma latest_filter {p : μ → Bool} {k : κ} (hp : ∀ m v, value k m = some v → p m) (l : List μ) :
    latest value k (l.filter p) = latest value k l := by
  induction l with
  | nil => rfl
  | cons m l ih =>
    cases h : p m with
    | true => rw [List.filter_cons_of_pos h, latest_cons, latest_cons, ih]
    | false =>
      have hno : value k m = none := by
        by_contra hv
        obtain ⟨v, hv⟩ := Option.ne_none_iff_exists'.mp hv
        simp [hp m v hv] at h
      rw [List.filter_cons_of_neg (by simp [h]), latest_cons, ih, hno, Option.or_none]

/-! ### Steps -/

section Step

variable {s t : Feed κ μ ν} {e : Event μ}

/-- What waits came last, so it has the latest value of every key that it gives one. -/
lemma Grounded.latest_waiting (hg : Grounded value s) {k : κ} {v : ν}
    (h : latest value k s.waiting = some v) : latest value k s.arrived = some v := by
  obtain ⟨before, hbefore⟩ := hg.waiting
  rw [← hbefore, latest_append, h, Option.some_or]

lemma Grounded.shown_eq_none (hg : Grounded value s) {k : κ}
    (h : latest value k s.arrived = none) : s.shown k = none := by
  cases hs : s.shown k with
  | none => rfl
  | some v =>
    obtain ⟨m, hm, hv⟩ := hg.shown k v hs
    rw [latest_eq_none.mp h m hm] at hv
    cases hv

lemma Grounded.step (hg : Grounded value s) (h : Step value e s t) : Grounded value t := by
  obtain ⟨before, hbefore⟩ := hg.waiting
  cases h with
  | arrive m ha hw hs =>
    constructor
    · exact ⟨before, by rw [ha, hw, ← hbefore, List.append_assoc]⟩
    · intro k v hv
      rw [hs] at hv
      obtain ⟨m', hm', hv'⟩ := hg.shown k v hv
      exact ⟨m', by simp [ha, hm'], hv'⟩
  | take m ha hw hs =>
    constructor
    · exact ⟨before ++ [m], by rw [ha, ← hbefore, hw, List.append_assoc, List.singleton_append]⟩
    · intro k v hv
      rw [hs] at hv
      rw [ha]
      cases hm : value k m with
      | none =>
        rw [hm, Option.none_or] at hv
        exact hg.shown k v hv
      | some v' =>
        rw [hm, Option.some_or] at hv
        exact ⟨m, by simp [← hbefore, hw], hm.trans hv⟩
  | drop m ha hw hs =>
    constructor
    · exact ⟨before ++ [m], by rw [ha, ← hbefore, hw, List.append_assoc, List.singleton_append]⟩
    · intro k v hv
      rw [hs] at hv
      rw [ha]
      exact hg.shown k v hv

/-- Whether a key is current, after a step: a message about it makes it so, and dropping a precious
one makes it not so. -/
theorem Step.current_iff (h : Step value e s t) (hg : Grounded value s) (k : κ) :
    Current value t k ↔ ¬ (e = .drop ∧ Precious value s k) ∧
      (Current value s k ∨ ∃ m, e = .arrive m ∧ (value k m).isSome) := by
  cases h with
  | arrive m ha hw hs =>
    rw [Current, ha, hw, hs, latest_append, latest_append, latest_singleton]
    cases hm : value k m with
    | some v => simp [hm]
    | none => simp [Current, hm]
  | take m ha hw hs =>
    rw [Current, Current, ha, hw, hs, latest_cons, Option.or_assoc]
    simp
  | drop m ha hw hs =>
    have hnext : Current value t k ↔
        latest value k s.arrived = (latest value k t.waiting).or (s.shown k) := by
      rw [Current, ha, hs]
    have hcur : Current value s k ↔ latest value k s.arrived
        = ((latest value k t.waiting).or (value k m)).or (s.shown k) := by
      rw [Current, hw, latest_cons]
    have hprec : Precious value s k ↔ ∃ v, value k m = some v ∧
        latest value k t.waiting = none ∧ s.shown k ≠ some v := by
      rw [Precious, hw]
      constructor
      · rintro ⟨m', rest, v, he, hv⟩
        obtain ⟨rfl, rfl⟩ := List.cons.inj he
        exact ⟨v, hv⟩
      · rintro ⟨v, hv⟩
        exact ⟨m, _, v, rfl, hv⟩
    rw [hnext, hcur, hprec]
    -- the message matters only if it has a value for the key and no later one has
    cases hm : value k m with
    | none => simp
    | some v =>
      cases hl : latest value k t.waiting with
      | some w => simp
      | none =>
        have hlast : latest value k s.arrived = some v := by
          refine hg.latest_waiting ?_
          rw [hw, latest_cons, hl, hm, Option.none_or]
        simpa [hlast] using eq_comm

/-- When nothing waits, a key is current exactly if it shows the latest value that has arrived. -/
lemma Grounded.current_iff (hg : Grounded value s) (hw : s.waiting = []) (k : κ) :
    Current value s k ↔ ∀ v, latest value k s.arrived = some v → s.shown k = some v := by
  rw [Current, hw, latest_nil, Option.none_or]
  cases hl : latest value k s.arrived with
  | none => simp [hg.shown_eq_none hl]
  | some v => simp [eq_comm]

end Step

end Feed

end Lib
