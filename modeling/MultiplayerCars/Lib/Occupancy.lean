import Mathlib.Data.Option.Basic

/-!
# Accesses to shared objects

An access to a shared object takes time.  In each state some parties are inside an access to an
object, and some of these are inside one that mutates it; nobody may use an object while another
party mutates it.  Where a step begins at most one access, it keeps this rule exactly if the
access that it begins meets no other one of which either mutates the object.
-/

namespace Lib

inductive Use
  | read
  | write
deriving DecidableEq, Repr

/-- Which parties are inside an access to which object, and which of them mutate it. -/
structure Occupancy (κ τ : Type*) where
  uses : κ → τ → Prop
  mutates : κ → τ → Prop
  uses_of_mutates {k : κ} {t : τ} : mutates k t → uses k t

namespace Occupancy

variable {κ τ : Type*} {o o' : Occupancy κ τ} {b : Option (τ × κ × Use)}

/-- No party is inside an access to an object that another party is mutating. -/
def Undisturbed (o : Occupancy κ τ) : Prop :=
  ∀ k t t', t ≠ t' → o.mutates k t → ¬ o.uses k t'

/-- What a step that begins the access `b`, or none, does to one party. -/
inductive Change (o o' : Occupancy κ τ) (b : Option (τ × κ × Use)) (t : τ) : Prop
  | same (hb : ∀ k u, b ≠ some (t, k, u)) (hu : ∀ k, o'.uses k t ↔ o.uses k t)
      (hm : ∀ k, o'.mutates k t ↔ o.mutates k t)
  | leaves (hb : b = none) (hu : ∀ k, o'.uses k t → o.uses k t)
      (hm : ∀ k, o'.mutates k t → o.mutates k t)
  | begins {k : κ} {u : Use} (hb : b = some (t, k, u))
      (hu : ∀ k', o'.uses k' t ↔ o.uses k' t ∨ k' = k)
      (hm : ∀ k', o'.mutates k' t ↔ o.mutates k' t ∨ (k' = k ∧ u = .write))

/-- The access that a step begins meets no mutation, and no other access if it mutates. -/
def Free (o : Occupancy κ τ) (b : Option (τ × κ × Use)) : Prop :=
  ∀ t k u, b = some (t, k, u) → ∀ t', t' ≠ t → ¬ o.mutates k t' ∧ (u = .write → ¬ o.uses k t')

lemma Change.uses_cases {t : τ} (h : Change o o' b t) {k : κ} (hu : o'.uses k t) :
    o.uses k t ∨ ∃ u, b = some (t, k, u) := by
  cases h with
  | same _ hu' _ => exact Or.inl ((hu' k).mp hu)
  | leaves _ hu' _ => exact Or.inl (hu' k hu)
  | begins hb hu' _ =>
    rcases (hu' k).mp hu with h | rfl
    · exact Or.inl h
    · exact Or.inr ⟨_, hb⟩

lemma Change.mutates_cases {t : τ} (h : Change o o' b t) {k : κ} (hm : o'.mutates k t) :
    o.mutates k t ∨ b = some (t, k, .write) := by
  cases h with
  | same _ _ hm' => exact Or.inl ((hm' k).mp hm)
  | leaves _ _ hm' => exact Or.inl (hm' k hm)
  | begins hb _ hm' =>
    rcases (hm' k).mp hm with h | ⟨rfl, rfl⟩
    · exact Or.inl h
    · exact Or.inr hb

/-- A party that another one's beginning leaves alone is where it was. -/
lemma Change.other {t t' : τ} (h : Change o o' b t') {k : κ} {u : Use} (hb : b = some (t, k, u))
    (hne : t' ≠ t) (k' : κ) :
    (o'.uses k' t' ↔ o.uses k' t') ∧ (o'.mutates k' t' ↔ o.mutates k' t') := by
  cases h with
  | same _ hu hm => exact ⟨hu k', hm k'⟩
  | leaves hb' _ _ => rw [hb'] at hb; cases hb
  | begins hb' _ _ =>
    rw [hb', Option.some.injEq, Prod.mk.injEq] at hb
    exact absurd hb.1 hne

lemma Change.self {t : τ} (h : Change o o' b t) {k : κ} {u : Use} (hb : b = some (t, k, u)) :
    o'.uses k t ∧ (u = .write → o'.mutates k t) := by
  cases h with
  | same hb' _ _ => exact absurd hb (hb' k u)
  | leaves hb' _ _ => rw [hb'] at hb; cases hb
  | begins hb' hu hm =>
    rw [hb', Option.some.injEq, Prod.mk.injEq, Prod.mk.injEq] at hb
    obtain ⟨-, rfl, rfl⟩ := hb
    exact ⟨(hu _).mpr (Or.inr rfl), fun hw => (hm _).mpr (Or.inr ⟨rfl, hw⟩)⟩

/-- A step keeps the rule exactly if the access that it begins is free. -/
theorem undisturbed_iff_free (h : ∀ t, Change o o' b t) (ho : o.Undisturbed) :
    o'.Undisturbed ↔ o.Free b := by
  constructor
  · intro ho' t k u hb t' hne
    have hother := (h t').other hb hne k
    have hself := (h t).self hb
    constructor
    · intro hm
      exact ho' k t' t hne (hother.2.mpr hm) hself.1
    · intro hw hu
      exact ho' k t t' hne.symm (hself.2 hw) (hother.1.mpr hu)
  · intro hfree k t t' hne hm hu
    rcases (h t).mutates_cases hm with hm₀ | hb
    · rcases (h t').uses_cases hu with hu₀ | ⟨u, hb⟩
      · exact ho k t t' hne hm₀ hu₀
      · exact (hfree t' k u hb t hne).1 hm₀
    · rcases (h t').uses_cases hu with hu₀ | ⟨u, hb'⟩
      · exact (hfree t k .write hb t' hne.symm).2 rfl hu₀
      · rw [hb, Option.some.injEq, Prod.mk.injEq] at hb'
        exact hne hb'.1

end Occupancy

end Lib
