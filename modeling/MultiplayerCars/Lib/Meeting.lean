import Mathlib.Logic.Basic

/-!
# Meetings

Parties join at any time, and should all come to know each other.  Word of a party travels from
the party to one other, which then knows it.  A party sends word to everybody who has joined
when it joins itself, and again when it comes to know somebody: the first brings it to the
notice of those who were there before, the second brings their answers.  Whoever knows a party
is then known by it, or is about to be, and of any two parties one knows the other, or is about
to.
-/

namespace Lib

/-- Who takes part, who knows whom, and what is on its way. -/
structure Meeting (ι : Type*) where
  joined : ι → Prop
  /-- The party has still to send word of itself to everybody who has joined. -/
  owes : ι → Prop
  /-- Word of the first party is on its way to the second. -/
  toward : ι → ι → Prop
  /-- The first party knows the second. -/
  knows : ι → ι → Prop

namespace Meeting

variable {ι : Type*}

/-- What a step does to a meeting: nobody leaves and nobody is forgotten, a newcomer owes word,
and so does a party that comes to know another; what is owed is sent to everybody who has
joined, and what is sent arrives. -/
structure Step (s t : Meeting ι) : Prop where
  joined : ∀ x, s.joined x → t.joined x
  newcomer : ∀ x, t.joined x → s.joined x ∨ t.owes x
  knows : ∀ x y, s.knows x y → t.knows x y
  learns : ∀ x y, t.knows x y → s.knows x y ∨ (t.joined y ∧ t.owes x)
  owes : ∀ x y, x ≠ y → s.joined y → s.owes x → t.owes x ∨ t.toward x y
  toward : ∀ x y, x ≠ y → s.joined y → s.toward x y → t.toward x y ∨ t.knows y x

/-- The second party knows the first, or word of the first is about to be sent to it or on its
way. -/
def Heard (s : Meeting ι) (x y : ι) : Prop := s.knows y x ∨ s.owes x ∨ s.toward x y

/-- Of two parties one has heard of the other, and whoever knows a party is heard of by it. -/
structure Mutual (s : Meeting ι) : Prop where
  known : ∀ x y, s.knows x y → s.joined y
  either : ∀ x y, x ≠ y → s.joined x → s.joined y → s.Heard x y ∨ s.Heard y x
  answered : ∀ x y, x ≠ y → s.joined x → s.joined y → s.knows x y → s.Heard x y

lemma Step.heard {s t : Meeting ι} (h : Step s t) {x y : ι} (hne : x ≠ y) (hy : s.joined y)
    (hxy : s.Heard x y) : t.Heard x y := by
  rcases hxy with hk | ho | ht
  · exact Or.inl (h.knows y x hk)
  · exact Or.inr (h.owes x y hne hy ho)
  · rcases h.toward x y hne hy ht with ht | hk
    · exact Or.inr (Or.inr ht)
    · exact Or.inl hk

theorem Mutual.step {s t : Meeting ι} (hm : Mutual s) (h : Step s t) : Mutual t where
  known := by
    intro x y hk
    rcases h.learns x y hk with hk | ⟨hy, -⟩
    · exact h.joined y (hm.known x y hk)
    · exact hy
  either := by
    intro x y hne hx hy
    rcases h.newcomer x hx with hx | hx
    · rcases h.newcomer y hy with hy | hy
      · rcases hm.either x y hne hx hy with hxy | hyx
        · exact Or.inl (h.heard hne hy hxy)
        · exact Or.inr (h.heard hne.symm hx hyx)
      · exact Or.inr (Or.inr (Or.inl hy))
    · exact Or.inl (Or.inr (Or.inl hx))
  answered := by
    intro x y hne hx hy hk
    rcases h.learns x y hk with hk | ⟨-, hx⟩
    · rcases h.newcomer x hx with hx | hx
      · have hy' := hm.known x y hk
        exact h.heard hne hy' (hm.answered x y hne hx hy' hk)
      · exact Or.inr (Or.inl hx)
    · exact Or.inr (Or.inl hx)

/-- When nothing is owed and nothing is on its way, all who have joined know each other. -/
theorem Mutual.complete {s : Meeting ι} (hm : Mutual s) (ho : ∀ x, s.joined x → ¬ s.owes x)
    (ht : ∀ x y, s.joined x → s.joined y → ¬ s.toward x y) {x y : ι} (hne : x ≠ y)
    (hx : s.joined x) (hy : s.joined y) : s.knows x y := by
  have hknows : ∀ a b, s.joined a → s.joined b → s.Heard a b → s.knows b a := by
    rintro a b ha hb (hk | hab | hab)
    · exact hk
    · exact absurd hab (ho a ha)
    · exact absurd hab (ht a b ha hb)
  rcases hm.either x y hne hx hy with hxy | hyx
  · exact hknows y x hy hx (hm.answered y x hne.symm hy hx (hknows x y hx hy hxy))
  · exact hknows y x hy hx hyx

end Meeting

end Lib
