import Mathlib.Logic.Relation
import Mathlib.Data.Set.Basic

/-!
# Knots in a wait-for relation

`R i p` reads "`i` waits for `p`".  A knot is a non-empty set of parties each of which waits
for a member of the set, so that no member can be the first to go on.  A relation that gains
one edge gains a knot exactly when the new edge closes a chain of waits.
-/

namespace Lib

variable {α : Type*}

/-- Some non-empty set of parties is closed under waiting for one of its members. -/
def HasKnot (R : α → α → Prop) : Prop :=
  ∃ S : Set α, S.Nonempty ∧ ∀ i ∈ S, ∃ p ∈ S, R i p

/-- A chain of waits, possibly empty, leads from one party to another. -/
def WaitChain (R : α → α → Prop) : α → α → Prop := Relation.ReflTransGen R

lemma HasKnot.mono {R R' : α → α → Prop} (h : ∀ i p, R i p → R' i p) (hk : HasKnot R) :
    HasKnot R' := by
  obtain ⟨S, hne, hS⟩ := hk
  refine ⟨S, hne, fun i hi => ?_⟩
  obtain ⟨p, hp, hR⟩ := hS i hi
  exact ⟨p, hp, h i p hR⟩

lemma not_hasKnot_of_empty {R : α → α → Prop} (h : ∀ i p, ¬ R i p) : ¬ HasKnot R := by
  rintro ⟨S, ⟨i, hi⟩, hS⟩
  obtain ⟨p, -, hR⟩ := hS i hi
  exact h i p hR

/-- The members of a knot that can be reached from `p`, when `i` cannot, form a knot that
does not use the edges of `i`. -/
lemma knot_avoiding {R R' : α → α → Prop} {i p : α}
    (hR : ∀ x y, x ≠ i → R' x y → R x y) (hch : ¬ WaitChain R p i) {S : Set α}
    (hS : ∀ x ∈ S, ∃ y ∈ S, R' x y) (hp : p ∈ S) : HasKnot R := by
  refine ⟨{x | x ∈ S ∧ WaitChain R p x}, ⟨p, hp, Relation.ReflTransGen.refl⟩, ?_⟩
  rintro x ⟨hxS, hx⟩
  have hxi : x ≠ i := by
    rintro rfl
    exact hch hx
  obtain ⟨y, hyS, hxy⟩ := hS x hxS
  have hRxy : R x y := hR x y hxi hxy
  exact ⟨y, ⟨hyS, hx.tail hRxy⟩, hRxy⟩

/-- A chain of waits from `p` to `i` and an edge from `i` to `p` make a knot. -/
lemma hasKnot_of_chain {R : α → α → Prop} {i p : α} (hch : WaitChain R p i) (hip : R i p) :
    HasKnot R := by
  refine ⟨{x | WaitChain R p x ∧ WaitChain R x i}, ⟨i, hch, Relation.ReflTransGen.refl⟩, ?_⟩
  rintro x ⟨hpx, hxi⟩
  rcases Relation.ReflTransGen.cases_head hxi with rfl | ⟨y, hxy, hyi⟩
  · exact ⟨p, ⟨Relation.ReflTransGen.refl, hch⟩, hip⟩
  · exact ⟨y, ⟨hpx.tail hxy, hyi⟩, hxy⟩

/-- **Adding one edge.**  When `i` waits for nobody in `R`, the relation that adds the wait of
`i` for `p` has a knot exactly when `R` has one or already leads from `p` to `i`. -/
theorem hasKnot_insert_iff {R R' : α → α → Prop} {i p : α} (hi : ∀ q, ¬ R i q)
    (hR' : ∀ x y, R' x y ↔ R x y ∨ (x = i ∧ y = p)) :
    HasKnot R' ↔ HasKnot R ∨ WaitChain R p i := by
  constructor
  · rintro ⟨S, hne, hS⟩
    by_cases hch : WaitChain R p i
    · exact Or.inr hch
    left
    have hout : ∀ x y, x ≠ i → R' x y → R x y := by
      intro x y hx hxy
      rcases (hR' x y).mp hxy with h | ⟨rfl, -⟩
      · exact h
      · exact absurd rfl hx
    -- a knot that needs the new edge goes on from `p`, and cannot come back to `i`
    by_cases hiS : i ∈ S
    · obtain ⟨y, hyS, hiy⟩ := hS i hiS
      rcases (hR' i y).mp hiy with h | ⟨-, rfl⟩
      · exact absurd h (hi y)
      · exact knot_avoiding hout hch hS hyS
    · refine ⟨S, hne, fun x hx => ?_⟩
      obtain ⟨y, hyS, hxy⟩ := hS x hx
      have hxi : x ≠ i := by
        rintro rfl
        exact hiS hx
      exact ⟨y, hyS, hout x y hxi hxy⟩
  · rintro (hk | hch)
    · exact hk.mono fun x y h => (hR' x y).mpr (Or.inl h)
    · have hmono : ∀ x y, R x y → R' x y := fun x y h => (hR' x y).mpr (Or.inl h)
      exact hasKnot_of_chain (Relation.ReflTransGen.mono hmono _ _ hch)
        ((hR' i p).mpr (Or.inr ⟨rfl, rfl⟩))

end Lib
