import Mathlib.Data.Nat.Notation
import MultiplayerCars.Lib.Machine

/-!
# Machines that come to an end

A region of the states that no step enters from outside, and a measure that every step within it
lowers.  Then a run that ends in the region has no more steps than the measure allowed for at its
beginning; and if from each state of the region that is not final some step leads on inside it, a
final state can be reached from all of them.
-/

namespace Lib.Machine

section Region

variable {σ α : Type*} {M : Machine σ α} {I R : σ → Prop} {μ : σ → ℕ}

/-- Where every step that ends in the region comes from it and lowers the measure, the measure
bounds the length of a run that ends there. -/
theorem length_run_le (hI : ∀ s a s', I s → M.step s a = some s' → I s')
    (hdown : ∀ s a s', I s → M.step s a = some s' → R s' → R s ∧ μ s' < μ s)
    {as : List α} {s : σ} {r : List (σ × α) × σ} (hr : M.run s as = some r) (hs : I s)
    (hend : R r.2) : R s ∧ as.length + μ r.2 ≤ μ s := by
  induction as generalizing s r with
  | nil =>
    obtain rfl : ([], s) = r := Option.some.inj hr
    exact ⟨hend, by simp⟩
  | cons a as ih =>
    simp only [run, Option.bind_eq_some_iff, Option.map_eq_some_iff] at hr
    obtain ⟨s', hs', r', hr', rfl⟩ := hr
    obtain ⟨hmid, hrest⟩ := ih hr' (hI s a s' hs hs') hend
    obtain ⟨hfirst, hlt⟩ := hdown s a s' hs hs' hmid
    refine ⟨hfirst, ?_⟩
    rw [List.length_cons]
    dsimp only at hrest ⊢
    omega

/-- Where a step leads on inside the region from each of its states that is not final, a final
state can be reached. -/
theorem leads_of_progress {F : σ → Prop} (hI : ∀ s a s', I s → M.step s a = some s' → I s')
    (hdown : ∀ s a s', I s → M.step s a = some s' → R s' → R s ∧ μ s' < μ s)
    (hgo : ∀ s, I s → R s → ¬ F s → ∃ a s', M.step s a = some s' ∧ R s') {s : σ} (hs : I s)
    (hin : R s) : ∃ s', M.Leads s s' ∧ F s' := by
  induction hn : μ s using Nat.strongRecOn generalizing s with
  | ind n ih =>
    by_cases hF : F s
    · exact ⟨s, Relation.ReflTransGen.refl, hF⟩
    · obtain ⟨a, s', hs', hin'⟩ := hgo s hs hin hF
      have hlt := (hdown s a s' hs hs' hin').2
      obtain ⟨t, hleads, ht⟩ := ih (μ s') (hn ▸ hlt) (hI s a s' hs hs') hin' rfl
      exact ⟨t, hleads.head ⟨a, hs'⟩, ht⟩

end Region

end Lib.Machine
