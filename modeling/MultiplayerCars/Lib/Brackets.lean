import Mathlib.Data.List.Basic

/-!
# Bracketed traces

Some calls open a block, some close it, and the others belong inside.  A trace of calls is bracketed
when it is a sequence of whole blocks; it is unclosed when one more block has been opened since, and
not been closed.
-/

namespace Lib

/-- The part of a call. -/
inductive Bracket
  | opens
  | closes
  | inside
deriving DecidableEq, Repr

variable {τ : Type*} (kind : τ → Bracket)

/-- A sequence of blocks, each of which is opened, filled and closed. -/
inductive Bracketed : List τ → Prop
  | nil : Bracketed []
  | block {l filling : List τ} {b e : τ} (hl : Bracketed l) (hb : kind b = .opens)
      (hfilling : ∀ x ∈ filling, kind x = .inside) (he : kind e = .closes) :
      Bracketed (l ++ b :: filling ++ [e])

/-- A sequence of blocks, and one that has not been closed. -/
inductive Unclosed : List τ → Prop
  | intro {l filling : List τ} {b : τ} (hl : Bracketed kind l) (hb : kind b = .opens)
      (hfilling : ∀ x ∈ filling, kind x = .inside) : Unclosed (l ++ b :: filling)

variable {kind} {l : List τ}

/-- A bracketed trace ends with the end of a block. -/
lemma Bracketed.closes_of_append_singleton {x : τ} (h : Bracketed kind (l ++ [x])) :
    kind x = .closes := by
  generalize hl : l ++ [x] = l' at h
  cases h with
  | nil => simp at hl
  | block _ _ _ he =>
    obtain ⟨-, hx⟩ := List.append_inj' hl rfl
    rw [List.cons.inj hx |>.1]
    exact he

/-- The beginnings and ends of the blocks of a trace. -/
def brackets (kind : τ → Bracket) (l : List τ) : List Bracket :=
  (l.map kind).filter (· ≠ .inside)

lemma brackets_filling {filling : List τ} (h : ∀ x ∈ filling, kind x = .inside) :
    brackets kind filling = [] := by
  rw [brackets, List.filter_eq_nil_iff]
  intro x hx
  obtain ⟨y, hy, rfl⟩ := List.mem_map.mp hx
  simp [h y hy]

/-- The beginnings and ends of a bracketed trace take turns. -/
theorem Bracketed.alternates (h : Bracketed kind l) :
    ∃ n, brackets kind l = (List.replicate n [.opens, .closes]).flatten := by
  induction h with
  | nil => exact ⟨0, rfl⟩
  | @block l filling b e _ hb hfilling he ih =>
    obtain ⟨n, hn⟩ := ih
    refine ⟨n + 1, ?_⟩
    have hnone := brackets_filling hfilling
    rw [List.replicate_succ', List.flatten_append, ← hn]
    simp only [brackets, List.map_append, List.map_cons, List.filter_append, hb, he] at hnone ⊢
    rw [List.filter_cons_of_pos (by decide), hnone, List.append_assoc]
    rfl

/-- In an unclosed trace one more beginning follows. -/
theorem Unclosed.alternates (h : Unclosed kind l) :
    ∃ n, brackets kind l = (List.replicate n [.opens, .closes]).flatten ++ [.opens] := by
  obtain @⟨l, filling, b, hl, hb, hfilling⟩ := h
  obtain ⟨n, hn⟩ := hl.alternates
  refine ⟨n, ?_⟩
  have hnone := brackets_filling hfilling
  rw [← hn]
  simp only [brackets, List.map_append, List.map_cons, List.filter_append, hb] at hnone ⊢
  rw [List.filter_cons_of_pos (by decide), hnone]

end Lib
