import Mathlib.Algebra.BigOperators.Group.Finset.Basic
import Mathlib.Algebra.BigOperators.Group.Finset.Piecewise
import Mathlib.Data.Fintype.Basic
import MultiplayerCars.Lib.Machine

/-!
# Threads that call a shared object

The threads of a machine begin calls of an object, and return from them; in between, each call takes
effect in one step.  Then the effects, in their order, are what the threads have called, and the
object has been used as if nobody else used it.  A lock keeps the threads apart while they are
inside, and what the threads have still to do is the sum of what each of them has to do.
-/

namespace Lib

/-! ### The lock -/

section Lock

variable {ι τ : Type*} (inside : τ → Prop)

/-- The holder of the lock is inside, and nobody else is. -/
def MutualExclusion (holder : Option ι) (pc : ι → τ) : Prop := ∀ i, inside (pc i) ↔ holder = some i

variable {inside} {holder : Option ι} {pc : ι → τ} {i : ι} {p : τ}

lemma MutualExclusion.unique (h : MutualExclusion inside holder pc) {j : ι} (hi : inside (pc i))
    (hj : inside (pc j)) : i = j :=
  Option.some.inj (((h i).mp hi).symm.trans ((h j).mp hj))

variable [DecidableEq ι]

lemma MutualExclusion.enter (h : MutualExclusion inside none pc) (hp : inside p) :
    MutualExclusion inside (some i) (Function.update pc i p) := by
  intro j
  by_cases hj : j = i
  · subst hj
    simpa using hp
  · rw [Function.update_of_ne hj, h j]
    simpa using Ne.symm hj

lemma MutualExclusion.leave (h : MutualExclusion inside holder pc) (hi : inside (pc i))
    (hp : ¬ inside p) : MutualExclusion inside none (Function.update pc i p) := by
  intro j
  by_cases hj : j = i
  · subst hj
    simpa using hp
  · rw [Function.update_of_ne hj]
    simpa using fun hin => hj (h.unique hin hi)

lemma MutualExclusion.move (h : MutualExclusion inside holder pc) (hp : inside p ↔ inside (pc i)) :
    MutualExclusion inside holder (Function.update pc i p) := by
  intro j
  by_cases hj : j = i
  · subst hj
    rw [Function.update_self, hp, h j]
  · rw [Function.update_of_ne hj, h j]

end Lock

/-! ### What is left to do -/

section Effort

variable {ι τ : Type*} [Fintype ι] [DecidableEq ι] (effort : τ → ℕ)

/-- What all the threads have still to do. -/
def totalEffort (pc : ι → τ) : ℕ := ∑ i, effort (pc i)

lemma totalEffort_update (pc : ι → τ) (i : ι) (p : τ) :
    totalEffort effort (Function.update pc i p) + effort (pc i)
      = totalEffort effort pc + effort p := by
  have hrest : ∑ j ∈ Finset.univ.erase i, effort (Function.update pc i p j)
      = ∑ j ∈ Finset.univ.erase i, effort (pc j) := by
    refine Finset.sum_congr rfl fun j hj => ?_
    rw [Function.update_of_ne (Finset.ne_of_mem_erase hj)]
  rw [totalEffort, totalEffort, ← Finset.add_sum_erase _ _ (Finset.mem_univ i), hrest,
    Function.update_self, ← Finset.add_sum_erase _ _ (Finset.mem_univ i)]
  omega

/-- Where each step that counts lowers a measure, and a step that costs raises it by at most `n`,
the measure bounds how many steps of a run count. -/
theorem countP_run_le {σ A : Type*} {M : Machine σ A} {φ : σ → ℕ} {p q : A → Bool} {n : ℕ}
    {ok : A → Prop}
    (hstep : ∀ s a s', ok a → M.step s a = some s' →
      (if p a then 1 else 0) + φ s' ≤ φ s + (if q a then n else 0))
    {as : List A} {s : σ} {r : List (σ × A) × σ} (h : M.run s as = some r)
    (hok : ∀ a ∈ as, ok a) : as.countP p + φ r.2 ≤ φ s + n * as.countP q := by
  induction as generalizing s r with
  | nil =>
    obtain rfl : ([], s) = r := Option.some.inj h
    simp
  | cons a as ih =>
    simp only [Machine.run, Option.bind_eq_some_iff, Option.map_eq_some_iff] at h
    obtain ⟨s', hs', r', hr', rfl⟩ := h
    have hfirst := hstep s a s' (hok a (by simp)) hs'
    have hrest := ih hr' fun b hb => hok b (by simp [hb])
    rw [List.countP_cons, List.countP_cons, Nat.mul_add]
    split_ifs at hfirst ⊢ <;> dsimp only at hrest ⊢ <;> omega

end Effort

/-! ### Points at which calls take effect -/

/-- Where a thread is: in no call, in one that has yet to take effect, or in one that has. -/
inductive CallStage (γ ε : Type*)
  | idle
  | pending (c : γ)
  | done (e : ε)
deriving DecidableEq, Repr

/-- What a step is to the thread that takes it. -/
inductive CallMark (γ ε : Type*)
  | silent
  | begins (c : γ)
  | effect (e : ε)
  | returns (e : ε)
deriving DecidableEq, Repr

section Linearization

variable {ι γ ε σ A : Type*} (call : ε → γ)

/-- How the stage of a thread changes in a step of its own: an effect is one of the call that the
thread is in. -/
inductive CallStage.Goes : CallStage γ ε → CallMark γ ε → CallStage γ ε → Prop
  | silent (s : CallStage γ ε) : Goes s .silent s
  | begins (c : γ) : Goes .idle (.begins c) (.pending c)
  | effect (e : ε) : Goes (.pending (call e)) (.effect e) (.done e)
  | returns (e : ε) : Goes (.done e) (.returns e) .idle

/-- The call that has begun and has yet to take effect. -/
def CallStage.waiting : CallStage γ ε → List γ
  | .pending c => [c]
  | _ => []

/-- The effect whose call has yet to return. -/
def CallStage.unreturned : CallStage γ ε → List ε
  | .done e => [e]
  | _ => []

def CallMark.begun : CallMark γ ε → Option γ
  | .begins c => some c
  | _ => none

def CallMark.effected : CallMark γ ε → Option ε
  | .effect e => some e
  | _ => none

def CallMark.returned : CallMark γ ε → Option ε
  | .returns e => some e
  | _ => none

variable (mark : σ → A → ι × CallMark γ ε)

/-- The effects of a run, in their order. -/
def effects (l : List (σ × A)) : List ε := l.filterMap fun x => (mark x.1 x.2).2.effected

lemma effects_snoc (l : List (σ × A)) (s : σ) (a : A) :
    effects mark (l ++ [(s, a)]) = effects mark l ++ (mark s a).2.effected.toList := by
  rw [effects, List.filterMap_append, ← effects]
  cases h : (mark s a).2.effected <;> simp [h]

variable [DecidableEq ι]

/-- What a thread gets out of the steps of a run that it takes itself. -/
def ofThread {β : Type*} (f : CallMark γ ε → Option β) (i : ι) (l : List (σ × A)) : List β :=
  l.filterMap fun x => if (mark x.1 x.2).1 = i then f (mark x.1 x.2).2 else none

/-- Every call of the thread takes effect once, between its beginning and its return, and returns
what it took effect with. -/
structure Linearized (stage : CallStage γ ε) (l : List (σ × A)) (i : ι) : Prop where
  begun : (ofThread mark CallMark.effected i l).map call ++ stage.waiting
    = ofThread mark CallMark.begun i l
  returned : ofThread mark CallMark.returned i l ++ stage.unreturned
    = ofThread mark CallMark.effected i l

variable {call mark}

lemma ofThread_snoc {β : Type*} (f : CallMark γ ε → Option β) (i : ι) (l : List (σ × A)) (s : σ)
    (a : A) : ofThread mark f i (l ++ [(s, a)]) = ofThread mark f i l
      ++ (if (mark s a).1 = i then f (mark s a).2 else none).toList := by
  rw [ofThread, List.filterMap_append, ← ofThread]
  cases h : (if (mark s a).1 = i then f (mark s a).2 else none) <;> simp [h]

variable {M : Machine σ A} (stage : σ → ι → CallStage γ ε)

/-- **Linearization points.**  When each step is what its mark says to the thread that takes it, and
nothing to the others, every call of every thread takes effect once while it lasts. -/
theorem linearized_of_exec (h₀ : ∀ i, stage M.init i = .idle)
    (hown : ∀ s a s', M.step s a = some s' →
      CallStage.Goes call (stage s (mark s a).1) (mark s a).2 (stage s' (mark s a).1))
    (hother : ∀ s a s', M.step s a = some s' → ∀ i, i ≠ (mark s a).1 → stage s' i = stage s i)
    {l : List (σ × A)} {s : σ} (h : M.Exec l s) (i : ι) :
    Linearized call mark (stage s i) l i := by
  induction h with
  | nil =>
    rw [h₀ i]
    exact ⟨rfl, rfl⟩
  | @snoc l s s' a hl hs ih =>
    obtain ⟨hbegun, hreturned⟩ := ih
    by_cases hi : (mark s a).1 = i
    · -- the thread takes the step: its mark says what is added to the three lists
      have hgoes := hown s a s' hs
      rw [hi] at hgoes
      generalize hm : (mark s a).2 = m at hgoes
      generalize stage s i = g, stage s' i = g' at hgoes hbegun hreturned ⊢
      constructor
      · rw [ofThread_snoc, ofThread_snoc, if_pos hi, if_pos hi, hm, ← hbegun]
        cases hgoes <;> simp [CallMark.effected, CallMark.begun, CallStage.waiting]
      · rw [ofThread_snoc, ofThread_snoc, if_pos hi, if_pos hi, hm, ← hreturned]
        cases hgoes <;> simp [CallMark.effected, CallMark.returned, CallStage.unreturned]
    · rw [hother s a s' hs i (Ne.symm hi)]
      constructor
      · rw [ofThread_snoc, ofThread_snoc, if_neg hi, if_neg hi, Option.toList_none,
          List.append_nil, Option.toList_none, List.append_nil, hbegun]
      · rw [ofThread_snoc, ofThread_snoc, if_neg hi, if_neg hi, Option.toList_none,
          List.append_nil, List.append_nil, hreturned]

end Linearization

end Lib
