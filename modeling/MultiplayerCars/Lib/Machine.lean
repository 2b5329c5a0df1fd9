import Mathlib.Data.Nat.Notation
import Mathlib.Logic.Relation

/-!
# Machines, their executions, and conditions on the steps

A machine is an initial state and a partial step function whose second argument resolves all
the nondeterminism: which party moves, and what the environment answers.  An execution keeps
the states it has passed through and the actions taken in them, so that one can say of a run
that some property held in every state it visited, and that every step it took met some
condition on the state before it.
-/

namespace Lib

/-- An initial state and a partial step function. -/
structure Machine (σ α : Type*) where
  /-- The state in which every execution starts. -/
  init : σ
  /-- The state after an action, when the action is possible. -/
  step : σ → α → Option σ

namespace Machine

variable {σ α : Type*} (M : Machine σ α)

/-- `M.Exec l s`: the machine can reach `s`, and `l` lists the steps that lead there, each as
the state it started from together with its action. -/
inductive Exec : List (σ × α) → σ → Prop
  | nil : Exec [] M.init
  | snoc {l : List (σ × α)} {s s' : σ} {a : α} :
      Exec l s → M.step s a = some s' → Exec (l ++ [(s, a)]) s'

/-- The states in which some execution ends. -/
def Reachable (s : σ) : Prop := ∃ l, M.Exec l s

/-- Every state that an execution visits, its last one included, satisfies `P`. -/
def Always (P : σ → Prop) (l : List (σ × α)) (s : σ) : Prop := (∀ x ∈ l, P x.1) ∧ P s

/-- Some state that an execution visits, its last one included, satisfies `P`. -/
def Once (P : σ → Prop) (l : List (σ × α)) (s : σ) : Prop := P s ∨ ∃ x ∈ l, P x.1

/-- Every step of an execution meets a condition on the state before it and its action. -/
def Meets (ok : σ → α → Prop) (l : List (σ × α)) : Prop := ∀ x ∈ l, ok x.1 x.2

/-- A property holds of every step of an execution, given the steps before it. -/
def Along (P : List (σ × α) → σ → α → Prop) (l : List (σ × α)) : Prop :=
  ∀ l₁ s a l₂, l = l₁ ++ (s, a) :: l₂ → P l₁ s a

/-- Some step was `bad`, and none after it was `good`. -/
def Since (bad good : σ → α → Prop) (l : List (σ × α)) : Prop :=
  ∃ l₁ s a l₂, l = l₁ ++ (s, a) :: l₂ ∧ bad s a ∧ ∀ x ∈ l₂, ¬ good x.1 x.2

/-- `M.Leads s s'`: some sequence of steps leads from `s` to `s'`. -/
def Leads : σ → σ → Prop := Relation.ReflTransGen fun s s' => ∃ a, M.step s a = some s'

/-- The state after a list of actions, and the history of the run that takes them. -/
def run (s : σ) : List α → Option (List (σ × α) × σ)
  | [] => some ([], s)
  | a :: as => (M.step s a).bind fun s' => (run s' as).map fun r => ((s, a) :: r.1, r.2)

variable {M}

lemma meets_snoc {ok : σ → α → Prop} {l : List (σ × α)} {s : σ} {a : α} :
    Meets ok (l ++ [(s, a)]) ↔ Meets ok l ∧ ok s a := by
  simp only [Meets, List.mem_append, List.mem_singleton]
  constructor
  · intro h
    exact ⟨fun x hx => h x (Or.inl hx), h (s, a) (Or.inr rfl)⟩
  · rintro ⟨h, ha⟩ x (hx | rfl)
    · exact h x hx
    · exact ha

lemma always_snoc {P : σ → Prop} {l : List (σ × α)} {s s' : σ} {a : α} :
    Always P (l ++ [(s, a)]) s' ↔ Always P l s ∧ P s' := by
  constructor
  · rintro ⟨h, hs'⟩
    exact ⟨⟨fun x hx => h x (by simp [hx]), h (s, a) (by simp)⟩, hs'⟩
  · rintro ⟨⟨h, hs⟩, hs'⟩
    refine ⟨fun x hx => ?_, hs'⟩
    rcases List.mem_append.mp hx with hx | hx
    · exact h x hx
    · rw [List.mem_singleton.mp hx]
      exact hs

/-- What has been the case once, has been so ever after. -/
lemma Once.snoc {P : σ → Prop} {l : List (σ × α)} {s s' : σ} {a : α} (h : Once P l s) :
    Once P (l ++ [(s, a)]) s' := by
  right
  rcases h with h | ⟨x, hx, h⟩
  · exact ⟨(s, a), by simp, h⟩
  · exact ⟨x, List.mem_append_left _ hx, h⟩

/-- A step of an execution is the last one, or one of those before it. -/
lemma snoc_eq_append_cons {l l₁ l₂ : List (σ × α)} {x y : σ × α} (h : l ++ [x] = l₁ ++ y :: l₂) :
    (l = l₁ ∧ x = y ∧ l₂ = []) ∨ ∃ l₃, l₂ = l₃ ++ [x] ∧ l = l₁ ++ y :: l₃ := by
  rcases List.eq_nil_or_concat l₂ with rfl | ⟨l₃, z, rfl⟩
  · obtain ⟨rfl, hx⟩ := List.append_inj' h rfl
    exact Or.inl ⟨rfl, List.cons.inj hx |>.1, rfl⟩
  · rw [List.concat_eq_append, ← List.cons_append, ← List.append_assoc] at h
    obtain ⟨hl, hx⟩ := List.append_inj' h rfl
    obtain rfl : x = z := List.cons.inj hx |>.1
    exact Or.inr ⟨l₃, List.concat_eq_append, hl⟩

lemma along_snoc {P : List (σ × α) → σ → α → Prop} {l : List (σ × α)} {s : σ} {a : α} :
    Along P (l ++ [(s, a)]) ↔ Along P l ∧ P l s a := by
  constructor
  · intro h
    refine ⟨fun l₁ s' a' l₂ he => h l₁ s' a' (l₂ ++ [(s, a)]) ?_, h l s a [] rfl⟩
    rw [he, List.append_assoc, List.cons_append]
  · rintro ⟨h, hs⟩ l₁ s' a' l₂ he
    rcases snoc_eq_append_cons he with ⟨rfl, hx, -⟩ | ⟨l₃, -, hl⟩
    · obtain ⟨rfl, rfl⟩ := Prod.mk.inj hx
      exact hs
    · exact h l₁ s' a' l₃ hl

/-- The steps of which a property holds whatever came before may be added to an execution. -/
lemma Along.append {P : List (σ × α) → σ → α → Prop} {l l' : List (σ × α)} (h : Along P l)
    (h' : ∀ x ∈ l', ∀ l₁, P l₁ x.1 x.2) : Along P (l ++ l') := by
  induction l' generalizing l with
  | nil => rwa [List.append_nil]
  | cons x l' ih =>
    rw [List.append_cons]
    refine ih (along_snoc.mpr ⟨h, h' x (by simp) l⟩) fun y hy => h' y (by simp [hy])

lemma Along.getLast {P : List (σ × α) → σ → α → Prop} {l : List (σ × α)} (h : Along P l)
    (hne : l ≠ []) : P l.dropLast (l.getLast hne).1 (l.getLast hne).2 :=
  h _ _ _ [] (List.dropLast_concat_getLast hne).symm

lemma since_snoc {bad good : σ → α → Prop} {l : List (σ × α)} {s : σ} {a : α} :
    Since bad good (l ++ [(s, a)]) ↔ bad s a ∨ (Since bad good l ∧ ¬ good s a) := by
  constructor
  · rintro ⟨l₁, s', a', l₂, he, hbad, hgood⟩
    rcases snoc_eq_append_cons he with ⟨-, hx, -⟩ | ⟨l₃, rfl, hl⟩
    · obtain ⟨rfl, rfl⟩ := Prod.mk.inj hx
      exact Or.inl hbad
    · refine Or.inr ⟨⟨l₁, s', a', l₃, hl, hbad, fun x hx => hgood x (by simp [hx])⟩, ?_⟩
      exact hgood (s, a) (by simp)
  · rintro (hbad | ⟨⟨l₁, s', a', l₂, rfl, hbad, hgood⟩, hno⟩)
    · exact ⟨l, s, a, [], rfl, hbad, by simp⟩
    · refine ⟨l₁, s', a', l₂ ++ [(s, a)], by simp, hbad, ?_⟩
      intro x hx
      rcases List.mem_append.mp hx with hx | hx
      · exact hgood x hx
      · rw [List.mem_singleton.mp hx]
        exact hno

/-! ### Rules for executions -/

/-- An inductive invariant holds at the end of every execution. -/
theorem Exec.invariant {I : σ → Prop} (h₀ : I M.init)
    (hstep : ∀ s a s', I s → M.step s a = some s' → I s') {l : List (σ × α)} {s : σ}
    (h : M.Exec l s) : I s := by
  induction h with
  | nil => exact h₀
  | snoc _ hs ih => exact hstep _ _ _ ih hs

/-- A property that every step meeting `ok` preserves holds at the end of every execution
whose steps all meet `ok`; the proof of a step may use an invariant `I` of all executions. -/
theorem Exec.invariant_of_meets {I P : σ → Prop} {ok : σ → α → Prop}
    (hI : ∀ l s, M.Exec l s → I s) (h₀ : P M.init)
    (hstep : ∀ s a s', I s → P s → ok s a → M.step s a = some s' → P s')
    {l : List (σ × α)} {s : σ} (h : M.Exec l s) (hok : Meets ok l) : P s := by
  induction h with
  | nil => exact h₀
  | @snoc l s s' a hl hs ih =>
    obtain ⟨hok', ha⟩ := meets_snoc.mp hok
    exact hstep s a s' (hI l s hl) (ih hok') ha hs

/-- A property that every step meeting `ok` and leading to a state with `Q` preserves holds at the
end of every execution whose steps all meet `ok` and whose states all satisfy `Q`. -/
theorem Exec.invariant_of_always {P Q : σ → Prop} {ok : σ → α → Prop} (h₀ : P M.init)
    (hstep : ∀ s a s', P s → ok s a → Q s' → M.step s a = some s' → P s')
    {l : List (σ × α)} {s : σ} (h : M.Exec l s) (hok : Meets ok l) (hQ : Always Q l s) : P s := by
  induction h with
  | nil => exact h₀
  | @snoc l s s' a hl hs ih =>
    obtain ⟨hok', ha⟩ := meets_snoc.mp hok
    obtain ⟨hQ', hs'⟩ := always_snoc.mp hQ
    exact hstep s a s' (ih hok' hQ') ha hs' hs

/-- When every step that counts raises a potential by one, and no other step lowers it, the
potential bounds the number of the steps that count. -/
theorem Exec.countP_le {I Q : σ → Prop} {ok : σ → α → Prop} {φ : σ → ℕ} {p : σ × α → Bool}
    (h₀ : I M.init) (hI : ∀ s a s', I s → ok s a → Q s' → M.step s a = some s' → I s')
    (hφ : ∀ s a s', I s → ok s a → M.step s a = some s' →
      φ s + (if p (s, a) then 1 else 0) ≤ φ s')
    {l : List (σ × α)} {s : σ} (h : M.Exec l s) (hok : Meets ok l) (hQ : Always Q l s) :
    l.countP p ≤ φ s := by
  induction h with
  | nil => exact Nat.zero_le _
  | @snoc l s s' a hl hs ih =>
    obtain ⟨hok', ha⟩ := meets_snoc.mp hok
    have hQ' := (always_snoc.mp hQ).1
    have hs₀ : I s := hl.invariant_of_always h₀ hI hok' hQ'
    have hstep := hφ s a s' hs₀ ha hs
    have hold := ih hok' hQ'
    rw [List.countP_append, List.countP_singleton]
    omega

/-- What comes before a step of an execution is an execution, and the step is one of the machine. -/
theorem Exec.before {l₁ l₂ : List (σ × α)} {s s' : σ} {a : α}
    (h : M.Exec (l₁ ++ (s, a) :: l₂) s') : M.Exec l₁ s ∧ ∃ t, M.step s a = some t := by
  generalize hl : l₁ ++ (s, a) :: l₂ = l at h
  induction h generalizing l₂ with
  | nil => simp at hl
  | @snoc l s₀ s' a₀ h₀ hs ih =>
    rcases snoc_eq_append_cons hl.symm with ⟨rfl, hx, -⟩ | ⟨l₃, -, rfl⟩
    · obtain ⟨rfl, rfl⟩ := Prod.mk.inj hx
      exact ⟨h₀, s', hs⟩
    · exact ih rfl

/-- Every state that an execution visits is itself the end of an execution, by the steps
before it. -/
theorem Exec.split_of_mem {l : List (σ × α)} {s : σ} (h : M.Exec l s) {x : σ × α} (hx : x ∈ l) :
    ∃ l₁ l₂, l = l₁ ++ x :: l₂ ∧ M.Exec l₁ x.1 := by
  induction h with
  | nil => simp at hx
  | @snoc l s s' a hl hs ih =>
    rcases List.mem_append.mp hx with hx | hx
    · obtain ⟨l₁, l₂, rfl, h₁⟩ := ih hx
      exact ⟨l₁, l₂ ++ [(s, a)], by simp, h₁⟩
    · rw [List.mem_singleton.mp hx]
      exact ⟨l, [], rfl, hl⟩

theorem Exec.of_mem {l : List (σ × α)} {s : σ} (h : M.Exec l s) {x : σ × α} (hx : x ∈ l) :
    ∃ l₁, M.Exec l₁ x.1 ∧ ∀ y ∈ l₁, y ∈ l := by
  obtain ⟨l₁, l₂, rfl, h₁⟩ := h.split_of_mem hx
  exact ⟨l₁, h₁, fun y hy => List.mem_append_left _ hy⟩

/-- A step of an execution is a step of the machine, and leads to where the execution ends. -/
theorem Exec.leads_of_mem {l : List (σ × α)} {s : σ} (h : M.Exec l s) {x : σ × α} (hx : x ∈ l) :
    ∃ s', M.step x.1 x.2 = some s' ∧ M.Leads s' s := by
  induction h with
  | nil => simp at hx
  | @snoc l s s' a hl hs ih =>
    rcases List.mem_append.mp hx with hx | hx
    · obtain ⟨s₁, h₁, hleads⟩ := ih hx
      exact ⟨s₁, h₁, hleads.tail ⟨a, hs⟩⟩
    · rw [List.mem_singleton.mp hx]
      exact ⟨s', hs, Relation.ReflTransGen.refl⟩

/-- What every execution meeting `ok` ends with, it also holds in every state it visits. -/
theorem Exec.always_of_meets {P : σ → Prop} {ok : σ → α → Prop}
    (hend : ∀ l s, M.Exec l s → Meets ok l → P s) {l : List (σ × α)} {s : σ}
    (h : M.Exec l s) (hok : Meets ok l) : Always P l s := by
  refine ⟨fun x hx => ?_, hend l s h hok⟩
  obtain ⟨l₁, h₁, hsub⟩ := h.of_mem hx
  exact hend l₁ x.1 h₁ fun y hy => hok y (hsub y hy)

/-- When a step from a good state ends in a good state exactly if it meets `ok`, the visited
states of an execution are all good exactly if its steps all meet `ok`. -/
theorem Exec.always_iff_meets {I P : σ → Prop} {ok : σ → α → Prop}
    (hI : ∀ l s, M.Exec l s → I s) (h₀ : P M.init)
    (hstep : ∀ s a s', I s → P s → M.step s a = some s' → (P s' ↔ ok s a))
    {l : List (σ × α)} {s : σ} (h : M.Exec l s) : Always P l s ↔ Meets ok l := by
  induction h with
  | nil => simp [Always, Meets, h₀]
  | @snoc l s s' a hl hs ih =>
    rw [always_snoc, meets_snoc, ih]
    constructor
    · rintro ⟨hok, hP⟩
      exact ⟨hok, (hstep s a s' (hI l s hl) (ih.mpr hok).2 hs).mp hP⟩
    · rintro ⟨hok, ha⟩
      exact ⟨hok, (hstep s a s' (hI l s hl) (ih.mpr hok).2 hs).mpr ha⟩

/-- The same where it takes more than `P` to carry on: steps that meet `ok` keep `R`, which implies
`P`, and a step that ends with `P` meets `ok`. -/
theorem Exec.always_iff_meets_of_strong {I R P : σ → Prop} {ok : σ → α → Prop}
    (hI : ∀ l s, M.Exec l s → I s) (h₀ : R M.init) (hP : ∀ s, I s → R s → P s)
    (hstep : ∀ s a s', I s → R s → ok s a → M.step s a = some s' → R s')
    (hok : ∀ s a s', I s → M.step s a = some s' → P s' → ok s a)
    {l : List (σ × α)} {s : σ} (h : M.Exec l s) : Always P l s ↔ Meets ok l := by
  constructor
  · intro hal
    induction h with
    | nil => exact fun x hx => absurd hx (List.not_mem_nil)
    | @snoc l s s' a hl hs ih =>
      obtain ⟨hal', hs'⟩ := always_snoc.mp hal
      exact meets_snoc.mpr ⟨ih hal', hok s a s' (hI l s hl) hs hs'⟩
  · exact h.always_of_meets fun l s hl hmeets =>
      hP s (hI l s hl) (hl.invariant_of_meets hI h₀ hstep hmeets)

/-- When a step ends with `P` exactly if it is not bad, and is good or starts with `P`, an
execution ends with `P` exactly if each of its bad steps is followed by a good one. -/
theorem Exec.iff_not_since {I P : σ → Prop} {ok bad good : σ → α → Prop}
    (hI : ∀ l s, M.Exec l s → Meets ok l → I s) (h₀ : P M.init)
    (hstep : ∀ s a s', I s → ok s a → M.step s a = some s' →
      (P s' ↔ ¬ bad s a ∧ (P s ∨ good s a)))
    {l : List (σ × α)} {s : σ} (h : M.Exec l s) (hok : Meets ok l) :
    P s ↔ ¬ Since bad good l := by
  induction h with
  | nil => simp [Since, h₀]
  | @snoc l s s' a hl hs ih =>
    obtain ⟨hok', ha⟩ := meets_snoc.mp hok
    rw [hstep s a s' (hI l s hl hok') ha hs, since_snoc, ih hok', not_or,
      Classical.not_and_iff_not_or_not, Classical.not_not]

/-- Two properties of a step agree along an execution if they agree on each of its steps. -/
theorem Exec.along_iff {P Q : List (σ × α) → σ → α → Prop}
    (hstep : ∀ l s a s', M.Exec l s → M.step s a = some s' → (P l s a ↔ Q l s a))
    {l : List (σ × α)} {s : σ} (h : M.Exec l s) : Along P l ↔ Along Q l := by
  induction h with
  | nil => simp [Along]
  | @snoc l s s' a hl hs ih => rw [along_snoc, along_snoc, ih, hstep l s a s' hl hs]

/-- What holds of every step that meets `ok`, given the execution before it, holds along every
execution whose steps all meet `ok`. -/
theorem Exec.along_of_meets {P : List (σ × α) → σ → α → Prop} {ok : σ → α → Prop}
    (hstep : ∀ l s a s', M.Exec l s → ok s a → M.step s a = some s' → P l s a)
    {l : List (σ × α)} {s : σ} (h : M.Exec l s) (hok : Meets ok l) : Along P l := by
  induction h with
  | nil => simp [Along]
  | @snoc l s s' a hl hs ih =>
    obtain ⟨hok', ha⟩ := meets_snoc.mp hok
    exact along_snoc.mpr ⟨ih hok', hstep l s a s' hl ha hs⟩

/-- A property that every step preserves holds in all the states that follow. -/
theorem Leads.stable {P : σ → Prop} (hstep : ∀ s a s', P s → M.step s a = some s' → P s')
    {s s' : σ} (h : M.Leads s s') (hs : P s) : P s' := by
  induction h with
  | refl => exact hs
  | tail _ ht ih =>
    obtain ⟨a, ha⟩ := ht
    exact hstep _ _ _ ih ha

/-- Where every step of a machine is, seen from another one, a step of that one or none at all, an
execution of the first is an execution of the second. -/
theorem Exec.project {τ β : Type*} {N : Machine τ β} (f : σ → τ) (g : α → Option β)
    (h₀ : f M.init = N.init)
    (hstep : ∀ s a s', M.step s a = some s' →
      (∃ b, g a = some b ∧ N.step (f s) b = some (f s')) ∨ (g a = none ∧ f s' = f s))
    {l : List (σ × α)} {s : σ} (h : M.Exec l s) :
    N.Exec (l.filterMap fun x => (g x.2).map fun b => (f x.1, b)) (f s) := by
  induction h with
  | nil =>
    rw [h₀]
    exact .nil
  | @snoc l s s' a hl hs ih =>
    rw [List.filterMap_append]
    rcases hstep s a s' hs with ⟨b, hb, hsb⟩ | ⟨hnone, he⟩
    · simpa [hb] using ih.snoc hsb
    · simpa [hnone, he] using ih

/-! ### Executions from lists of actions -/

lemma Exec.append_run {l : List (σ × α)} {s : σ} (h : M.Exec l s) {as : List α}
    {r : List (σ × α) × σ} (hr : M.run s as = some r) : M.Exec (l ++ r.1) r.2 := by
  induction as generalizing l s r with
  | nil =>
    have hr' : r = ([], s) := by simpa [run] using hr.symm
    rw [hr']
    simpa using h
  | cons a as ih =>
    simp only [run, Option.bind_eq_some_iff, Option.map_eq_some_iff] at hr
    obtain ⟨s', hs', r', hr', rfl⟩ := hr
    simpa using ih (h.snoc hs') hr'

/-- What each of the actions of a list preserves holds after the list. -/
theorem run_invariant {P : σ → Prop} {ok : α → Prop}
    (hstep : ∀ s a s', ok a → P s → M.step s a = some s' → P s') {as : List α} {s : σ}
    {r : List (σ × α) × σ} (hr : M.run s as = some r) (hok : ∀ a ∈ as, ok a) (hs : P s) :
    P r.2 := by
  induction as generalizing s r with
  | nil =>
    obtain rfl : ([], s) = r := Option.some.inj hr
    exact hs
  | cons a as ih =>
    simp only [run, Option.bind_eq_some_iff, Option.map_eq_some_iff] at hr
    obtain ⟨s', hs', r', hr', rfl⟩ := hr
    have hs₁ : P s' := hstep s a s' (hok a (by simp)) hs hs'
    exact ih (r := r') hr' (fun b hb => hok b (by simp [hb])) hs₁

/-- A run of a list of actions from the initial state is an execution. -/
theorem exec_of_run {as : List α} {r : List (σ × α) × σ} (h : M.run M.init as = some r) :
    M.Exec r.1 r.2 := by
  simpa using Exec.nil.append_run h

/-- The same, for a list of actions that is known to run. -/
theorem exec_get_run {as : List α} (h : (M.run M.init as).isSome) :
    M.Exec ((M.run M.init as).get h).1 ((M.run M.init as).get h).2 :=
  exec_of_run (Option.some_get h).symm

end Machine

end Lib
