import Mathlib.Data.List.Induction
import MultiplayerCars.Lib.Machine

/-!
# The calls of a queue with one consumer

Several threads push to a queue, and one looks at its front and pops it later.  Replaying the calls
shows whether each of them was possible and what has been removed.  A machine that tells for each
step which call it makes keeps the discipline in all its runs if the consumer pops only while it
holds what it found at the front, or where the queue has more than one element.
-/

namespace Lib

/-- A call of a queue; a `front` comes with what it returned. -/
inductive QueueCall (α : Type*)
  | push (x : α)
  | front (x : α)
  | pop
deriving DecidableEq, Repr

structure Fifo (α : Type*) where
  /-- The elements that have been popped, oldest first. -/
  removed : List α
  contents : List α
  /-- What the last `front` returned, unless there has been a `pop` since. -/
  held : Option α
deriving DecidableEq, Repr

namespace Fifo

open Machine

variable {α : Type*}

def empty : Fifo α := ⟨[], [], none⟩

/-- The elements that some calls push. -/
def pushed (l : List (QueueCall α)) : List α :=
  l.filterMap fun c => match c with
    | .push x => some x
    | _ => none

def pops (l : List (QueueCall α)) : ℕ :=
  l.countP fun c => match c with
    | .pop => true
    | _ => false

/-- The last `front` returned `x`, and there have only been pushes since. -/
def LastFront (l : List (QueueCall α)) (x : α) : Prop :=
  ∃ l₁ l₂, l = l₁ ++ .front x :: l₂ ∧ ∀ c ∈ l₂, ∃ y, c = .push y

section Replay

variable [DecidableEq α]

/-- The queue after a call, if the call is possible: only an element that is there can be popped,
and `front` returns the first one. -/
def call (f : Fifo α) : QueueCall α → Option (Fifo α)
  | .push x => some { f with contents := f.contents ++ [x] }
  | .front x => if f.contents.head? = some x then some { f with held := some x } else none
  | .pop =>
    match f.contents with
    | [] => none
    | x :: rest => some ⟨f.removed ++ [x], rest, none⟩

def replay (l : List (QueueCall α)) : Option (Fifo α) := l.foldlM call empty

/-- What a call does, when it is possible. -/
inductive Called (f : Fifo α) : QueueCall α → Fifo α → Prop
  | push (x : α) : Called f (.push x) { f with contents := f.contents ++ [x] }
  | front (x : α) (h : f.contents.head? = some x) : Called f (.front x) { f with held := some x }
  | pop {x : α} {rest : List α} (h : f.contents = x :: rest) :
      Called f .pop ⟨f.removed ++ [x], rest, none⟩

lemma called_of_call {f f' : Fifo α} {c : QueueCall α} (h : f.call c = some f') :
    Called f c f' := by
  cases c with
  | push x =>
    rw [← Option.some.inj h]
    exact .push x
  | front x =>
    obtain ⟨hx, he⟩ := Option.ite_none_right_eq_some.mp h
    rw [← Option.some.inj he]
    exact .front x hx
  | pop =>
    rw [call] at h
    split at h
    · cases h
    · rename_i x rest hc
      rw [← Option.some.inj h]
      exact .pop hc

lemma replay_snoc (l : List (QueueCall α)) (c : QueueCall α) :
    replay (l ++ [c]) = (replay l).bind fun f => f.call c := by
  simp [replay, List.foldlM_append]

variable {l : List (QueueCall α)} {f : Fifo α}

/-- What every call preserves holds after a replay. -/
theorem replay_induction {P : List (QueueCall α) → Fifo α → Prop} (h₀ : P [] empty)
    (hstep : ∀ l f c f', P l f → Called f c f' → P (l ++ [c]) f') (h : replay l = some f) :
    P l f := by
  induction l using List.reverseRecOn generalizing f with
  | nil =>
    cases h
    exact h₀
  | append_singleton l c ih =>
    rw [replay_snoc, Option.bind_eq_some_iff] at h
    obtain ⟨f₀, hf₀, hcall⟩ := h
    exact hstep l f₀ c f (ih hf₀) (called_of_call hcall)

/-- What has been removed, and then what is there, is what has been pushed, in this order. -/
theorem removed_append_contents (h : replay l = some f) : f.removed ++ f.contents = pushed l := by
  refine replay_induction (P := fun l f => f.removed ++ f.contents = pushed l) rfl ?_ h
  intro l f c f' hf hcall
  rw [pushed, List.filterMap_append, ← pushed, ← hf]
  cases hcall with
  | push x => simp
  | front x => simp
  | pop hc => simp [hc]

lemma length_removed (h : replay l = some f) : f.removed.length = pops l := by
  refine replay_induction (P := fun l f => f.removed.length = pops l) rfl ?_ h
  intro l f c f' hf hcall
  rw [pops, List.countP_append, ← pops, ← hf]
  cases hcall with
  | push x => simp
  | front x => simp
  | pop hc => simp

/-- No more is popped than has been pushed. -/
lemma pops_le (h : replay l = some f) : pops l ≤ (pushed l).length := by
  rw [← removed_append_contents h, ← length_removed h, List.length_append]
  omega

/-- What the consumer holds is still at the front, and it is what the last `front` returned. -/
theorem held_front (h : replay l = some f) {x : α} (hx : f.held = some x) :
    f.contents.head? = some x ∧ LastFront l x := by
  refine replay_induction (P := fun l f => ∀ x, f.held = some x →
    f.contents.head? = some x ∧ LastFront l x) (fun x hx => by cases hx) ?_ h x hx
  intro l f c f' hf hcall x hx
  cases hcall with
  | push y =>
    obtain ⟨hhead, l₁, l₂, rfl, hpush⟩ := hf x hx
    refine ⟨?_, l₁, l₂ ++ [.push y], by simp, ?_⟩
    · rw [List.head?_append, hhead]
      rfl
    · intro c hc
      rcases List.mem_append.mp hc with hc | hc
      · exact hpush c hc
      · exact ⟨y, List.mem_singleton.mp hc⟩
  | front y hhead =>
    obtain rfl : y = x := Option.some.inj hx
    exact ⟨hhead, l, [], rfl, by simp⟩
  | pop hc => cases hx

end Replay

/-! ### Machines that use a queue -/

/-- What a step does to a queue, by the call that it makes.  The consumer holds the front from its
`front` to its `pop`; a `pop` without a `front` discards an element, and not the last one. -/
inductive Uses (discards : Prop) (contents contents' : List α) (holds holds' : Prop)
    (call : Option (QueueCall α)) : Prop
  | none (h : call = none) (hc : contents' = contents) (hh : holds' → holds)
  | push (x : α) (h : call = some (.push x)) (hc : contents' = contents ++ [x])
      (hh : holds' → holds)
  | front (x : α) (h : call = some (.front x)) (hx : contents.head? = some x)
      (hc : contents' = contents)
  | pop (h : call = some .pop) (hd : ¬ discards) (hh : holds) (hc : contents' = contents.tail)
      (hh' : ¬ holds')
  | discard (x : α) (rest : List α) (h : call = some .pop) (hd : discards)
      (hx : contents = x :: rest) (hne : rest ≠ []) (hc : contents' = rest) (hh' : ¬ holds')

section Discipline

variable {σ A : Type*} (call : σ → A → Option (QueueCall α)) (discards : σ → A → Prop)
  (contents : σ → List α)

/-- The calls of a run. -/
def calls (l : List (σ × A)) : List (QueueCall α) := l.filterMap fun x => call x.1 x.2

/-- What a run does with the queue. -/
structure Disciplined [DecidableEq α] (l : List (σ × A)) (s : σ) : Prop where
  /-- Every call is possible, and what is removed is what was pushed, in this order. -/
  replays : ∃ f, replay (calls call l) = some f ∧ f.contents = contents s ∧
    f.removed ++ contents s = pushed (calls call l)
  /-- A `pop` after a `front` removes what this `front` returned. -/
  pops : Along (fun l s a => call s a = some .pop → ¬ discards s a →
    ∃ x rest, contents s = x :: rest ∧ LastFront (calls call l) x) l
  /-- Any other `pop` leaves the newest element in the queue. -/
  discards : Along (fun _ s a => call s a = some .pop → discards s a →
    ∃ x rest, contents s = x :: rest ∧ rest ≠ []) l
  bounded : Fifo.pops (calls call l) ≤ (pushed (calls call l)).length

variable {call discards contents}

lemma calls_snoc (l : List (σ × A)) (s : σ) (a : A) :
    calls call (l ++ [(s, a)]) = calls call l ++ (call s a).toList := by
  rw [calls, List.filterMap_append, ← calls]
  cases h : call s a <;> simp [h]

variable [DecidableEq α] {M : Machine σ A} {holds inv : σ → Prop} {l : List (σ × A)} {s : σ}

/-- The calls of a run can be replayed, and its consumer holds what the replay says. -/
theorem replays_of_exec (hinv : ∀ l s, M.Exec l s → inv s) (h₀ : contents M.init = [])
    (h₀' : ¬ holds M.init) (hstep : ∀ s a s', inv s → M.step s a = some s' →
      Uses (discards s a) (contents s) (contents s') (holds s) (holds s') (call s a))
    (h : M.Exec l s) : ∃ f, replay (calls call l) = some f ∧ f.contents = contents s ∧
      (holds s → f.held ≠ none) := by
  induction h with
  | nil => exact ⟨empty, rfl, h₀.symm, fun hh => absurd hh h₀'⟩
  | @snoc l s s' a hl hs ih =>
    obtain ⟨f, hf, hc, hheld⟩ := ih
    rw [calls_snoc]
    cases hstep s a s' (hinv l s hl) hs with
    | none hcall hc' hh =>
      refine ⟨f, ?_, hc.trans hc'.symm, fun h' => hheld (hh h')⟩
      rw [hcall, Option.toList_none, List.append_nil, hf]
    | push x hcall hc' hh =>
      refine ⟨{ f with contents := f.contents ++ [x] }, ?_, by rw [hc, hc'],
        fun h' => hheld (hh h')⟩
      rw [hcall, Option.toList_some, replay_snoc, hf]
      rfl
    | front x hcall hx hc' =>
      refine ⟨{ f with held := some x }, ?_, hc.trans hc'.symm, fun _ => by simp⟩
      rw [hcall, Option.toList_some, replay_snoc, hf, Option.bind_some, Fifo.call,
        if_pos (by rw [hc, hx])]
    | pop hcall hd hh hc' hh' =>
      -- what the consumer holds is there to be popped
      obtain ⟨x, hx⟩ := Option.ne_none_iff_exists'.mp (hheld hh)
      obtain ⟨rest, hrest⟩ := List.head?_eq_some_iff.mp (held_front hf hx).1
      refine ⟨⟨f.removed ++ [x], rest, none⟩, ?_, ?_, fun h' => absurd h' hh'⟩
      · rw [hcall, Option.toList_some, replay_snoc, hf, Option.bind_some, Fifo.call, hrest]
      · rw [hc', ← hc, hrest]
        rfl
    | discard x rest hcall hd hx hne hc' hh' =>
      refine ⟨⟨f.removed ++ [x], rest, none⟩, ?_, hc'.symm, fun h' => absurd h' hh'⟩
      rw [hcall, Option.toList_some, replay_snoc, hf, Option.bind_some, Fifo.call, hc, hx]

/-- **A queue with one consumer.**  When every step from a state that can be reached uses the queue
as it should, so does every run. -/
theorem disciplined_of_exec (holds : σ → Prop) (hinv : ∀ l s, M.Exec l s → inv s)
    (h₀ : contents M.init = []) (h₀' : ¬ holds M.init)
    (hstep : ∀ s a s', inv s → M.step s a = some s' →
      Uses (discards s a) (contents s) (contents s') (holds s) (holds s') (call s a))
    (h : M.Exec l s) : Disciplined call discards contents l s := by
  obtain ⟨f, hf, hc, -⟩ := replays_of_exec hinv h₀ h₀' hstep h
  have hall : Meets (fun _ _ => True) l := fun _ _ => trivial
  refine ⟨⟨f, hf, hc, by rw [← hc, removed_append_contents hf]⟩, ?_, ?_, pops_le hf⟩
  · refine h.along_of_meets ?_ hall
    intro l s a s' hl _ hs hcall hd
    obtain ⟨f, hf, hc, hheld⟩ := replays_of_exec hinv h₀ h₀' hstep hl
    cases hstep s a s' (hinv l s hl) hs with
    | pop _ _ hh =>
      obtain ⟨x, hx⟩ := Option.ne_none_iff_exists'.mp (hheld hh)
      obtain ⟨hhead, hlast⟩ := held_front hf hx
      rw [hc] at hhead
      obtain ⟨rest, hrest⟩ := List.head?_eq_some_iff.mp hhead
      exact ⟨x, rest, hrest, hlast⟩
    | discard _ _ _ hd' => exact absurd hd' hd
    | none hno | push _ hno | front _ hno =>
      rw [hcall] at hno
      cases hno
  · refine h.along_of_meets ?_ hall
    intro l s a s' hl _ hs hcall hd
    cases hstep s a s' (hinv l s hl) hs with
    | pop _ hd' => exact absurd hd hd'
    | discard x rest _ _ hx hne => exact ⟨x, rest, hx, hne⟩
    | none hno | push _ hno | front _ hno =>
      rw [hcall] at hno
      cases hno

end Discipline

end Fifo

end Lib
