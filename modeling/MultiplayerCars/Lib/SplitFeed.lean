import Mathlib.Data.List.Induction
import MultiplayerCars.Lib.Feed

/-!
# The latest value of a key, by way of two queues

Messages give values to keys, and wait in one of two queues.  A message of the one queue gives its
value to a key in any case, a message of the other only to a key that has one.  Each queue is served
in order, but the two are served at different times.  When both are empty, a key whose first message
came through the first queue shows the latest value that has arrived for it, unless the newest
message about it was taken while an older one with another value was the last to wait in the other
queue.
-/

namespace Lib

/-- The messages that have arrived, those that still wait in the queue of the messages that give a
value (`true`) and in that of those that amend one, and what the keys show. -/
structure SplitFeed (κ μ ν : Type*) where
  /-- All messages so far, oldest first. -/
  arrived : List μ
  waiting : Bool → List μ
  shown : κ → Option ν

namespace SplitFeed

open Feed

variable {κ μ ν : Type*} (value : κ → μ → Option ν) (lane : μ → Bool)

/-- What a key shows after a message. -/
def after (m : μ) (shown : κ → Option ν) (k : κ) : Option ν :=
  if lane m then (value k m).or (shown k) else (shown k).map fun v => (value k m).getD v

inductive Event (μ : Type*)
  | arrive (m : μ)
  | take (b : Bool)

inductive Step : Event μ → SplitFeed κ μ ν → SplitFeed κ μ ν → Prop
  | arrive {s t : SplitFeed κ μ ν} (m : μ) (ha : t.arrived = s.arrived ++ [m])
      (hw : t.waiting (lane m) = s.waiting (lane m) ++ [m])
      (ho : t.waiting (!lane m) = s.waiting (!lane m)) (hs : t.shown = s.shown) :
      Step (.arrive m) s t
  | take {s t : SplitFeed κ μ ν} (m : μ) (ha : t.arrived = s.arrived)
      (hw : s.waiting (lane m) = m :: t.waiting (lane m))
      (ho : t.waiting (!lane m) = s.waiting (!lane m))
      (hs : t.shown = after value lane m s.shown) : Step (.take (lane m)) s t

/-- The value that the last of some messages about the key gives it, with the queue of that
message. -/
def newest (k : κ) (l : List μ) : Option (Bool × ν) :=
  latest (fun k m => (value k m).map fun v => (lane m, v)) k l

/-- The first of some messages about the key gives it a value. -/
def Introduced (k : κ) (l : List μ) : Prop :=
  ∀ m ∈ l.find? fun m => (value k m).isSome, lane m

/-- The newest message about the key waits, or the last of those that wait in the other queue has
its value, or none waits and the key shows it. -/
def Current (s : SplitFeed κ μ ν) (k : κ) : Prop :=
  ∀ b v, newest value lane k s.arrived = some (b, v) →
    latest value k (s.waiting b) ≠ none ∨ (latest value k (s.waiting !b)).or (s.shown k) = some v

/-- The message at the front of the queue is the newest about the key, and the last of those that
wait in the other queue has another value. -/
def Overtakes (s : SplitFeed κ μ ν) (k : κ) (b : Bool) : Prop :=
  ∃ m rest v w, s.waiting b = m :: rest ∧ value k m = some v ∧ latest value k rest = none ∧
    newest value lane k s.arrived = some (b, v) ∧
    latest value k (s.waiting !b) = some w ∧ w ≠ v

/-- What waits in a queue is what has arrived for it last, and a key that has been given a value
shows one. -/
structure Grounded (s : SplitFeed κ μ ν) : Prop where
  waiting : ∀ b, s.waiting b <:+ s.arrived.filter (lane · == b)
  known : ∀ k before, s.arrived.filter (lane · == true) = before ++ s.waiting true →
    latest value k before ≠ none → s.shown k ≠ none

variable {value lane}

/-! ### The newest message -/

lemma newest_append_singleton (k : κ) (l : List μ) (m : μ) :
    newest value lane k (l ++ [m])
      = ((value k m).map fun v => (lane m, v)).or (newest value lane k l) := by
  rw [newest, latest_append, latest_singleton]
  rfl

lemma newest_map_snd (lane : μ → Bool) (k : κ) (l : List μ) :
    (newest value lane k l).map Prod.snd = latest value k l := by
  have hvalue : ∀ m, ((value k m).map fun v => (lane m, v)).map Prod.snd = value k m := by
    intro m
    cases value k m <;> rfl
  rw [newest, latest, latest, ← List.getLast?_map, List.map_filterMap]
  simp only [hvalue]

/-- The newest message is the newest of its queue. -/
lemma latest_filter_of_newest {k : κ} {l : List μ} {b : Bool} {v : ν}
    (h : newest value lane k l = some (b, v)) :
    latest value k (l.filter (lane · == b)) = some v := by
  induction l using List.reverseRecOn with
  | nil => cases h
  | append_singleton l m ih =>
    rw [newest_append_singleton] at h
    rw [List.filter_append, latest_append]
    cases hm : value k m with
    | some w =>
      rw [hm, Option.map_some, Option.some_or] at h
      obtain ⟨rfl, rfl⟩ := Prod.mk.inj (Option.some.inj h)
      have hself : [m].filter (lane · == lane m) = [m] := by simp
      rw [hself, latest_singleton, hm, Option.some_or]
    | none =>
      rw [hm, Option.map_none, Option.none_or] at h
      have hno : latest value k ([m].filter (lane · == b)) = none := by
        rw [latest_eq_none]
        intro m' hm'
        rw [List.mem_singleton.mp (List.mem_of_mem_filter hm')]
        exact hm
      rw [hno, Option.none_or, ih h]

lemma Introduced.of_append {k : κ} {l l' : List μ} (h : Introduced value lane k (l ++ l')) :
    Introduced value lane k l := by
  intro m hm
  refine h m ?_
  rw [List.find?_append, Option.mem_def.mp hm]
  rfl

/-- If there is a message about the key, there is one that gives it a value. -/
lemma Introduced.exists {k : κ} {l : List μ} (h : Introduced value lane k l)
    (hsome : latest value k l ≠ none) : latest value k (l.filter (lane · == true)) ≠ none := by
  intro hnone
  rw [latest_eq_none] at hnone
  refine hsome (latest_eq_none.mpr fun m hm => ?_)
  by_contra hv
  have hfind : (l.find? fun m => (value k m).isSome).isSome := by
    rw [List.find?_isSome]
    exact ⟨m, hm, Option.isSome_iff_ne_none.mpr hv⟩
  obtain ⟨m₀, hm₀⟩ := Option.isSome_iff_exists.mp hfind
  have hvalue : (value k m₀).isSome := by simpa using List.find?_some hm₀
  rw [hnone m₀ (List.mem_filter.mpr ⟨List.mem_of_find?_eq_some hm₀, by simp [h m₀ hm₀]⟩)] at hvalue
  cases hvalue

/-! ### Steps -/

section Step

variable {s t : SplitFeed κ μ ν} {e : Event μ}

lemma Grounded.latest_waiting (hg : Grounded value lane s) {k : κ} {b : Bool} {v : ν}
    (h : latest value k (s.waiting b) = some v) :
    latest value k (s.arrived.filter (lane · == b)) = some v := by
  obtain ⟨before, hbefore⟩ := hg.waiting b
  rw [← hbefore, latest_append, h, Option.some_or]

/-- A key shows a value once all the messages that give it one have been taken. -/
lemma Grounded.shown_ne_none (hg : Grounded value lane s) {k : κ}
    (hsome : latest value k (s.arrived.filter (lane · == true)) ≠ none)
    (hw : latest value k (s.waiting true) = none) : s.shown k ≠ none := by
  obtain ⟨before, hbefore⟩ := hg.waiting true
  refine hg.known k before hbefore.symm ?_
  rwa [← hbefore, latest_append, hw, Option.none_or] at hsome

lemma after_ne_none {m : μ} {shown : κ → Option ν} {k : κ} (h : shown k ≠ none) :
    after value lane m shown k ≠ none := by
  rw [after]
  split_ifs
  · exact fun hor => h (Option.or_eq_none_iff.mp hor).2
  · rwa [Ne, Option.map_eq_none_iff]

lemma after_of_none {m : μ} {k : κ} (h : value k m = none) (shown : κ → Option ν) :
    after value lane m shown k = shown k := by
  rw [after, h]
  split_ifs
  · rfl
  · simp

/-- A message gives its value to a key that shows one, and to any key if it is of the kind that
does. -/
lemma after_of_some {m : μ} {k : κ} {v : ν} (h : value k m = some v) {shown : κ → Option ν}
    (hshown : lane m = false → shown k ≠ none) : after value lane m shown k = some v := by
  rw [after, h]
  cases hl : lane m with
  | true => rfl
  | false =>
    obtain ⟨w, hw⟩ := Option.ne_none_iff_exists'.mp (hshown hl)
    rw [hw]
    rfl

lemma Grounded.step (hg : Grounded value lane s) (h : Step value lane e s t) :
    Grounded value lane t := by
  have hother : ∀ {m : μ} {b : Bool}, b ≠ lane m → b = !lane m := fun hb => Bool.eq_not_of_ne hb
  cases h with
  | arrive m ha hw ho hs =>
    have hwait : ∀ b, t.waiting b = s.waiting b ++ [m].filter (lane · == b) := by
      intro b
      by_cases hb : b = lane m
      · rw [hb, hw]
        simp
      · rw [hother hb, ho]
        simp
    constructor
    · intro b
      obtain ⟨before, hbefore⟩ := hg.waiting b
      exact ⟨before, by rw [ha, hwait, List.filter_append, ← hbefore, List.append_assoc]⟩
    · intro k before hbefore hsome
      rw [ha, hwait, List.filter_append, ← List.append_assoc] at hbefore
      rw [hs]
      exact hg.known k before (List.append_cancel_right hbefore) hsome
  | take m ha hw ho hs =>
    have hwait : ∀ b, s.waiting b = [m].filter (lane · == b) ++ t.waiting b := by
      intro b
      by_cases hb : b = lane m
      · rw [hb, hw]
        simp
      · rw [hother hb, ho]
        simp
    constructor
    · intro b
      obtain ⟨before, hbefore⟩ := hg.waiting b
      exact ⟨before ++ [m].filter (lane · == b), by rw [ha, ← hbefore, hwait, List.append_assoc]⟩
    · intro k before hbefore hsome
      obtain ⟨before₀, hbefore₀⟩ := hg.waiting true
      rw [ha, ← hbefore₀, hwait, ← List.append_assoc] at hbefore
      rw [hs]
      rw [← List.append_cancel_right hbefore, latest_append] at hsome
      by_cases hold : latest value k before₀ = none
      · -- the key is given its first value now
        have hm : latest value k ([m].filter (lane · == true)) ≠ none := by
          rwa [hold, Option.or_none] at hsome
        cases hl : lane m with
        | false => simp [hl] at hm
        | true =>
          rw [List.filter_cons_of_pos (by simp [hl]), List.filter_nil, latest_singleton] at hm
          obtain ⟨v, hv⟩ := Option.ne_none_iff_exists'.mp hm
          rw [after_of_some hv (by simp [hl])]
          simp
      · exact after_ne_none (hg.known k before₀ hbefore₀.symm hold)

lemma current_iff_of_newest {k : κ} {b : Bool} {v : ν}
    (h : newest value lane k s.arrived = some (b, v)) : Current value lane s k ↔
      latest value k (s.waiting b) ≠ none ∨
        (latest value k (s.waiting !b)).or (s.shown k) = some v := by
  constructor
  · exact fun hc => hc b v h
  · intro hc b' v' h'
    obtain ⟨rfl, rfl⟩ := Prod.mk.inj (Option.some.inj (h.symm.trans h'))
    exact hc

/-- Taking a message about a key leaves the key as it is, unless the message overtakes an older
one. -/
lemma Grounded.current_take (hg : Grounded value lane s) {k : κ}
    (hintro : Introduced value lane k s.arrived) {m : μ} (ha : t.arrived = s.arrived)
    (hw : s.waiting (lane m) = m :: t.waiting (lane m))
    (ho : t.waiting (!lane m) = s.waiting (!lane m)) (hs : t.shown = after value lane m s.shown)
    {v : ν} (hv : value k m = some v) :
    Current value lane t k ↔ ¬ Overtakes value lane s k (lane m) ∧ Current value lane s k := by
  have hfront : latest value k (s.waiting (lane m))
      = (latest value k (t.waiting (lane m))).or (some v) := by
    rw [hw, latest_cons, hv]
  have hsome : latest value k s.arrived ≠ none := by
    intro hnone
    obtain ⟨before, hbefore⟩ := hg.waiting (lane m)
    have hmem : m ∈ s.arrived.filter (lane · == lane m) := by
      rw [← hbefore, hw]
      simp
    rw [latest_eq_none.mp hnone m (List.mem_of_mem_filter hmem)] at hv
    cases hv
  -- the key has a value to amend as soon as nothing waits that gives it one
  have hshown : (lane m = false → latest value k (s.waiting true) = none) →
      t.shown k = some v := by
    intro hnone
    rw [hs]
    exact after_of_some hv fun hl => hg.shown_ne_none (hintro.exists hsome) (hnone hl)
  rw [← newest_map_snd lane, Ne, Option.map_eq_none_iff] at hsome
  obtain ⟨⟨b, v'⟩, hnew⟩ := Option.ne_none_iff_exists'.mp hsome
  rw [current_iff_of_newest hnew, current_iff_of_newest (by rwa [ha])]
  by_cases hb : b = lane m
  · subst hb
    cases hrest : latest value k (t.waiting (lane m)) with
    | some w =>
      have hno : ¬ Overtakes value lane s k (lane m) := by
        rintro ⟨m', rest, -, -, he, -, hrest', -⟩
        obtain ⟨rfl, rfl⟩ := List.cons.inj (hw.symm.trans he)
        rw [hrest] at hrest'
        cases hrest'
      simp [hfront, hrest, hno]
    | none =>
      -- the message is the newest about the key
      rw [hrest, Option.none_or] at hfront
      obtain rfl : v = v' := Option.some.inj
        ((hg.latest_waiting hfront).symm.trans (latest_filter_of_newest hnew))
      have hover : Overtakes value lane s k (lane m) ↔
          ∃ w, latest value k (s.waiting !lane m) = some w ∧ w ≠ v := by
        constructor
        · rintro ⟨m', rest, v', w, he, hv', -, -, hold, hne⟩
          obtain ⟨rfl, rfl⟩ := List.cons.inj (hw.symm.trans he)
          obtain rfl : v = v' := Option.some.inj (hv.symm.trans hv')
          exact ⟨w, hold, hne⟩
        · rintro ⟨w, hold, hne⟩
          exact ⟨m, _, v, w, hw, hv, hrest, hnew, hold, hne⟩
      rw [hover, hfront, ho]
      cases hold : latest value k (s.waiting !lane m) with
      | some w => simp
      | none =>
        have hlast : t.shown k = some v := by
          refine hshown fun hl => ?_
          rwa [hl] at hold
        simp [hlast]
  · have hb' : b = !lane m := Bool.eq_not_of_ne hb
    subst hb'
    have hno : ¬ Overtakes value lane s k (lane m) := by
      rintro ⟨_, _, _, _, -, -, -, hnew', -⟩
      obtain ⟨hl, -⟩ := Prod.mk.inj (Option.some.inj (hnew.symm.trans hnew'))
      exact hb hl
    rw [ho, Bool.not_not, hfront]
    cases hold : latest value k (s.waiting !lane m) with
    | some w => simp [hno]
    | none =>
      have hlast : t.shown k = some v := by
        refine hshown fun hl => ?_
        rwa [hl] at hold
      simp [hno, hlast]

/-- Whether a key is current, after a step: a message about it makes it so, and taking a message
that overtakes an older one makes it not so. -/
theorem Step.current_iff (h : Step value lane e s t) (hg : Grounded value lane s) {k : κ}
    (hintro : Introduced value lane k s.arrived) : Current value lane t k ↔
      ¬ (∃ b, e = .take b ∧ Overtakes value lane s k b) ∧
        (Current value lane s k ∨ ∃ m, e = .arrive m ∧ (value k m).isSome) := by
  cases h with
  | arrive m ha hw ho hs =>
    cases hv : value k m with
    | some v =>
      have hnew : newest value lane k t.arrived = some (lane m, v) := by
        rw [ha, newest_append_singleton, hv]
        rfl
      rw [current_iff_of_newest hnew, hw, latest_append, latest_singleton, hv]
      simp [hv]
    | none =>
      have hnew : newest value lane k t.arrived = newest value lane k s.arrived := by
        rw [ha, newest_append_singleton, hv]
        rfl
      have hwait : ∀ b, latest value k (t.waiting b) = latest value k (s.waiting b) := by
        intro b
        by_cases hb : b = lane m
        · rw [hb, hw, latest_append, latest_singleton, hv, Option.none_or]
        · rw [Bool.eq_not_of_ne hb, ho]
      simp [Current, hnew, hwait, hs, hv]
  | take m ha hw ho hs =>
    cases hv : value k m with
    | some v =>
      rw [hg.current_take hintro ha hw ho hs hv]
      simp
    | none =>
      have hno : ¬ Overtakes value lane s k (lane m) := by
        rintro ⟨m', rest, v, _, he, hv', -⟩
        obtain ⟨rfl, -⟩ := List.cons.inj (hw.symm.trans he)
        rw [hv] at hv'
        cases hv'
      have hwait : ∀ b, latest value k (s.waiting b) = latest value k (t.waiting b) := by
        intro b
        by_cases hb : b = lane m
        · rw [hb, hw, latest_cons, hv, Option.or_none]
        · rw [Bool.eq_not_of_ne hb, ho]
      have hsame : t.shown k = s.shown k := by
        rw [hs]
        exact after_of_none hv s.shown
      simp [Current, ha, hwait, hsame, hno]

/-- When nothing waits, a key is current exactly if it shows the latest value that has arrived. -/
lemma current_iff_of_drained (hw : ∀ b, s.waiting b = []) (k : κ) : Current value lane s k ↔
    ∀ v, latest value k s.arrived = some v → s.shown k = some v := by
  rw [← newest_map_snd lane]
  constructor
  · intro h v hv
    obtain ⟨⟨b, v'⟩, hnew, rfl⟩ := Option.map_eq_some_iff.mp hv
    simpa [hw] using h b v' hnew
  · intro h b v hnew
    right
    rw [hw, latest_nil, Option.none_or]
    exact h v (by rw [hnew]; rfl)

end Step

end SplitFeed

end Lib
