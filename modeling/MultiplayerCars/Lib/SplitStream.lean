import Mathlib.Logic.Function.Basic
import MultiplayerCars.Lib.Feed

/-!
# One ordered stream, served through two queues

Messages arrive in order, are moved in order to one of two queues, and are taken from either
queue at any time.  A message may say of a key that it is in or that it is out; messages of the
one kind go to the one queue, messages of the other kind to the other.  What is in once
everything has been taken should be what the last messages to arrive said.  It is,
exactly if a later message about the key arrives whenever the newest one has been taken while an
older one waits in the other queue.
-/

namespace Lib

/-- The messages on their way, and the keys that are in. -/
structure SplitStream (κ μ : Type*) where
  /-- All messages so far, oldest first. -/
  arrived : List μ
  /-- Those that have not been moved to a queue. -/
  unrelayed : List μ
  /-- The queue of the messages that put keys in (`true`), and that of those that put them
  out. -/
  queue : Bool → List μ
  /-- The keys that are in. -/
  member : κ → Prop

namespace SplitStream

variable {κ μ : Type*} (verdict : κ → μ → Option Bool)

/-- What the last of some messages to speak about a key says. -/
def lastVerdict (k : κ) (l : List μ) : Option Bool := (l.filterMap (verdict k)).getLast?

/-- The keys that are in after a message. -/
def after (m : μ) (member : κ → Prop) (k : κ) : Prop :=
  match verdict k m with
  | some b => b = true
  | none => member k

/-- What can happen, and from which queue a message is taken, if one is; `lane` says to which
queue a message goes. -/
inductive Step (lane : μ → Bool) : Option Bool → SplitStream κ μ → SplitStream κ μ → Prop
  | arrive {s t : SplitStream κ μ} (m : μ) (ha : t.arrived = s.arrived ++ [m])
      (hu : t.unrelayed = s.unrelayed ++ [m]) (hq : t.queue = s.queue)
      (hm : t.member = s.member) : Step lane none s t
  | relay {s t : SplitStream κ μ} (m : μ) (ha : t.arrived = s.arrived)
      (hu : s.unrelayed = m :: t.unrelayed)
      (hq : t.queue (lane m) = s.queue (lane m) ++ [m])
      (ho : t.queue (!lane m) = s.queue (!lane m)) (hm : t.member = s.member) : Step lane none s t
  | take {s t : SplitStream κ μ} (m : μ) (ha : t.arrived = s.arrived)
      (hu : t.unrelayed = s.unrelayed)
      (hq : s.queue (lane m) = m :: t.queue (lane m))
      (ho : t.queue (!lane m) = s.queue (!lane m))
      (hm : t.member = after verdict m s.member) : Step lane (some (lane m)) s t

/-- The message at the front of a queue is not the newest about a key while an older one about
the key waits in the other queue. -/
def InOrder (s : SplitStream κ μ) (b : Bool) : Prop :=
  ∀ m rest, s.queue b = m :: rest → ∀ k, verdict k m = some b →
    lastVerdict verdict k s.arrived = some b →
    (∀ m' ∈ rest ++ s.unrelayed, verdict k m' ≠ some b) →
    ∀ m' ∈ s.queue (!b), verdict k m' = none

/-- The message at the front of the queue is the newest about the key, and an older one about the
key waits in the other queue. -/
def Overtakes (s : SplitStream κ μ) (k : κ) (b : Bool) : Prop :=
  ∃ m rest, s.queue b = m :: rest ∧ verdict k m = some b ∧
    lastVerdict verdict k s.arrived = some b ∧
    (∀ m' ∈ rest ++ s.unrelayed, verdict k m' ≠ some b) ∧
    ∃ m' ∈ s.queue (!b), verdict k m' ≠ none

variable {verdict}

lemma InOrder.not_overtakes {s : SplitStream κ μ} {b : Bool} (h : InOrder verdict s b) (k : κ) :
    ¬ Overtakes verdict s k b := by
  rintro ⟨m, rest, hq, hv, hl, hnewest, m', hm', hv'⟩
  exact hv' (h m rest hq k hv hl hnewest m' hm')

lemma lastVerdict_append (k : κ) (l l' : List μ) :
    lastVerdict verdict k (l ++ l') = (lastVerdict verdict k l').or (lastVerdict verdict k l) :=
  Feed.latest_append k l l'

/-- The last message to speak about a key is one of the messages. -/
lemma exists_of_lastVerdict {k : κ} {l : List μ} {b : Bool}
    (h : lastVerdict verdict k l = some b) : ∃ m ∈ l, verdict k m = some b :=
  Feed.exists_of_latest h

lemma lastVerdict_eq_none {k : κ} {l : List μ} :
    lastVerdict verdict k l = none ↔ ∀ m ∈ l, verdict k m = none :=
  Feed.latest_eq_none

/-- A message that says `b` about the key is still to be taken. -/
def Pending (verdict : κ → μ → Option Bool) (s : SplitStream κ μ) (k : κ) (b : Bool) : Prop :=
  ∃ m ∈ s.unrelayed ++ s.queue b, verdict k m = some b

/-- The messages are in their places: a queue holds what belongs there and has arrived, and what is
still to be moved is what arrived last. -/
structure Placed (lane : μ → Bool) (s : SplitStream κ μ) : Prop where
  lane : ∀ b, ∀ m ∈ s.queue b, lane m = b
  queued : ∀ b, ∀ m ∈ s.queue b, m ∈ s.arrived
  suffix : s.unrelayed <:+ s.arrived

/-- A key is as the last message about it says, or a message that says the same is still to be
taken; a key about which there was no message is out. -/
def Settled (verdict : κ → μ → Option Bool) (s : SplitStream κ μ) (k : κ) : Prop :=
  match lastVerdict verdict k s.arrived with
  | some b => Pending verdict s k b ∨ (¬ Pending verdict s k (!b) ∧ (s.member k ↔ b = true))
  | none => (∀ b, ¬ Pending verdict s k b) ∧ ¬ s.member k

variable {lane : μ → Bool}

lemma Placed.step {o : Option Bool} {s t : SplitStream κ μ} (h : Placed lane s)
    (hs : Step verdict lane o s t) : Placed lane t := by
  obtain ⟨hlane, hqueued, pre, hpre⟩ := h
  cases hs with
  | arrive m ha hu hq hm =>
    refine ⟨?_, ?_, pre, ?_⟩
    · rw [hq]
      exact hlane
    · intro b m' hm'
      rw [hq] at hm'
      rw [ha]
      exact List.mem_append_left _ (hqueued b m' hm')
    · rw [ha, hu, ← hpre, List.append_assoc]
  | relay m ha hu hq ho hm =>
    refine ⟨?_, ?_, pre ++ [m], ?_⟩
    · intro b m' hm'
      by_cases hb : b = lane m
      · rw [hb, hq] at hm'
        rcases List.mem_append.mp hm' with hm' | hm'
        · rw [hb]
          exact hlane _ m' hm'
        · rw [List.mem_singleton.mp hm', hb]
      · rw [Bool.eq_not_of_ne hb, ho, ← Bool.eq_not_of_ne hb] at hm'
        exact hlane b m' hm'
    · intro b m' hm'
      rw [ha]
      by_cases hb : b = lane m
      · rw [hb, hq] at hm'
        rcases List.mem_append.mp hm' with hm' | hm'
        · exact hqueued _ m' hm'
        · rw [List.mem_singleton.mp hm', ← hpre, hu]
          simp
      · rw [Bool.eq_not_of_ne hb, ho] at hm'
        exact hqueued _ m' hm'
    · rw [ha, ← hpre, hu, List.append_assoc]
      rfl
  | take m ha hu hq ho hm =>
    have hstays : ∀ b, ∀ m' ∈ t.queue b, m' ∈ s.queue b := by
      intro b m' hm'
      by_cases hb : b = lane m
      · rw [hb, hq]
        rw [hb] at hm'
        exact List.mem_cons_of_mem m hm'
      · rwa [Bool.eq_not_of_ne hb, ho, ← Bool.eq_not_of_ne hb] at hm'
    refine ⟨fun b m' hm' => hlane b m' (hstays b m' hm'), ?_, pre, by rw [ha, hu, hpre]⟩
    intro b m' hm'
    rw [ha]
    exact hqueued b m' (hstays b m' hm')

/-- Moving a message to its queue leaves it pending. -/
lemma pending_relay (hlane : ∀ k m b, verdict k m = some b → lane m = b)
    {s t : SplitStream κ μ} {m : μ} (hu : s.unrelayed = m :: t.unrelayed)
    (hq : t.queue (lane m) = s.queue (lane m) ++ [m])
    (ho : t.queue (!lane m) = s.queue (!lane m)) (k : κ) (b : Bool) :
    Pending verdict t k b ↔ Pending verdict s k b := by
  by_cases hb : b = lane m
  · have hmem : ∀ m', m' ∈ t.unrelayed ++ t.queue b ↔ m' ∈ s.unrelayed ++ s.queue b := by
      intro m'
      rw [hu, hb, hq]
      simp only [List.mem_append, List.mem_cons, List.not_mem_nil, or_false]
      tauto
    simp only [Pending, hmem]
  · have hno : verdict k m ≠ some b := fun hv => hb (hlane k m b hv).symm
    have hqb : t.queue b = s.queue b := by
      rw [Bool.eq_not_of_ne hb, ho]
    constructor
    · rintro ⟨m', hm', hv⟩
      refine ⟨m', ?_, hv⟩
      rw [hqb] at hm'
      rw [hu, List.cons_append]
      exact List.mem_cons_of_mem m hm'
    · rintro ⟨m', hm', hv⟩
      rw [hu, List.cons_append] at hm'
      rcases List.mem_cons.mp hm' with rfl | hm'
      · exact absurd hv hno
      · exact ⟨m', by rw [hqb]; exact hm', hv⟩

/-- Taking a message takes it away, and no other. -/
lemma pending_take {s t : SplitStream κ μ} {m : μ} (hu : t.unrelayed = s.unrelayed)
    (hq : s.queue (lane m) = m :: t.queue (lane m))
    (ho : t.queue (!lane m) = s.queue (!lane m)) {k : κ} {b : Bool} (h : verdict k m ≠ some b) :
    Pending verdict t k b ↔ Pending verdict s k b := by
  have hmem : ∀ m', m' ∈ s.unrelayed ++ s.queue b ↔
      m' ∈ t.unrelayed ++ t.queue b ∨ (m' = m ∧ b = lane m) := by
    intro m'
    by_cases hb : b = lane m
    · rw [hu, hb, hq]
      simp only [List.mem_append, List.mem_cons, and_true]
      tauto
    · rw [hu, Bool.eq_not_of_ne hb, ho]
      simp
  simp only [Pending, hmem]
  constructor
  · rintro ⟨m', hm', hv⟩
    exact ⟨m', Or.inl hm', hv⟩
  · rintro ⟨m', hm' | ⟨rfl, -⟩, hv⟩
    · exact ⟨m', hm', hv⟩
    · exact absurd hv h

/-- What is still to be moved has arrived last: when it speaks of a key, then as the last
message about the key does. -/
lemma Placed.lastVerdict_unrelayed {s : SplitStream κ μ} (h : Placed lane s) {k : κ} {m : μ}
    (hm : m ∈ s.unrelayed) {b : Bool} (hv : verdict k m = some b) :
    lastVerdict verdict k s.unrelayed = lastVerdict verdict k s.arrived := by
  obtain ⟨pre, hpre⟩ := h.suffix
  rw [← hpre, lastVerdict_append]
  cases hl : lastVerdict verdict k s.unrelayed with
  | none =>
    have := lastVerdict_eq_none.mp hl m hm
    rw [hv] at this
    exact absurd this (by simp)
  | some b' => rfl

/-- A message about a key is what settles it. -/
lemma settled_arrive_iff {s t : SplitStream κ μ} {k : κ} {m : μ}
    (ha : t.arrived = s.arrived ++ [m]) (hu : t.unrelayed = s.unrelayed ++ [m])
    (hq : t.queue = s.queue) (hm : t.member = s.member) :
    Settled verdict t k ↔ Settled verdict s k ∨ (verdict k m).isSome := by
  have hlast : lastVerdict verdict k t.arrived
      = (verdict k m).or (lastVerdict verdict k s.arrived) := by
    rw [ha, lastVerdict_append]
    cases hv : verdict k m <;> simp [lastVerdict, hv]
  cases hv : verdict k m with
  | some b =>
    have hsettled : Settled verdict t k := by
      rw [Settled, hlast, hv]
      refine Or.inl ⟨m, ?_, hv⟩
      rw [hu]
      simp
    simp [hsettled]
  | none =>
    have hpend : ∀ b, Pending verdict t k b ↔ Pending verdict s k b := by
      intro b
      simp only [Pending, hu, hq, List.mem_append, List.mem_singleton]
      constructor
      · rintro ⟨m', (hm' | rfl) | hm', hv'⟩
        · exact ⟨m', Or.inl hm', hv'⟩
        · exact absurd hv' (by simp [hv])
        · exact ⟨m', Or.inr hm', hv'⟩
      · rintro ⟨m', hm' | hm', hv'⟩
        · exact ⟨m', Or.inl (Or.inl hm'), hv'⟩
        · exact ⟨m', Or.inr hm', hv'⟩
    simp [Settled, hlast, hv, hpend, hm]

section Take

variable {s t : SplitStream κ μ} {k : κ} {m : μ}

/-- The newest message about a key overtakes when an older one, which says the contrary, is still
pending after it. -/
lemma Placed.overtakes_iff (hp : Placed lane s) (hlane : ∀ k m b, verdict k m = some b → lane m = b)
    (hu : t.unrelayed = s.unrelayed) (hq : s.queue (lane m) = m :: t.queue (lane m))
    (ho : t.queue (!lane m) = s.queue (!lane m)) (hv : verdict k m = some (lane m))
    (hl : lastVerdict verdict k s.arrived = some (lane m)) :
    Overtakes verdict s k (lane m) ↔
      ¬ Pending verdict t k (lane m) ∧ Pending verdict t k (!lane m) := by
  constructor
  · rintro ⟨m', rest, hq', -, -, hnewest, m₀, hm₀, hv₀⟩
    obtain ⟨rfl, rfl⟩ := List.cons.inj (hq.symm.trans hq')
    refine ⟨?_, m₀, by rw [ho]; exact List.mem_append_right _ hm₀, ?_⟩
    · rintro ⟨m₁, hm₁, hv₁⟩
      rw [hu] at hm₁
      exact hnewest m₁ (List.mem_append.mpr (List.mem_append.mp hm₁).symm) hv₁
    · obtain ⟨b, hb⟩ := Option.ne_none_iff_exists'.mp hv₀
      rw [hb, ← hlane k m₀ b hb, hp.lane _ m₀ hm₀]
  · rintro ⟨hno, m₀, hm₀, hv₀⟩
    have hnewest : ∀ m' ∈ t.queue (lane m) ++ s.unrelayed, verdict k m' ≠ some (lane m) := by
      intro m' hm' hv'
      refine hno ⟨m', ?_, hv'⟩
      rw [hu]
      exact List.mem_append.mpr (List.mem_append.mp hm').symm
    refine ⟨m, _, hq, hv, hl, hnewest, m₀, ?_, by simp [hv₀]⟩
    rw [hu, ho] at hm₀
    refine (List.mem_append.mp hm₀).resolve_left fun hm₀ => ?_
    -- what is still to be moved would have arrived after the newest message
    have hlast := hp.lastVerdict_unrelayed hm₀ hv₀
    rw [hl] at hlast
    obtain ⟨m', hm', hv'⟩ := exists_of_lastVerdict hlast
    exact hnewest m' (List.mem_append_right _ hm') hv'

/-- Taking a message leaves a key as settled as it was, unless the message overtakes an older one
about the key. -/
lemma Placed.settled_take_iff (hp : Placed lane s)
    (hlane : ∀ k m b, verdict k m = some b → lane m = b) (ha : t.arrived = s.arrived)
    (hu : t.unrelayed = s.unrelayed) (hq : s.queue (lane m) = m :: t.queue (lane m))
    (ho : t.queue (!lane m) = s.queue (!lane m)) (hm : t.member = after verdict m s.member) :
    Settled verdict t k ↔ ¬ Overtakes verdict s k (lane m) ∧ Settled verdict s k := by
  cases hv : verdict k m with
  | none =>
    have hno : ¬ Overtakes verdict s k (lane m) := by
      rintro ⟨m', rest, hq', hv', -⟩
      obtain ⟨rfl, -⟩ := List.cons.inj (hq.symm.trans hq')
      rw [hv] at hv'
      cases hv'
    have hpend : ∀ b, Pending verdict t k b ↔ Pending verdict s k b := fun b =>
      pending_take hu hq ho (by simp [hv])
    have hmem : t.member k ↔ s.member k := by
      rw [hm, after, hv]
    simp [hno, Settled, ha, hpend, hmem]
  | some b₀ =>
    have hb₀ : lane m = b₀ := hlane k m b₀ hv
    subst hb₀
    have hfront : m ∈ s.queue (lane m) := by
      rw [hq]
      simp
    have hpend : Pending verdict s k (lane m) := ⟨m, List.mem_append_right _ hfront, hv⟩
    have hmem : t.member k ↔ lane m = true := by
      rw [hm, after, hv]
    cases hl : lastVerdict verdict k s.arrived with
    | none =>
      have hnone := lastVerdict_eq_none.mp hl m (hp.queued _ m hfront)
      rw [hv] at hnone
      cases hnone
    | some b =>
      by_cases hb : b = lane m
      · subst hb
        rw [hp.overtakes_iff hlane hu hq ho hv hl]
        simp only [Settled, ha, hl, hmem, hpend]
        tauto
      · -- a newer message, which says the contrary, is still pending or has been taken
        obtain rfl : b = !lane m := Bool.eq_not_of_ne hb
        have hno : ¬ Overtakes verdict s k (lane m) := by
          rintro ⟨_, _, -, -, hl', -⟩
          exact hb (Option.some.inj (hl.symm.trans hl'))
        have hstill : Pending verdict t k (!lane m) ↔ Pending verdict s k (!lane m) :=
          pending_take hu hq ho (by simp [hv])
        simp [Settled, ha, hl, hno, hstill, hpend, hmem]

end Take

/-- Whether a key is settled, after a step: a message about it that arrives makes it so, and taking
one that overtakes an older one makes it not so. -/
theorem Step.settled_iff (hlane : ∀ k m b, verdict k m = some b → lane m = b)
    {o : Option Bool} {s t : SplitStream κ μ} (hp : Placed lane s) (hs : Step verdict lane o s t)
    {k : κ} : Settled verdict t k ↔ ¬ (∃ b, o = some b ∧ Overtakes verdict s k b) ∧
      (Settled verdict s k ∨ ∃ m, t.arrived = s.arrived ++ [m] ∧ (verdict k m).isSome) := by
  cases hs with
  | arrive m ha hu hq hm =>
    rw [settled_arrive_iff ha hu hq hm, ha]
    simp
  | relay m ha hu hq ho hm =>
    simp [Settled, ha, hm, pending_relay hlane hu hq ho]
  | take m ha hu hq ho hm =>
    rw [hp.settled_take_iff hlane ha hu hq ho hm, ha]
    simp

/-- What a step preserves, when messages are taken in order. -/
lemma Settled.step (hlane : ∀ k m b, verdict k m = some b → lane m = b)
    {o : Option Bool} {s t : SplitStream κ μ} (hp : Placed lane s) (hs : Step verdict lane o s t)
    (hord : ∀ b ∈ o, InOrder verdict s b) {k : κ} (h : Settled verdict s k) :
    Settled verdict t k := by
  refine (hs.settled_iff hlane hp).mpr ⟨?_, Or.inl h⟩
  rintro ⟨b, ho, hover⟩
  exact (hord b ho).not_overtakes k hover

/-- When everything has been taken, a key is settled exactly if it is in just when the last message
about it said so. -/
theorem settled_iff_of_drained {s : SplitStream κ μ} {k : κ} (hu : s.unrelayed = [])
    (hq : ∀ b, s.queue b = []) : Settled verdict s k ↔
      (s.member k ↔ lastVerdict verdict k s.arrived = some true) := by
  have hnone : ∀ b, ¬ Pending verdict s k b := by
    rintro b ⟨m, hm, -⟩
    simp [hu, hq] at hm
  rw [Settled]
  cases lastVerdict verdict k s.arrived with
  | none => simp [hnone]
  | some b => simp [hnone]

/-! ### One message at a time -/

/-- Every message that is still to be taken satisfies `P`. -/
def AllWaiting (P : μ → Prop) (s : SplitStream κ μ) : Prop :=
  ∀ b, ∀ m ∈ s.unrelayed ++ s.queue b, P m

lemma AllWaiting.not_pending {P : μ → Prop} {s : SplitStream κ μ} (h : AllWaiting P s) {k : κ}
    {b : Bool} (hP : ∀ m, P m → verdict k m ≠ some b) : ¬ Pending verdict s k b := by
  rintro ⟨m, hm, hv⟩
  exact hP m (h b m hm) hv

lemma AllWaiting.step {P : μ → Prop} {o : Option Bool} {s t : SplitStream κ μ}
    (h : AllWaiting P s) (hs : Step verdict lane o s t) (ha : ∀ m ∈ t.arrived, P m) :
    AllWaiting P t := by
  intro b m hm
  cases hs with
  | arrive m₀ ha₀ hu hq =>
    rw [hu, hq, List.append_assoc] at hm
    rcases List.mem_append.mp hm with hm | hm
    · exact h b m (List.mem_append_left _ hm)
    · rcases List.mem_append.mp hm with hm | hm
      · refine ha m ?_
        rw [ha₀]
        exact List.mem_append_right _ hm
      · exact h b m (List.mem_append_right _ hm)
  | relay m₀ _ hu hq ho =>
    rcases List.mem_append.mp hm with hm | hm
    · exact h b m (by simp [hu, hm])
    · by_cases hb : b = lane m₀
      · rw [hb, hq] at hm
        rcases List.mem_append.mp hm with hm | hm
        · exact h (lane m₀) m (List.mem_append_right _ hm)
        · rw [List.mem_singleton.mp hm]
          exact h b m₀ (by simp [hu])
      · rw [Bool.eq_not_of_ne hb, ho, ← Bool.eq_not_of_ne hb] at hm
        exact h b m (List.mem_append_right _ hm)
  | take m₀ _ hu hq ho =>
    rcases List.mem_append.mp hm with hm | hm
    · rw [hu] at hm
      exact h b m (List.mem_append_left _ hm)
    · by_cases hb : b = lane m₀
      · rw [hb] at hm
        refine h (lane m₀) m (List.mem_append_right _ ?_)
        rw [hq]
        exact List.mem_cons_of_mem m₀ hm
      · rw [Bool.eq_not_of_ne hb, ho, ← Bool.eq_not_of_ne hb] at hm
        exact h b m (List.mem_append_right _ hm)

/-- A message that puts a key in is still to be taken, or the key is in. -/
theorem Step.pending_or_member (hlane : ∀ k m b, verdict k m = some b → lane m = b)
    {o : Option Bool} {s t : SplitStream κ μ} (hs : Step verdict lane o s t) {k : κ}
    (h : Pending verdict s k true) : Pending verdict t k true ∨ t.member k := by
  cases hs with
  | arrive m _ hu hq =>
    obtain ⟨m', hm', hv⟩ := h
    refine Or.inl ⟨m', ?_, hv⟩
    rw [hu, hq, List.append_assoc]
    rcases List.mem_append.mp hm' with hm' | hm' <;> simp [hm']
  | relay m _ hu hq ho => exact Or.inl ((pending_relay hlane hu hq ho k true).mpr h)
  | take m _ hu hq ho hm =>
    by_cases hv : verdict k m = some true
    · right
      rw [hm, after, hv]
    · exact Or.inl ((pending_take hu hq ho hv).mpr h)

/-- A key stays in as long as nothing that puts it out is still to be taken. -/
lemma Step.member_stays (hlane : ∀ k m b, verdict k m = some b → lane m = b) {o : Option Bool}
    {s t : SplitStream κ μ} (hs : Step verdict lane o s t) {k : κ} (h : s.member k)
    (hno : ¬ Pending verdict s k false) : t.member k := by
  cases hs with
  | arrive m _ _ _ hm => rwa [hm]
  | relay m _ _ _ _ hm => rwa [hm]
  | take m _ _ hq _ hm =>
    rw [hm, after]
    cases hv : verdict k m with
    | none => exact h
    | some b =>
      cases b with
      | true => rfl
      | false =>
        refine absurd ⟨m, ?_, hv⟩ hno
        rw [← hlane k m false hv, hq]
        simp

/-- A key comes in when a message that puts it in is taken. -/
lemma Step.member_cases (hlane : ∀ k m b, verdict k m = some b → lane m = b) {o : Option Bool}
    {s t : SplitStream κ μ} (hs : Step verdict lane o s t) {k : κ} (h : t.member k) :
    s.member k ∨ Pending verdict s k true := by
  cases hs with
  | arrive m _ _ _ hm => exact Or.inl (by rwa [hm] at h)
  | relay m _ _ _ _ hm => exact Or.inl (by rwa [hm] at h)
  | take m _ _ hq _ hm =>
    rw [hm, after] at h
    cases hv : verdict k m with
    | none =>
      rw [hv] at h
      exact Or.inl h
    | some b =>
      rw [hv] at h
      have hb : b = true := h
      subst hb
      refine Or.inr ⟨m, ?_, hv⟩
      rw [← hlane k m true hv, hq]
      simp

end SplitStream

end Lib
