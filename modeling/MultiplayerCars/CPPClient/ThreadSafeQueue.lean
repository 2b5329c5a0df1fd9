import MultiplayerCars.Lib.Fifo
import MultiplayerCars.Lib.SharedObject

/-!
# The queue between the threads

A `ThreadSafeQueue` is a queue with a mutex and a condition variable.  `push` inserts its item with
the mutex locked, and notifies one of the threads that wait after it has unlocked it; `front` waits
until the queue is not empty, which it tests with the mutex locked; `pop` removes an element, and
there must be one.  `isEmpty` and `getSize` lock nothing.  A thread that waits may wake up although
nobody has notified it.
-/

namespace MultiplayerCars.CPPClient

open Lib Lib.Machine

/-- The calls that lock the mutex. -/
inductive QueueOp (α : Type*)
  | push (item : α)
  | front
  | pop
deriving DecidableEq, Repr

/-- What a thread does next. -/
inductive QueuePc (α : Type*)
  | outside
  | pushLock (item : α) | pushInsert (item : α) | pushUnlock (item : α) | pushNotify (item : α)
  | frontLock | frontTest | frontAsleep | frontWoken | frontRead | frontUnlock (item : α)
  | popLock | popRemove | popUnlock
deriving DecidableEq, Repr

namespace QueuePc

variable {α : Type*}

/-- The thread has locked the mutex. -/
def locked : QueuePc α → Bool
  | .pushInsert _ | .pushUnlock _ | .frontTest | .frontRead | .frontUnlock _ | .popRemove
  | .popUnlock => true
  | _ => false

def isOutside : QueuePc α → Bool
  | .outside => true
  | _ => false

/-- The thread waits for the condition variable. -/
def isAsleep : QueuePc α → Bool
  | .frontAsleep => true
  | _ => false

end QueuePc

def QueueOp.entry {α : Type*} : QueueOp α → QueuePc α
  | .push item => .pushLock item
  | .front => .frontLock
  | .pop => .popLock

structure ThreadSafeQueue (ι α : Type*) where
  /-- The thread that has locked the mutex. -/
  mutex : Option ι
  queue : List α
  pc : ι → QueuePc α

inductive QueueAct (ι α : Type*)
  /-- A thread begins a call. -/
  | begin (i : ι) (op : QueueOp α)
  /-- A thread reads `isEmpty()`. -/
  | isEmpty (i : ι)
  /-- A thread in a call goes on. -/
  | next (i : ι)
  /-- `notify_one` wakes up this thread, or finds nobody waiting. -/
  | notifyOne (i : ι) (woken : Option ι)
  /-- A thread wakes up without being notified. -/
  | spurious (j : ι)
deriving DecidableEq, Repr

namespace ThreadSafeQueue

variable {ι α : Type*}

def start : ThreadSafeQueue ι α := ⟨none, [], fun _ => .outside⟩

def isEmpty (s : ThreadSafeQueue ι α) : Bool := s.queue.isEmpty

def getSize (s : ThreadSafeQueue ι α) : ℕ := s.queue.length

variable [DecidableEq ι]

def goto (s : ThreadSafeQueue ι α) (i : ι) (p : QueuePc α) : ThreadSafeQueue ι α :=
  { s with pc := Function.update s.pc i p }

/-- A thread locks the mutex, if it is free. -/
def lock (s : ThreadSafeQueue ι α) (i : ι) (p : QueuePc α) : Option (ThreadSafeQueue ι α) :=
  if s.mutex = none then some { s.goto i p with mutex := some i } else none

def unlock (s : ThreadSafeQueue ι α) (i : ι) (p : QueuePc α) : ThreadSafeQueue ι α :=
  { s.goto i p with mutex := none }

/-- The next step of a thread in a call.  Where nothing follows, the thread waits, or it has still
to notify, or it pops from an empty queue, which is undefined. -/
def next (s : ThreadSafeQueue ι α) (i : ι) : Option (ThreadSafeQueue ι α) :=
  match s.pc i with
  | .pushLock item => s.lock i (.pushInsert item)
  | .pushInsert item => some { s.goto i (.pushUnlock item) with queue := s.queue ++ [item] }
  | .pushUnlock item => some (s.unlock i (.pushNotify item))
  | .frontLock => s.lock i .frontTest
  | .frontTest =>
    -- `wait` unlocks the mutex and falls asleep at once
    if s.queue = [] then some (s.unlock i .frontAsleep) else some (s.goto i .frontRead)
  | .frontWoken => s.lock i .frontTest
  | .frontRead => s.queue.head?.map fun item => s.goto i (.frontUnlock item)
  | .frontUnlock _ => some (s.unlock i .outside)
  | .popLock => s.lock i .popRemove
  | .popRemove =>
    match s.queue with
    | [] => none
    | _ :: rest => some { s.goto i .popUnlock with queue := rest }
  | .popUnlock => some (s.unlock i .outside)
  | .outside | .pushNotify _ | .frontAsleep => none

variable [Fintype ι]

def step (s : ThreadSafeQueue ι α) : QueueAct ι α → Option (ThreadSafeQueue ι α)
  | .begin i op => if (s.pc i).isOutside then some (s.goto i op.entry) else none
  | .isEmpty i => if (s.pc i).isOutside then some s else none
  | .next i => s.next i
  | .notifyOne i woken =>
    match s.pc i, woken with
    | .pushNotify _, some j =>
      if (s.pc j).isAsleep then some ((s.goto i .outside).goto j .frontWoken) else none
    | .pushNotify _, none =>
      if ∀ j, (s.pc j).isAsleep = false then some (s.goto i .outside) else none
    | _, _ => none
  | .spurious j => if (s.pc j).isAsleep then some (s.goto j .frontWoken) else none

end ThreadSafeQueue

/-- A queue and the threads that share it. -/
def threadSafeQueue (ι α : Type*) [DecidableEq ι] [Fintype ι] :
    Machine (ThreadSafeQueue ι α) (QueueAct ι α) where
  init := ThreadSafeQueue.start
  step := ThreadSafeQueue.step

/-! ### The steps -/

section Steps

variable {ι α : Type*} [DecidableEq ι] [Fintype ι] {s s' : ThreadSafeQueue ι α}
  {a : QueueAct ι α} {i : ι}

lemma QueuePc.eq_outside {p : QueuePc α} (h : p.isOutside) : p = .outside := by
  cases p <;> simp_all [QueuePc.isOutside]

lemma QueuePc.isAsleep_iff {p : QueuePc α} : p.isAsleep ↔ p = .frontAsleep := by
  cases p <;> simp [QueuePc.isAsleep]

/-- How a thread locks the mutex. -/
inductive Locks : QueuePc α → QueuePc α → Prop
  | push (item : α) : Locks (.pushLock item) (.pushInsert item)
  | front : Locks .frontLock .frontTest
  | woken : Locks .frontWoken .frontTest
  | pop : Locks .popLock .popRemove

/-- How a thread unlocks it without waiting. -/
inductive Unlocks : QueuePc α → QueuePc α → Prop
  | push (item : α) : Unlocks (.pushUnlock item) (.pushNotify item)
  | front (item : α) : Unlocks (.frontUnlock item) .outside
  | pop : Unlocks .popUnlock .outside

/-- What a step does. -/
inductive QueueStep (s : ThreadSafeQueue ι α) :
    QueueAct ι α → ThreadSafeQueue ι α → Prop
  | begin (i : ι) (op : QueueOp α) (hi : s.pc i = .outside) :
      QueueStep s (.begin i op) (s.goto i op.entry)
  | isEmpty (i : ι) (hi : s.pc i = .outside) : QueueStep s (.isEmpty i) s
  | lock {i : ι} {p : QueuePc α} (hp : Locks (s.pc i) p) (hm : s.mutex = none) :
      QueueStep s (.next i) { s.goto i p with mutex := some i }
  | unlock {i : ι} {p : QueuePc α} (hp : Unlocks (s.pc i) p) :
      QueueStep s (.next i) (s.unlock i p)
  | insert {i : ι} {item : α} (hi : s.pc i = .pushInsert item) :
      QueueStep s (.next i) { s.goto i (.pushUnlock item) with queue := s.queue ++ [item] }
  | sleep {i : ι} (hi : s.pc i = .frontTest) (hq : s.queue = []) :
      QueueStep s (.next i) (s.unlock i .frontAsleep)
  | pass {i : ι} (hi : s.pc i = .frontTest) (hq : s.queue ≠ []) :
      QueueStep s (.next i) (s.goto i .frontRead)
  | read {i : ι} {item : α} (hi : s.pc i = .frontRead) (hq : s.queue.head? = some item) :
      QueueStep s (.next i) (s.goto i (.frontUnlock item))
  | remove {i : ι} {item : α} {rest : List α} (hi : s.pc i = .popRemove)
      (hq : s.queue = item :: rest) :
      QueueStep s (.next i) { s.goto i .popUnlock with queue := rest }
  | wake {i j : ι} {item : α} (hi : s.pc i = .pushNotify item) (hj : s.pc j = .frontAsleep) :
      QueueStep s (.notifyOne i (some j)) ((s.goto i .outside).goto j .frontWoken)
  | miss {i : ι} {item : α} (hi : s.pc i = .pushNotify item)
      (hnone : ∀ j, s.pc j ≠ .frontAsleep) :
      QueueStep s (.notifyOne i none) (s.goto i .outside)
  | spurious {j : ι} (hj : s.pc j = .frontAsleep) :
      QueueStep s (.spurious j) (s.goto j .frontWoken)

omit [Fintype ι] in
lemma queueStep_of_lock {p : QueuePc α} (hp : Locks (s.pc i) p) (h : s.lock i p = some s') :
    QueueStep s (.next i) s' := by
  obtain ⟨hm, he⟩ := Option.ite_none_right_eq_some.mp h
  rw [← Option.some.inj he]
  exact .lock hp hm

omit [Fintype ι] in
lemma queueStep_of_next (h : s.next i = some s') : QueueStep s (.next i) s' := by
  rw [ThreadSafeQueue.next] at h
  split at h
  case h_1 item hi =>
    exact queueStep_of_lock (hi ▸ .push item) h
  case h_2 item hi =>
    rw [← Option.some.inj h]
    exact .insert hi
  case h_3 item hi =>
    rw [← Option.some.inj h]
    exact .unlock (hi ▸ .push item)
  case h_4 hi => exact queueStep_of_lock (hi ▸ .front) h
  case h_5 hi =>
    split_ifs at h with hq
    · rw [← Option.some.inj h]
      exact .sleep hi hq
    · rw [← Option.some.inj h]
      exact .pass hi hq
  case h_6 hi => exact queueStep_of_lock (hi ▸ .woken) h
  case h_7 hi =>
    obtain ⟨item, hq, rfl⟩ := Option.map_eq_some_iff.mp h
    exact .read hi hq
  case h_8 item hi =>
    rw [← Option.some.inj h]
    exact .unlock (hi ▸ .front item)
  case h_9 hi => exact queueStep_of_lock (hi ▸ .pop) h
  case h_10 hi =>
    split at h
    · cases h
    · rename_i item rest hq
      rw [← Option.some.inj h]
      exact .remove hi hq
  case h_11 hi =>
    rw [← Option.some.inj h]
    exact .unlock (hi ▸ .pop)
  all_goals cases h

lemma queueStep_of_step (h : (threadSafeQueue ι α).step s a = some s') : QueueStep s a s' := by
  change s.step a = some s' at h
  cases a with
  | begin i op =>
    obtain ⟨hi, he⟩ := Option.ite_none_right_eq_some.mp h
    rw [← Option.some.inj he]
    exact .begin i op (QueuePc.eq_outside hi)
  | isEmpty i =>
    obtain ⟨hi, he⟩ := Option.ite_none_right_eq_some.mp h
    rw [← Option.some.inj he]
    exact .isEmpty i (QueuePc.eq_outside hi)
  | next i => exact queueStep_of_next h
  | notifyOne i woken =>
    unfold ThreadSafeQueue.step at h
    dsimp only at h
    split at h
    · rename_i item j hi
      obtain ⟨hj, he⟩ := Option.ite_none_right_eq_some.mp h
      rw [← Option.some.inj he]
      exact .wake hi (QueuePc.isAsleep_iff.mp hj)
    · rename_i item hi
      obtain ⟨hnone, he⟩ := Option.ite_none_right_eq_some.mp h
      rw [← Option.some.inj he]
      refine .miss hi fun j hj => ?_
      have := hnone j
      simp [hj, QueuePc.isAsleep] at this
    · cases h
  | spurious j =>
    obtain ⟨hj, he⟩ := Option.ite_none_right_eq_some.mp h
    rw [← Option.some.inj he]
    exact .spurious (QueuePc.isAsleep_iff.mp hj)

end Steps

/-! ### The calls take effect one after the other -/

section Effects

variable {ι α : Type*}

/-- The call that has taken effect. -/
def opOf : QueueCall α → QueueOp α
  | .push item => .push item
  | .front _ => .front
  | .pop => .pop

def QueuePc.stage : QueuePc α → CallStage (QueueOp α) (QueueCall α)
  | .outside => .idle
  | .pushLock item | .pushInsert item => .pending (.push item)
  | .pushUnlock item | .pushNotify item => .done (.push item)
  | .frontLock | .frontTest | .frontAsleep | .frontWoken | .frontRead => .pending .front
  | .frontUnlock item => .done (.front item)
  | .popLock | .popRemove => .pending .pop
  | .popUnlock => .done .pop

/-- A call takes effect when it inserts, reads or removes an element, and returns what it took
effect with. -/
def ThreadSafeQueue.mark (s : ThreadSafeQueue ι α) :
    QueueAct ι α → ι × CallMark (QueueOp α) (QueueCall α)
  | .begin i op => (i, .begins op)
  | .next i =>
    match s.pc i, s.queue.head? with
    | .pushInsert item, _ => (i, .effect (.push item))
    | .frontRead, some item => (i, .effect (.front item))
    | .popRemove, _ => (i, .effect .pop)
    | .frontUnlock item, _ => (i, .returns (.front item))
    | .popUnlock, _ => (i, .returns .pop)
    | _, _ => (i, .silent)
  | .notifyOne i _ =>
    match s.pc i with
    | .pushNotify item => (i, .returns (.push item))
    | _ => (i, .silent)
  | .isEmpty i | .spurious i => (i, .silent)

variable {s s' : ThreadSafeQueue ι α} {a : QueueAct ι α} {i : ι} {p : QueuePc α}

lemma mark_lock (hp : Locks (s.pc i) p) : s.mark (.next i) = (i, .silent) := by
  generalize hi : s.pc i = q at hp
  cases hp <;> simp [ThreadSafeQueue.mark, hi]

lemma stage_lock (hp : Locks (s.pc i) p) : p.stage = (s.pc i).stage := by
  generalize s.pc i = q at hp
  cases hp <;> rfl

lemma goes_unlock (hp : Unlocks (s.pc i) p) :
    CallStage.Goes opOf (s.pc i).stage (s.mark (.next i)).2 p.stage := by
  generalize hi : s.pc i = q at hp
  cases hp with
  | push item =>
    simp only [ThreadSafeQueue.mark, hi]
    exact .silent _
  | front item =>
    simp only [ThreadSafeQueue.mark, hi]
    exact .returns _
  | pop =>
    simp only [ThreadSafeQueue.mark, hi]
    exact .returns _

/-- The thread that takes a step. -/
def QueueAct.thread : QueueAct ι α → ι
  | .begin i _ | .isEmpty i | .next i | .notifyOne i _ | .spurious i => i

lemma mark_thread (s : ThreadSafeQueue ι α) (a : QueueAct ι α) : (s.mark a).1 = a.thread := by
  cases a with
  | next i =>
    simp only [ThreadSafeQueue.mark, QueueAct.thread]
    split <;> rfl
  | notifyOne i woken =>
    simp only [ThreadSafeQueue.mark, QueueAct.thread]
    split <;> rfl
  | _ => rfl

variable [DecidableEq ι]

@[simp] lemma goto_pc (s : ThreadSafeQueue ι α) (i : ι) (p : QueuePc α) :
    (s.goto i p).pc = Function.update s.pc i p := rfl

@[simp] lemma goto_queue (s : ThreadSafeQueue ι α) (i : ι) (p : QueuePc α) :
    (s.goto i p).queue = s.queue := rfl

@[simp] lemma unlock_pc (s : ThreadSafeQueue ι α) (i : ι) (p : QueuePc α) :
    (s.unlock i p).pc = Function.update s.pc i p := rfl

/-- The mark of a step is what the step is to the thread that takes it. -/
lemma goes_of_step (hs : QueueStep s a s') :
    CallStage.Goes opOf (s.pc (s.mark a).1).stage (s.mark a).2 (s'.pc (s.mark a).1).stage := by
  rw [mark_thread]
  cases hs with
  | begin i op hi =>
    simp only [QueueAct.thread, goto_pc, Function.update_self, hi]
    cases op <;> exact .begins _
  | isEmpty i hi => exact .silent _
  | lock hp hm =>
    simp only [QueueAct.thread, goto_pc, Function.update_self, mark_lock hp, stage_lock hp]
    exact .silent _
  | unlock hp =>
    simp only [QueueAct.thread, unlock_pc, Function.update_self]
    exact goes_unlock hp
  | @insert i item hi =>
    simp only [QueueAct.thread, goto_pc, Function.update_self, ThreadSafeQueue.mark, hi]
    exact .effect (QueueCall.push item)
  | sleep hi hq =>
    simp only [QueueAct.thread, unlock_pc, Function.update_self, ThreadSafeQueue.mark, hi]
    exact .silent _
  | pass hi hq =>
    simp only [QueueAct.thread, goto_pc, Function.update_self, ThreadSafeQueue.mark, hi]
    exact .silent _
  | @read i item hi hq =>
    simp only [QueueAct.thread, goto_pc, Function.update_self, ThreadSafeQueue.mark, hi, hq]
    exact .effect (QueueCall.front item)
  | remove hi hq =>
    simp only [QueueAct.thread, goto_pc, Function.update_self, ThreadSafeQueue.mark, hi]
    exact .effect QueueCall.pop
  | @wake i j item hi hj =>
    have hij : i ≠ j := by
      rintro rfl
      rw [hi] at hj
      cases hj
    simp only [QueueAct.thread, goto_pc, Function.update_of_ne hij, Function.update_self,
      ThreadSafeQueue.mark, hi]
    exact .returns _
  | miss hi hnone =>
    simp only [QueueAct.thread, goto_pc, Function.update_self, ThreadSafeQueue.mark, hi]
    exact .returns _
  | spurious hj =>
    simp only [QueueAct.thread, goto_pc, Function.update_self, ThreadSafeQueue.mark, hj]
    exact .silent _

/-- A thread that is woken up is in the call in which it fell asleep. -/
lemma stage_other (hs : QueueStep s a s') {i : ι} (hi : i ≠ (s.mark a).1) :
    (s'.pc i).stage = (s.pc i).stage := by
  rw [mark_thread] at hi
  cases hs with
  | isEmpty => rfl
  | @wake k j item hk hj =>
    simp only [QueueAct.thread] at hi
    by_cases hij : i = j
    · subst hij
      simp only [goto_pc, Function.update_self, hj]
      rfl
    · simp only [goto_pc, Function.update_of_ne hij, Function.update_of_ne hi]
  | _ =>
    simp only [QueueAct.thread] at hi
    simp only [goto_pc, unlock_pc, Function.update_of_ne hi]

variable [Fintype ι] [DecidableEq α]

/-- The effects are calls of a queue that nobody shares. -/
lemma replay_effects {l : List (ThreadSafeQueue ι α × QueueAct ι α)}
    (h : (threadSafeQueue ι α).Exec l s) :
    ∃ f, Fifo.replay (effects ThreadSafeQueue.mark l) = some f ∧ f.contents = s.queue := by
  induction h with
  | nil => exact ⟨Fifo.empty, rfl, rfl⟩
  | @snoc l s s' a hl hs ih =>
    obtain ⟨f, hf, hc⟩ := ih
    rw [effects_snoc]
    cases queueStep_of_step hs with
    | @insert i item hi =>
      refine ⟨{ f with contents := f.contents ++ [item] }, ?_, by simp [hc]⟩
      simp only [ThreadSafeQueue.mark, hi, CallMark.effected, Option.toList_some]
      rw [Fifo.replay_snoc, hf]
      rfl
    | @read i item hi hq =>
      refine ⟨{ f with held := some item }, ?_, hc⟩
      simp only [ThreadSafeQueue.mark, hi, hq, CallMark.effected, Option.toList_some]
      rw [Fifo.replay_snoc, hf, Option.bind_some, Fifo.call, if_pos (by rw [hc, hq])]
    | @remove i item rest hi hq =>
      refine ⟨⟨f.removed ++ [item], rest, none⟩, ?_, rfl⟩
      simp only [ThreadSafeQueue.mark, hi, CallMark.effected, Option.toList_some]
      rw [Fifo.replay_snoc, hf, Option.bind_some, Fifo.call, hc, hq]
    | lock hp =>
      refine ⟨f, ?_, hc⟩
      rw [mark_lock hp]
      simpa [CallMark.effected] using hf
    | @unlock i p hp =>
      refine ⟨f, ?_, hc⟩
      have hnone : (s.mark (.next i)).2.effected = none := by
        generalize hi : s.pc i = q at hp
        cases hp <;> simp [ThreadSafeQueue.mark, hi, CallMark.effected]
      rw [hnone]
      simpa using hf
    | sleep hi | pass hi | wake hi | miss hi =>
      refine ⟨f, ?_, hc⟩
      simpa [ThreadSafeQueue.mark, hi, CallMark.effected] using hf
    | begin | isEmpty | spurious =>
      refine ⟨f, ?_, hc⟩
      simpa [ThreadSafeQueue.mark, CallMark.effected] using hf

/-- **The queue is linearizable.**  Whatever the threads call, the calls take effect one after the
other, as the calls of a queue that nobody shares; every call takes effect once, between its
beginning and its return, and a `front` returns what was at the front then. -/
theorem queue_linearizable {l : List (ThreadSafeQueue ι α × QueueAct ι α)}
    (h : (threadSafeQueue ι α).Exec l s) :
    (∃ f, Fifo.replay (effects ThreadSafeQueue.mark l) = some f ∧ f.contents = s.queue) ∧
      ∀ i, Linearized opOf ThreadSafeQueue.mark (s.pc i).stage l i := by
  refine ⟨replay_effects h, fun i => ?_⟩
  refine linearized_of_exec (fun s i => (s.pc i).stage) (fun _ => rfl) ?_ ?_ h i
  · intro s a s' hs
    exact goes_of_step (queueStep_of_step hs)
  · intro s a s' hs i hi
    exact stage_other (queueStep_of_step hs) hi

/-- A consumer falls asleep, is woken up by the first item, and takes it. -/
def sleepyCalls : List (QueueAct (Fin 2) ℕ) :=
  [.begin 1 .front, .next 1, .next 1, .begin 0 (.push 7), .next 0, .next 0, .next 0,
    .notifyOne 0 (some 1), .next 1, .next 1, .next 1, .next 1, .begin 1 .pop, .next 1, .next 1,
    .next 1]

def sleepy : List (ThreadSafeQueue (Fin 2) ℕ × QueueAct (Fin 2) ℕ) × ThreadSafeQueue (Fin 2) ℕ :=
  ((threadSafeQueue (Fin 2) ℕ).run .start sleepyCalls).get (by decide)

theorem queue_linearizable_sleepy :
    effects ThreadSafeQueue.mark sleepy.1 = [.push 7, .front 7, .pop] ∧
      (∃ f, Fifo.replay (effects ThreadSafeQueue.mark sleepy.1) = some f ∧
        f.contents = sleepy.2.queue) ∧
      ∀ i, Linearized opOf ThreadSafeQueue.mark (sleepy.2.pc i).stage sleepy.1 i :=
  ⟨by decide, queue_linearizable (exec_get_run _)⟩

end Effects

/-! ### A queue with one consumer -/

section Consumer

variable {ι α : Type*} [DecidableEq ι] {k : ι} {s s' : ThreadSafeQueue ι α} {a : QueueAct ι α}
  {i : ι} {p : QueuePc α}

/-- Only `k` calls `front` and `pop`, and it pops only what is there. -/
def SoleConsumer (k : ι) (s : ThreadSafeQueue ι α) : QueueAct ι α → Prop
  | .begin i .front => i = k
  | .begin i .pop => i = k ∧ s.queue ≠ []
  | _ => True

instance (k : ι) (s : ThreadSafeQueue ι α) (a : QueueAct ι α) :
    Decidable (SoleConsumer k s a) :=
  match a with
  | .begin i .front => inferInstanceAs (Decidable (i = k))
  | .begin i .pop =>
    match h : s.queue with
    | [] => isFalse fun hp => hp.2 h
    | _ :: _ => if hi : i = k then isTrue ⟨hi, by simp [h]⟩ else isFalse fun hp => hi hp.1
  | .begin _ (.push _) | .isEmpty _ | .next _ | .notifyOne _ _ | .spurious _ => isTrue trivial

namespace QueuePc

/-- The thread is in `front` or `pop`. -/
def consuming : QueuePc α → Bool
  | .frontLock | .frontTest | .frontAsleep | .frontWoken | .frontRead | .frontUnlock _
  | .popLock | .popRemove | .popUnlock => true
  | _ => false

/-- The thread relies on the queue not being empty. -/
def needsItem : QueuePc α → Bool
  | .frontRead | .popLock | .popRemove => true
  | _ => false

/-- The thread has inserted an item and has still to notify. -/
def owesNotice : QueuePc α → Bool
  | .pushUnlock _ | .pushNotify _ => true
  | _ => false

/-- The steps that a thread has still to take.  A notification pays for the steps of the thread
that it wakes up. -/
def effort : QueuePc α → ℕ
  | .outside | .frontAsleep => 0
  | .frontUnlock _ | .popUnlock => 1
  | .frontRead | .popRemove => 2
  | .frontTest | .popLock => 3
  | .frontLock | .frontWoken => 4
  | .pushNotify _ => 5
  | .pushUnlock _ => 6
  | .pushInsert _ => 7
  | .pushLock _ => 8

end QueuePc

/-- What holds while `k` is the only consumer. -/
structure Served (k : ι) (s : ThreadSafeQueue ι α) : Prop where
  exclusive : MutualExclusion (fun p => QueuePc.locked p = true) s.mutex s.pc
  consumer : ∀ i, (s.pc i).consuming → i = k
  item : (s.pc k).needsItem → s.queue ≠ []
  /-- Where the consumer sleeps although there is an item, it is about to be notified. -/
  notice : (s.pc k).isAsleep → s.queue ≠ [] → ∃ i, (s.pc i).owesNotice

omit [DecidableEq ι] in
lemma Served.start : Served k (ThreadSafeQueue.start : ThreadSafeQueue ι α) where
  exclusive i := by simp [ThreadSafeQueue.start, QueuePc.locked]
  consumer i hi := by simp [ThreadSafeQueue.start, QueuePc.consuming] at hi
  item hi := by simp [ThreadSafeQueue.start, QueuePc.needsItem] at hi
  notice hi := by simp [ThreadSafeQueue.start, QueuePc.isAsleep] at hi

/-- What a step of one thread has to meet. -/
lemma Served.moved (h : Served k s) (hpc : s'.pc = Function.update s.pc i p)
    (hx : MutualExclusion (fun p => QueuePc.locked p = true) s'.mutex s'.pc)
    (hconsumer : p.consuming → i = k)
    (hkept : i ≠ k → s.queue ≠ [] → s'.queue ≠ [])
    (hitem : i = k → p.needsItem → s'.queue ≠ [])
    (hsleep : i = k → p.isAsleep → s'.queue = [])
    (hnotice : i ≠ k → (s.pc k).isAsleep → s'.queue ≠ [] →
      (s.queue ≠ [] ∧ ((s.pc i).owesNotice → p.owesNotice)) ∨ p.owesNotice) : Served k s' where
  exclusive := hx
  consumer j hj := by
    rw [hpc] at hj
    by_cases hji : j = i
    · subst hji
      rw [Function.update_self] at hj
      exact hconsumer hj
    · rw [Function.update_of_ne hji] at hj
      exact h.consumer j hj
  item hk := by
    rw [hpc] at hk
    by_cases hik : i = k
    · subst hik
      rw [Function.update_self] at hk
      exact hitem rfl hk
    · rw [Function.update_of_ne (Ne.symm hik)] at hk
      exact hkept hik (h.item hk)
  notice hk hq := by
    rw [hpc] at hk ⊢
    by_cases hik : i = k
    · subst hik
      rw [Function.update_self] at hk
      exact absurd (hsleep rfl hk) hq
    · rw [Function.update_of_ne (Ne.symm hik)] at hk
      rcases hnotice hik hk hq with ⟨hq₀, howes⟩ | howes
      · obtain ⟨j, hj⟩ := h.notice hk hq₀
        refine ⟨j, ?_⟩
        by_cases hji : j = i
        · subst hji
          rw [Function.update_self]
          exact howes hj
        · rw [Function.update_of_ne hji]
          exact hj
      · exact ⟨i, by rw [Function.update_self]; exact howes⟩

/-- A thread that sleeps is the consumer, and may wake up. -/
lemma Served.woken {j : ι} (h : Served k s) (hj : s.pc j = .frontAsleep) :
    Served k (s.goto j .frontWoken) := by
  have hjk : j = k := h.consumer j (by rw [hj]; rfl)
  refine h.moved rfl (h.exclusive.move (by simp [hj, QueuePc.locked])) (fun _ => hjk) ?_ ?_ ?_ ?_
  · exact fun _ hq => hq
  · exact fun _ hn => by simp [QueuePc.needsItem] at hn
  · exact fun _ hn => by simp [QueuePc.isAsleep] at hn
  · exact fun hne => absurd hjk hne

/-- The notification is over, and the consumer does not sleep. -/
lemma Served.notified {item : α} (h : Served k s) (hi : s.pc i = .pushNotify item)
    (hk : (s.pc k).isAsleep = false) : Served k (s.goto i .outside) := by
  refine h.moved rfl (h.exclusive.move (by simp [hi, QueuePc.locked])) ?_ ?_ ?_ ?_ ?_
  · exact fun hn => by simp [QueuePc.consuming] at hn
  · exact fun _ hq => hq
  · exact fun _ hn => by simp [QueuePc.needsItem] at hn
  · exact fun _ hn => by simp [QueuePc.isAsleep] at hn
  · intro _ hasleep
    rw [hk] at hasleep
    cases hasleep

lemma Served.step (h : Served k s) (ha : SoleConsumer k s a) (hs : QueueStep s a s') :
    Served k s' := by
  cases hs with
  | begin i op hi =>
    refine h.moved rfl (h.exclusive.move ?_) ?_ (fun _ hq => hq) ?_ ?_ ?_
    · cases op <;> simp [hi, QueuePc.locked, QueueOp.entry]
    · intro hn
      cases op with
      | push item => simp [QueueOp.entry, QueuePc.consuming] at hn
      | front => exact ha
      | pop => exact ha.1
    · intro _ hn
      cases op with
      | push item => simp [QueueOp.entry, QueuePc.needsItem] at hn
      | front => simp [QueueOp.entry, QueuePc.needsItem] at hn
      | pop => exact ha.2
    · intro _ hn
      cases op <;> simp [QueueOp.entry, QueuePc.isAsleep] at hn
    · exact fun _ _ hq => Or.inl ⟨hq, by simp [hi, QueuePc.owesNotice]⟩
  | isEmpty => exact h
  | @lock i p hp hm =>
    have hx := h.exclusive
    rw [hm] at hx
    generalize hi : s.pc i = q at hp
    have hconsumer : q.consuming → i = k := fun hq => h.consumer i (by rw [hi]; exact hq)
    have hitem : i = k → q.needsItem → s.queue ≠ [] := by
      rintro rfl hq
      exact h.item (by rw [hi]; exact hq)
    refine h.moved rfl (hx.enter ?_) ?_ (fun _ hq => hq) ?_ ?_ ?_
    · cases hp <;> rfl
    · cases hp with
      | push item => exact fun hn => by simp [QueuePc.consuming] at hn
      | front | woken | pop => exact hconsumer
    · cases hp with
      | push item | front | woken => exact fun _ hn => by simp [QueuePc.needsItem] at hn
      | pop => exact hitem
    · intro _ hn
      cases hp <;> simp [QueuePc.isAsleep] at hn
    · refine fun _ _ hq => Or.inl ⟨hq, ?_⟩
      rw [hi]
      cases hp <;> simp [QueuePc.owesNotice]
  | @unlock i p hp =>
    generalize hi : s.pc i = q at hp
    refine h.moved rfl (h.exclusive.leave (i := i) ?_ ?_) ?_ (fun _ hq => hq) ?_ ?_ ?_
    · rw [hi]
      cases hp <;> rfl
    · cases hp <;> simp [QueuePc.locked]
    · intro hn
      cases hp <;> simp [QueuePc.consuming] at hn
    · intro _ hn
      cases hp <;> simp [QueuePc.needsItem] at hn
    · intro _ hn
      cases hp <;> simp [QueuePc.isAsleep] at hn
    · refine fun _ _ hq => Or.inl ⟨hq, ?_⟩
      rw [hi]
      cases hp <;> simp [QueuePc.owesNotice]
  | @insert i item hi =>
    refine h.moved rfl (h.exclusive.move (by simp [hi, QueuePc.locked])) ?_ ?_ ?_ ?_ ?_
    · exact fun hn => by simp [QueuePc.consuming] at hn
    · exact fun _ _ => by simp
    · exact fun _ hn => by simp [QueuePc.needsItem] at hn
    · exact fun _ hn => by simp [QueuePc.isAsleep] at hn
    · exact fun _ _ _ => Or.inr rfl
  | @sleep i hi hq =>
    have hik : i = k := h.consumer i (by rw [hi]; rfl)
    refine h.moved rfl (h.exclusive.leave (by rw [hi]; rfl) (by simp [QueuePc.locked]))
      (fun _ => hik) (fun hne => absurd hik hne) ?_ (fun _ _ => hq) (fun hne => absurd hik hne)
    exact fun _ hn => by simp [QueuePc.needsItem] at hn
  | @pass i hi hq =>
    have hik : i = k := h.consumer i (by rw [hi]; rfl)
    refine h.moved rfl (h.exclusive.move (by simp [hi, QueuePc.locked]))
      (fun _ => hik) (fun hne => absurd hik hne) (fun _ _ => hq) ?_ (fun hne => absurd hik hne)
    exact fun _ hn => by simp [QueuePc.isAsleep] at hn
  | @read i item hi hq =>
    have hik : i = k := h.consumer i (by rw [hi]; rfl)
    refine h.moved rfl (h.exclusive.move (by simp [hi, QueuePc.locked]))
      (fun _ => hik) (fun hne => absurd hik hne) ?_ ?_ (fun hne => absurd hik hne)
    · exact fun _ hn => by simp [QueuePc.needsItem] at hn
    · exact fun _ hn => by simp [QueuePc.isAsleep] at hn
  | @remove i item rest hi hq =>
    have hik : i = k := h.consumer i (by rw [hi]; rfl)
    refine h.moved rfl (h.exclusive.move (by simp [hi, QueuePc.locked]))
      (fun _ => hik) (fun hne => absurd hik hne) ?_ ?_ (fun hne => absurd hik hne)
    · exact fun _ hn => by simp [QueuePc.needsItem] at hn
    · exact fun _ hn => by simp [QueuePc.isAsleep] at hn
  | @wake i j item hi hj =>
    have hij : j ≠ i := by
      rintro rfl
      rw [hi] at hj
      cases hj
    have hjk : j = k := h.consumer j (by rw [hj]; rfl)
    have hcomm : (s.goto i .outside).goto j .frontWoken
        = (s.goto j .frontWoken).goto i .outside := by
      simp only [ThreadSafeQueue.goto, Function.update_comm hij]
    rw [hcomm]
    have hi' : (s.goto j .frontWoken).pc i = .pushNotify item := by
      rw [goto_pc, Function.update_of_ne hij.symm]
      exact hi
    refine (h.woken hj).notified hi' ?_
    rw [goto_pc, ← hjk, Function.update_self]
    rfl
  | miss hi hnone =>
    refine h.notified hi ?_
    rw [Bool.eq_false_iff]
    exact fun hk => hnone k (QueuePc.isAsleep_iff.mp hk)
  | spurious hj => exact h.woken hj

variable [Fintype ι] {l : List (ThreadSafeQueue ι α × QueueAct ι α)}

lemma served_of_exec (h : (threadSafeQueue ι α).Exec l s) (hsole : Meets (SoleConsumer k) l) :
    Served k s :=
  h.invariant_of_meets (I := fun _ => True) (fun _ _ _ => trivial) .start
    (fun _ _ _ _ hk ha hs => hk.step ha (queueStep_of_step hs)) hsole

namespace QueueAct

/-- A thread goes on with its call. -/
def goesOn : QueueAct ι α → Bool
  | .next _ | .notifyOne _ _ => true
  | _ => false

def isBegin : QueueAct ι α → Bool
  | .begin _ _ => true
  | _ => false

def isSpurious : QueueAct ι α → Bool
  | .spurious _ => true
  | _ => false

end QueueAct

/-! #### Nobody is left behind -/

omit [Fintype ι] in
/-- A thread that has locked the mutex can go on. -/
lemma Served.next_of_locked (h : Served k s) (hi : (s.pc i).locked) : s.next i ≠ none := by
  have hread : s.pc i = .frontRead ∨ s.pc i = .popRemove → s.queue ≠ [] := by
    intro hpc
    have hik : i = k := h.consumer i (by rcases hpc with hpc | hpc <;> (rw [hpc]; rfl))
    subst hik
    exact h.item (by rcases hpc with hpc | hpc <;> (rw [hpc]; rfl))
  unfold ThreadSafeQueue.next
  generalize hp : s.pc i = p at hi hread
  cases p with
  | pushInsert | pushUnlock | frontUnlock | popUnlock => simp
  | frontTest =>
    dsimp only
    split_ifs <;> simp
  | frontRead =>
    obtain ⟨item, rest, hq⟩ := List.exists_cons_of_ne_nil (hread (Or.inl rfl))
    simp [hq]
  | popRemove =>
    obtain ⟨item, rest, hq⟩ := List.exists_cons_of_ne_nil (hread (Or.inr rfl))
    simp [hq]
  | _ => simp [QueuePc.locked] at hi

/-- A thread that is about to notify can do so. -/
lemma exists_notifyOne {item : α} (hi : s.pc i = .pushNotify item) :
    ∃ woken, s.step (.notifyOne i woken) ≠ none := by
  by_cases hnone : ∀ j, (s.pc j).isAsleep = false
  · refine ⟨none, ?_⟩
    simp [ThreadSafeQueue.step, hi, hnone]
  · obtain ⟨j, hj⟩ := not_forall.mp hnone
    rw [Bool.not_eq_false] at hj
    refine ⟨some j, ?_⟩
    simp [ThreadSafeQueue.step, hi, hj]

/-- When no thread can go on, all calls have returned, except a `front` that waits for an item. -/
lemma Served.all_returned (h : Served k s) (hstuck : ∀ a, a.goesOn → s.step a = none) (i : ι) :
    s.pc i = .outside ∨ i = k ∧ s.pc i = .frontAsleep ∧ s.queue = [] := by
  have hnext : ∀ j, s.next j = none := fun j => hstuck (.next j) rfl
  have hnotify : ∀ j item, s.pc j ≠ .pushNotify item := by
    intro j item hj
    obtain ⟨woken, hw⟩ := exists_notifyOne hj
    exact hw (hstuck (.notifyOne j woken) rfl)
  have hfree : s.mutex = none := by
    by_contra hm
    obtain ⟨j, hj⟩ := Option.ne_none_iff_exists'.mp hm
    exact h.next_of_locked ((h.exclusive j).mpr hj) (hnext j)
  have hlocked : ∀ j, (s.pc j).locked = false := by
    intro j
    rw [Bool.eq_false_iff]
    intro hj
    exact h.next_of_locked hj (hnext j)
  have hpc : ∀ j, s.pc j = .outside ∨ s.pc j = .frontAsleep := by
    intro j
    have hj := hnext j
    have hl := hlocked j
    unfold ThreadSafeQueue.next at hj
    cases hp : s.pc j with
    | outside => exact Or.inl rfl
    | frontAsleep => exact Or.inr rfl
    | pushNotify item => exact absurd hp (hnotify j item)
    | pushLock | frontLock | frontWoken | popLock =>
      simp [hp, ThreadSafeQueue.lock, hfree] at hj
    | _ => simp [hp, QueuePc.locked] at hl
  rcases hpc i with hi | hi
  · exact Or.inl hi
  · have hik : i = k := h.consumer i (by rw [hi]; rfl)
    refine Or.inr ⟨hik, hi, ?_⟩
    by_contra hq
    obtain ⟨j, hj⟩ := h.notice (by rw [← hik, hi]; rfl) hq
    rcases hpc j with hj' | hj' <;> simp [hj', QueuePc.owesNotice] at hj

/-! #### A call ends -/

/-- A step of a call lowers what is left to do; a thread that wakes up by itself has to look
again. -/
lemma effort_step (hs : QueueStep s a s') (ha : a.isBegin = false) :
    (if a.goesOn then 1 else 0) + totalEffort QueuePc.effort s'.pc
      ≤ totalEffort QueuePc.effort s.pc + (if a.isSpurious then 4 else 0) := by
  have hmove := totalEffort_update QueuePc.effort s.pc
  cases hs with
  | begin => cases ha
  | isEmpty => simp [QueueAct.goesOn]
  | @lock i p hp hm =>
    have he := hmove i p
    generalize s.pc i = q at hp he
    cases hp <;> simp [QueueAct.goesOn, QueueAct.isSpurious, QueuePc.effort] at he ⊢ <;> omega
  | @unlock i p hp =>
    have he := hmove i p
    generalize s.pc i = q at hp he
    cases hp <;> simp [QueueAct.goesOn, QueueAct.isSpurious, QueuePc.effort] at he ⊢ <;> omega
  | @insert i item hi =>
    have he := hmove i (.pushUnlock item)
    simp [hi, QueueAct.goesOn, QueueAct.isSpurious, QueuePc.effort] at he ⊢
    omega
  | @sleep i hi hq =>
    have he := hmove i .frontAsleep
    simp [hi, QueueAct.goesOn, QueueAct.isSpurious, QueuePc.effort] at he ⊢
    omega
  | @pass i hi hq =>
    have he := hmove i .frontRead
    simp [hi, QueueAct.goesOn, QueueAct.isSpurious, QueuePc.effort] at he ⊢
    omega
  | @read i item hi hq =>
    have he := hmove i (.frontUnlock item)
    simp [hi, QueueAct.goesOn, QueueAct.isSpurious, QueuePc.effort] at he ⊢
    omega
  | @remove i item rest hi hq =>
    have he := hmove i .popUnlock
    simp [hi, QueueAct.goesOn, QueueAct.isSpurious, QueuePc.effort] at he ⊢
    omega
  | @wake i j item hi hj =>
    have hij : j ≠ i := by
      rintro rfl
      rw [hi] at hj
      cases hj
    -- the notification costs more than the thread that wakes up has to do again
    have he := hmove i .outside
    have he' := totalEffort_update QueuePc.effort (Function.update s.pc i .outside) j .frontWoken
    simp [hi, hj, Function.update_of_ne hij, QueueAct.goesOn, QueueAct.isSpurious,
      QueuePc.effort] at he he' ⊢
    omega
  | @miss i item hi hnone =>
    have he := hmove i .outside
    simp [hi, QueueAct.goesOn, QueueAct.isSpurious, QueuePc.effort] at he ⊢
    omega
  | @spurious j hj =>
    have he := hmove j .frontWoken
    simp [hj, QueueAct.goesOn, QueueAct.isSpurious, QueuePc.effort] at he ⊢
    omega

/-- **No call is left behind.**  While one thread alone calls `front` and `pop`, and pops only what
is there, the calls in progress take no more steps than are left to do, and four for each time that
the consumer wakes up by itself; and when none of them can go on, all have returned, except a
`front` that waits because the queue is empty. -/
theorem no_call_left_behind (h : (threadSafeQueue ι α).Exec l s)
    (hsole : Meets (SoleConsumer k) l) {as : List (QueueAct ι α)}
    {r : List (ThreadSafeQueue ι α × QueueAct ι α) × ThreadSafeQueue ι α}
    (hr : (threadSafeQueue ι α).run s as = some r) (hno : ∀ a ∈ as, a.isBegin = false) :
    as.countP QueueAct.goesOn
        ≤ totalEffort QueuePc.effort s.pc + 4 * as.countP QueueAct.isSpurious ∧
      ((∀ a, a.goesOn → r.2.step a = none) →
        ∀ i, r.2.pc i = .outside ∨ i = k ∧ r.2.pc i = .frontAsleep ∧ r.2.queue = []) := by
  constructor
  · have hcount := countP_run_le
      (fun _ _ _ ha hs => effort_step (queueStep_of_step hs) ha) hr hno
    exact Nat.le_of_add_right_le hcount
  · intro hstuck
    have hk : Served k r.2 := by
      refine run_invariant ?_ hr hno (served_of_exec h hsole)
      intro s a s' (ha : a.isBegin = false) hk hs
      refine hk.step ?_ (queueStep_of_step hs)
      cases a with
      | begin => cases ha
      | _ => trivial
    exact hk.all_returned hstuck

/-- The consumer waits, and an item has been inserted. -/
def waited : List (ThreadSafeQueue (Fin 2) ℕ × QueueAct (Fin 2) ℕ) × ThreadSafeQueue (Fin 2) ℕ :=
  ((threadSafeQueue (Fin 2) ℕ).run .start (sleepyCalls.take 6)).get (by decide)

/-- The producer returns, and the consumer wakes up and takes the item. -/
def awoken : List (ThreadSafeQueue (Fin 2) ℕ × QueueAct (Fin 2) ℕ) × ThreadSafeQueue (Fin 2) ℕ :=
  ((threadSafeQueue (Fin 2) ℕ).run waited.2 ((sleepyCalls.drop 6).take 6)).get (by decide)

theorem no_call_left_behind_waited :
    awoken.2.pc 0 = .outside ∧ awoken.2.pc 1 = .outside := by
  have hsole : ∀ x ∈ waited.1, SoleConsumer 1 x.1 x.2 := by decide
  have hrun : (threadSafeQueue (Fin 2) ℕ).run waited.2 ((sleepyCalls.drop 6).take 6)
      = some awoken := by
    rw [awoken, Option.some_get]
  obtain ⟨-, hdone⟩ := no_call_left_behind (k := 1) (exec_get_run _) hsole hrun (by decide)
  have hstuck : ∀ a : QueueAct (Fin 2) ℕ, a.goesOn → awoken.2.step a = none := by
    intro a ha
    cases a with
    | next i =>
      revert i
      decide
    | notifyOne i woken =>
      cases woken with
      | none =>
        revert i
        decide
      | some j =>
        revert i j
        decide
    | _ => cases ha
  have hback : ∀ i, awoken.2.pc i = .outside := by
    intro i
    rcases hdone hstuck i with hi | ⟨-, -, hq⟩
    · exact hi
    · exact absurd hq (by decide)
  exact ⟨hback 0, hback 1⟩

-- of two consumers that wait, one may be left asleep with an item in the queue
example : ((threadSafeQueue (Fin 3) ℕ).run .start [.begin 0 .front, .next 0, .next 0,
    .begin 1 .front, .next 1, .next 1, .begin 2 (.push 7), .next 2, .next 2, .next 2,
    .notifyOne 2 (some 0), .next 0, .next 0, .next 0, .next 0]).map
    (fun r => (r.2.queue, r.2.pc 0, r.2.pc 1, r.2.pc 2))
    = some ([7], .outside, .frontAsleep, .outside) := by
  decide

/-! #### A consumer that looks first -/

namespace QueuePc

def popping : QueuePc α → Bool
  | .popLock | .popRemove | .popUnlock => true
  | _ => false

/-- The thread has yet to find that the queue is not empty. -/
def testing : QueuePc α → Bool
  | .frontLock | .frontTest => true
  | _ => false

/-- The thread has found the queue empty. -/
def waiting : QueuePc α → Bool
  | .frontAsleep | .frontWoken => true
  | _ => false

end QueuePc

/-- `isEmpty()` has returned `false` to `k`. -/
def SeesItem (k : ι) (s : ThreadSafeQueue ι α) (a : QueueAct ι α) : Prop :=
  a = .isEmpty k ∧ s.isEmpty = false

/-- `k` calls `front` only where `isEmpty()` has returned `false` since it last called `pop`. -/
def LooksFirst (k : ι) (l : List (ThreadSafeQueue ι α × QueueAct ι α))
    (_ : ThreadSafeQueue ι α) (a : QueueAct ι α) : Prop :=
  a = .begin k .front → Since (SeesItem k) (fun _ a => a = .begin k .pop) l

/-- What a consumer knows that looks first. -/
structure Provisioned (k : ι) (l : List (ThreadSafeQueue ι α × QueueAct ι α))
    (s : ThreadSafeQueue ι α) : Prop where
  seen : Since (SeesItem k) (fun _ a => a = .begin k .pop) l →
    s.queue ≠ [] ∧ (s.pc k).popping = false
  testing : (s.pc k).testing → s.queue ≠ []
  awake : (s.pc k).waiting = false

omit [Fintype ι] in
/-- Only the consumer takes something out of the queue. -/
lemma queue_ne_nil_of_step (hs : QueueStep s a s') (hk : Served k s)
    (hpop : (s.pc k).popping = false) (hq : s.queue ≠ []) : s'.queue ≠ [] := by
  cases hs with
  | insert => simp
  | @remove i item rest hi =>
    have hik : i = k := hk.consumer i (by rw [hi]; rfl)
    rw [← hik, hi] at hpop
    cases hpop
  | _ => exact hq

omit [Fintype ι] in
lemma pc_of_step (hs : QueueStep s a s') (hk : k ≠ a.thread) (hawake : (s.pc k).waiting = false) :
    s'.pc k = s.pc k := by
  cases hs with
  | isEmpty => rfl
  | @wake i j item hi hj =>
    simp only [QueueAct.thread] at hk
    have hjk : k ≠ j := by
      rintro rfl
      rw [hj] at hawake
      cases hawake
    simp only [goto_pc, Function.update_of_ne hjk, Function.update_of_ne hk]
  | _ =>
    simp only [QueueAct.thread] at hk
    simp only [goto_pc, unlock_pc, Function.update_of_ne hk]

omit [Fintype ι] in
/-- Where the consumer goes in a step of its own. -/
lemma Provisioned.own_step (h : Provisioned k l s) (hs : QueueStep s a s')
    (hlook : LooksFirst k l s a) (hk : a.thread = k) :
    ((s'.pc k).popping → (s.pc k).popping ∨ a = .begin k .pop) ∧
      ((s'.pc k).testing → s'.queue ≠ []) ∧ (s'.pc k).waiting = false := by
  subst hk
  have htesting := h.testing
  have hawake := h.awake
  cases hs with
  | begin i op hi =>
    simp only [QueueAct.thread, goto_pc, Function.update_self]
    cases op with
    | push item => simp [QueueOp.entry, QueuePc.popping, QueuePc.testing, QueuePc.waiting]
    | front =>
      have hq : s.queue ≠ [] := (h.seen (hlook rfl)).1
      simpa [QueueOp.entry, QueuePc.popping, QueuePc.testing, QueuePc.waiting] using hq
    | pop => simp [QueueOp.entry, QueuePc.popping, QueuePc.testing, QueuePc.waiting]
  | isEmpty i hi =>
    simp [QueueAct.thread, hi, QueuePc.popping, QueuePc.testing, QueuePc.waiting]
  | @lock i p hp hm =>
    simp only [QueueAct.thread, goto_pc, Function.update_self] at htesting hawake ⊢
    generalize s.pc i = q at hp htesting hawake ⊢
    cases hp with
    | front =>
      have hq : s.queue ≠ [] := htesting rfl
      simpa [QueuePc.popping, QueuePc.testing, QueuePc.waiting] using hq
    | woken => cases hawake
    | push | pop => simp [QueuePc.popping, QueuePc.testing, QueuePc.waiting]
  | @unlock i p hp =>
    simp only [QueueAct.thread, unlock_pc, Function.update_self]
    generalize s.pc i = q at hp
    cases hp <;> simp [QueuePc.popping, QueuePc.testing, QueuePc.waiting]
  | sleep hi hq =>
    simp only [QueueAct.thread, hi] at htesting
    exact absurd hq (htesting rfl)
  | remove hi hq =>
    simp [QueueAct.thread, hi, QueuePc.popping, QueuePc.testing, QueuePc.waiting]
  | insert | pass | read =>
    simp [QueueAct.thread, QueuePc.popping, QueuePc.testing, QueuePc.waiting]
  | @wake i j item hi hj =>
    have hij : i ≠ j := by
      rintro rfl
      rw [hi] at hj
      cases hj
    simp [QueueAct.thread, Function.update_of_ne hij, QueuePc.popping, QueuePc.testing,
      QueuePc.waiting]
  | miss => simp [QueueAct.thread, QueuePc.popping, QueuePc.testing, QueuePc.waiting]
  | spurious hj =>
    simp only [QueueAct.thread, hj] at hawake
    cases hawake

omit [Fintype ι] in
lemma Provisioned.step (h : Provisioned k l s) (hserved : Served k s) (hs : QueueStep s a s')
    (hlook : LooksFirst k l s a) : Provisioned k (l ++ [(s, a)]) s' := by
  -- what the consumer sees, it saw in a state in which it is in no call
  have hseen : SeesItem k s a → s.queue ≠ [] ∧ (s.pc k).popping = false := by
    rintro ⟨rfl, hq⟩
    cases hs with
    | isEmpty i hi =>
      refine ⟨?_, by rw [hi]; rfl⟩
      rintro he
      simp [ThreadSafeQueue.isEmpty, he] at hq
  have hbefore : Since (SeesItem k) (fun _ a => a = .begin k .pop) (l ++ [(s, a)]) →
      s.queue ≠ [] ∧ (s.pc k).popping = false ∧ a ≠ .begin k .pop := by
    intro hsince
    rcases since_snoc.mp hsince with hnow | ⟨hold, hno⟩
    · have hpop : a ≠ .begin k .pop := by
        rw [hnow.1]
        simp
      exact ⟨(hseen hnow).1, (hseen hnow).2, hpop⟩
    · exact ⟨(h.seen hold).1, (h.seen hold).2, hno⟩
  by_cases hk : a.thread = k
  · obtain ⟨hpopping, htesting, hwaiting⟩ := h.own_step hs hlook hk
    refine ⟨fun hsince => ?_, htesting, hwaiting⟩
    obtain ⟨hq, hpop, hno⟩ := hbefore hsince
    refine ⟨queue_ne_nil_of_step hs hserved hpop hq, ?_⟩
    rw [Bool.eq_false_iff]
    intro hp
    rcases hpopping hp with hp' | hp'
    · rw [hpop] at hp'
      cases hp'
    · exact hno hp'
  · have hpc := pc_of_step hs (Ne.symm hk) h.awake
    refine ⟨fun hsince => ?_, fun ht => ?_, by rw [hpc]; exact h.awake⟩
    · obtain ⟨hq, hpop, -⟩ := hbefore hsince
      exact ⟨queue_ne_nil_of_step hs hserved hpop hq, by rw [hpc]; exact hpop⟩
    · rw [hpc] at ht
      refine queue_ne_nil_of_step hs hserved ?_ (h.testing ht)
      generalize s.pc k = p at ht
      cases p <;> first | rfl | cases ht

lemma provisioned_of_exec (h : (threadSafeQueue ι α).Exec l s) (hsole : Meets (SoleConsumer k) l)
    (hlook : Along (LooksFirst k) l) : Provisioned k l s := by
  induction h with
  | nil =>
    refine ⟨?_, ?_, rfl⟩
    · rintro ⟨l₁, s, a, l₂, he, -⟩
      simp at he
    · exact fun ht => by cases ht
  | @snoc l s s' a hl hs ih =>
    obtain ⟨hsole', -⟩ := meets_snoc.mp hsole
    obtain ⟨hlook', ha⟩ := along_snoc.mp hlook
    exact (ih hsole' hlook').step (served_of_exec hl hsole') (queueStep_of_step hs) ha

/-- **A consumer that looks first never waits.**  While one thread alone calls `front` and `pop`,
and calls `front` only where `isEmpty()` has returned `false` since its last `pop`, it never falls
asleep. -/
theorem never_waits (h : (threadSafeQueue ι α).Exec l s) (hsole : Meets (SoleConsumer k) l)
    (hlook : Along (LooksFirst k) l) : Always (fun s => (s.pc k).waiting = false) l s := by
  induction h with
  | nil => exact ⟨by simp, rfl⟩
  | @snoc l s s' a hl hs ih =>
    refine always_snoc.mpr ⟨?_, (provisioned_of_exec (hl.snoc hs) hsole hlook).awake⟩
    exact ih (meets_snoc.mp hsole).1 (along_snoc.mp hlook).1

/-- An item is pushed, and the consumer sees it. -/
def seenItem : List (ThreadSafeQueue (Fin 2) ℕ × QueueAct (Fin 2) ℕ) × ThreadSafeQueue (Fin 2) ℕ :=
  ((threadSafeQueue (Fin 2) ℕ).run .start [.begin 0 (.push 7), .next 0, .next 0, .next 0,
    .notifyOne 0 none, .isEmpty 1]).get (by decide)

/-- The consumer then calls `front`, and gets the item. -/
def quick : List (ThreadSafeQueue (Fin 2) ℕ × QueueAct (Fin 2) ℕ) × ThreadSafeQueue (Fin 2) ℕ :=
  ((threadSafeQueue (Fin 2) ℕ).run (seenItem.2.goto 1 .frontLock)
    [.next 1, .next 1, .next 1, .next 1]).get (by decide)

theorem never_waits_quick : Always (fun s => (s.pc 1).waiting = false)
    (seenItem.1 ++ [(seenItem.2, .begin 1 .front)] ++ quick.1) quick.2 := by
  have hseen : (threadSafeQueue (Fin 2) ℕ).Exec seenItem.1 seenItem.2 := exec_get_run _
  have hbegin : (threadSafeQueue (Fin 2) ℕ).step seenItem.2 (.begin 1 .front)
      = some (seenItem.2.goto 1 .frontLock) := rfl
  have hrun : (threadSafeQueue (Fin 2) ℕ).run (seenItem.2.goto 1 .frontLock)
      [.next 1, .next 1, .next 1, .next 1] = some quick := by
    rw [quick, Option.some_get]
  have hsole : ∀ x ∈ seenItem.1 ++ [(seenItem.2, .begin 1 .front)] ++ quick.1,
      SoleConsumer 1 x.1 x.2 := by decide
  have hbefore : ∀ x ∈ seenItem.1, ∀ l₁, LooksFirst 1 l₁ x.1 x.2 := by
    have hne : ∀ x ∈ seenItem.1, x.2 ≠ .begin 1 .front := by decide
    exact fun x hx l₁ he => absurd he (hne x hx)
  have hafter : ∀ x ∈ quick.1, ∀ l₁, LooksFirst 1 l₁ x.1 x.2 := by
    have hne : ∀ x ∈ quick.1, x.2 ≠ .begin 1 .front := by decide
    exact fun x hx l₁ he => absurd he (hne x hx)
  have hsince : Since (SeesItem 1) (fun _ a => a = .begin 1 .pop) seenItem.1 := by
    refine ⟨seenItem.1.dropLast, _, _, [], (List.dropLast_concat_getLast (by decide)).symm, ?_,
      by simp⟩
    exact ⟨by decide, by decide⟩
  have hnone : Along (LooksFirst 1) ([] : List (ThreadSafeQueue (Fin 2) ℕ × QueueAct (Fin 2) ℕ)) :=
    by simp [Along]
  have hbegun : Along (LooksFirst 1) (seenItem.1 ++ [(seenItem.2, .begin 1 .front)]) :=
    along_snoc.mpr ⟨hnone.append hbefore, fun _ => hsince⟩
  exact never_waits ((hseen.snoc hbegin).append_run hrun) hsole (hbegun.append hafter)

end Consumer

end MultiplayerCars.CPPClient
