import MultiplayerCars.Lib.WaitGraph
import MultiplayerCars.GoServer.Invariant

/-!
# Connection set-up

`serveWS` registers its client, announces it to the registered ones with a send to each, and
only then starts the goroutine that receives what is sent to its own client.  Handlers that
announce at the same time can therefore wait for each other for ever.  This happens exactly when
a handler picks a receiver that, through a chain of such waits, already waits for it.
-/

namespace MultiplayerCars.GoServer

open Lib Lib.Machine

/-- The handler of `i` is blocked on the `egress` of `p`, whose writer was not started. -/
def Awaits (s : Server) (i p : ClientId) : Prop :=
  (∃ l, s.pc (.serve i) = .send l p) ∧ s.pc (.write p) = .idle

/-- Handlers that are each blocked on a client whose own handler is one of them. -/
def SetupDeadlock (s : Server) : Prop := HasKnot (Awaits s)

/-- The step does not let a handler pick a receiver that has no writer yet and whose own handler
waits, directly or through others, for the client of the first. -/
def Uncrossed (s : Server) (a : Act) : Prop :=
  ∀ i p, a = .pick (.serve i) p → s.pc (.write p) = .idle → ¬ WaitChain (Awaits s) p i

lemma awaits_of_step {s s' : Server} {a : Act} (hs : Step s a s') {i p : ClientId}
    (h : Awaits s' i p) :
    Awaits s i p ∨ (a = .pick (.serve i) p ∧ s.pc (.write p) = .idle) := by
  obtain ⟨⟨l, hl⟩, hw⟩ := h
  have hw₀ := hs.idle_of_idle hw
  rcases hs.send_cases hl with hl₀ | ⟨ha, -⟩
  · exact Or.inl ⟨⟨l, hl₀⟩, hw₀⟩
  · exact Or.inr ⟨ha, hw₀⟩

/-- The waits after a handler has picked a receiver without a writer. -/
lemma awaits_pick {s s' : Server} {i p : ClientId} (hs : Step s (.pick (.serve i) p) s')
    (hw : s.pc (.write p) = .idle) (x y : ClientId) :
    Awaits s' x y ↔ Awaits s x y ∨ (x = i ∧ y = p) := by
  constructor
  · intro h
    rcases awaits_of_step hs h with h₀ | ⟨ha, -⟩
    · exact Or.inl h₀
    · injection ha with ht hp
      injection ht with hi
      exact Or.inr ⟨hi.symm, hp.symm⟩
  · cases hs with
    | @pick t₀ p₀ l ht hp =>
      rintro (⟨⟨l', hl'⟩, hy⟩ | ⟨rfl, rfl⟩)
      · have hx : Thread.serve x ≠ .serve i := by
          intro he
          rw [he, ht] at hl'
          cases hl'
        refine ⟨⟨l', ?_⟩, ?_⟩
        · rw [Server.goto_pc_of_ne hx, hl']
        · rw [Server.goto_pc_of_ne (by simp), hy]
      · refine ⟨⟨l.mark y, Server.goto_pc_self _ _ _⟩, ?_⟩
        rw [Server.goto_pc_of_ne (by simp), hw]

/-- A step from a state without deadlock makes one exactly if it crosses two set-ups. -/
theorem setupDeadlock_step {s s' : Server} {a : Act} (hd : ¬ SetupDeadlock s)
    (hs : Step s a s') : ¬ SetupDeadlock s' ↔ Uncrossed s a := by
  by_cases ha : ∃ i p, a = .pick (.serve i) p ∧ s.pc (.write p) = .idle
  · obtain ⟨i, p, rfl, hw⟩ := ha
    have hi : ∀ q, ¬ Awaits s i q := by
      rintro q ⟨⟨l, hl⟩, -⟩
      cases hs with
      | pick ht =>
        rw [ht] at hl
        cases hl
    have hknot : SetupDeadlock s' ↔ SetupDeadlock s ∨ WaitChain (Awaits s) p i :=
      hasKnot_insert_iff hi (awaits_pick hs hw)
    rw [hknot, or_iff_right hd]
    constructor
    · intro hch i' p' he _
      injection he with ht hp
      injection ht with hi'
      rwa [← hi', ← hp]
    · intro hok
      exact hok i p rfl hw
  · have hok : Uncrossed s a := fun i p he hw => absurd ⟨i, p, he, hw⟩ ha
    refine iff_of_true (fun hk => hd (hk.mono fun i p h => ?_)) hok
    rcases awaits_of_step hs h with h₀ | ⟨he, hw⟩
    · exact h₀
    · exact absurd ⟨i, p, he, hw⟩ ha

lemma not_setupDeadlock_init : ¬ SetupDeadlock manager.init := by
  refine not_hasKnot_of_empty ?_
  rintro i p ⟨⟨l, hl⟩, -⟩
  cases hl

/-- **Set-up deadlocks, exactly.**  No state of a run has a deadlock of connection set-ups if and
only if no step of the run crosses two of them. -/
theorem setup_never_deadlocks_iff {l : List (Server × Act)} {s : Server}
    (h : manager.Exec l s) : Always (fun s => ¬ SetupDeadlock s) l s ↔ Meets Uncrossed l :=
  h.always_iff_meets (I := fun _ => True) (fun _ _ _ => trivial) not_setupDeadlock_init
    fun _ _ _ _ hd hs => setupDeadlock_step hd (step_cases hs)

/-! ### Two clients that connect at the same time -/

/-- Both clients are registered before either of them is announced. -/
def crossing : List Act :=
  [.connect 0 ['a'] ['c'], .connect 1 ['b'] ['c'],
    .lockAdd 0, .insert 0, .unlockAdd 0, .lockAdd 1, .insert 1, .unlockAdd 1,
    .announce 0 [], .announce 1 [], .pick (.serve 0) 1, .pick (.serve 1) 0]

lemma crossing_runs : (manager.run manager.init crossing).isSome := by
  decide

/-- The run that takes these steps. -/
def crossed : List (Server × Act) × Server :=
  (manager.run manager.init crossing).get crossing_runs

lemma exec_crossed : manager.Exec crossed.1 crossed.2 := exec_get_run crossing_runs

lemma awaits_crossed : Awaits crossed.2 0 1 ∧ Awaits crossed.2 1 0 :=
  ⟨⟨exists_send_iff.mpr (by decide), by decide⟩, ⟨exists_send_iff.mpr (by decide), by decide⟩⟩

/-- Connection set-up can deadlock. -/
theorem setup_deadlocks : ¬ ∀ s, manager.Reachable s → ¬ SetupDeadlock s := by
  intro h
  refine h crossed.2 ⟨_, exec_crossed⟩ ⟨{0, 1}, ⟨0, by simp⟩, ?_⟩
  rintro i (rfl | rfl)
  · exact ⟨1, by simp, awaits_crossed.1⟩
  · exact ⟨0, by simp, awaits_crossed.2⟩

theorem setup_never_deadlocks_iff_crossed :
    Always (fun s => ¬ SetupDeadlock s) crossed.1 crossed.2 ↔ Meets Uncrossed crossed.1 :=
  setup_never_deadlocks_iff exec_crossed

/-! ### Two clients that connect one after the other -/

/-- The set-up of client `0`, and then that of client `1`, whose announcement `0` receives. -/
def inTurn : List Act :=
  [.connect 0 ['a'] ['c'], .lockAdd 0, .insert 0, .unlockAdd 0, .announce 0 [],
    .endRange (.serve 0), .spawnRead 0, .spawnWrite 0,
    .connect 1 ['b'] ['c'], .lockAdd 1, .insert 1, .unlockAdd 1, .announce 1 [],
    .pick (.serve 1) 0, .handoff (.serve 1) 0, .wrote 0, .endRange (.serve 1),
    .spawnRead 1, .spawnWrite 1]

example : ((manager.run manager.init inTurn).map fun r =>
    (r.2.clients, r.2.pc (.serve 1), r.2.pc (.write 1))) = some ({0, 1}, .done, .select) := by
  decide

end MultiplayerCars.GoServer
