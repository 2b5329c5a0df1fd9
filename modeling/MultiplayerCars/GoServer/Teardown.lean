import MultiplayerCars.GoServer.Setup

/-!
# Teardown

`removeClient` broadcasts the exit notice while it holds the mutex.  The peers receive it at the
`select` of their writers, and a writer that has left its loop waits for that mutex: the holder
and the writer then wait for each other.  Outside the mutex, a range loop can pick a client that
is removed before the message is handed over; its only receiver returns, nothing closes or
drains the channel, and the sender stays blocked for ever.
-/

namespace MultiplayerCars.GoServer

open Lib Lib.Machine

/-! ### The holder of the mutex and the writer it sends to -/

/-- The goroutine that holds the mutex is blocked on the `egress` of a registered client whose
writer has left its loop and waits for the mutex. -/
def Wedged (s : Server) : Prop := ∃ t l p,
  s.lock = some t ∧ s.pc t = .send l p ∧ p ∈ s.clients ∧ s.pc (.write p) = .removeLock

/-- The holder of the mutex does not pick a client whose writer waits for the mutex, and no
writer leaves its loop on an error while the holder is blocked on a send to it. -/
def Unwedging (s : Server) (a : Act) : Prop :=
  (∀ t p, a = .pick t p → s.lock = some t → s.pc (.write p) ≠ .removeLock) ∧
    ∀ p, a = .pingDone p false ∨ a = .tickDone p false →
      ¬ ∃ t l, s.lock = some t ∧ s.pc t = .send l p ∧ p ∈ s.clients

lemma wedged_of_pick {s s' : Server} {t : Thread} {p : ClientId} (hs : Step s (.pick t p) s')
    (hl : s.lock = some t) (hw : s.pc (.write p) = .removeLock) : Wedged s' := by
  cases hs with
  | @pick t₀ p₀ l ht hp =>
    have hne : Thread.write p ≠ t := ne_of_pc hw ht (by simp)
    refine ⟨t, l.mark p, p, hl, Server.goto_pc_self _ _ _, hp.1, ?_⟩
    rw [Server.goto_pc_of_ne hne, hw]

lemma wedged_of_left {s : Server} {t : Thread} {l : RangeLoop} {p : ClientId}
    (hl : s.lock = some t) (ht : s.pc t = .send l p) (hp : p ∈ s.clients)
    (hne : t ≠ .write p) : Wedged (s.written p false) := by
  refine ⟨t, l, p, hl, ?_, hp, Server.goto_pc_self _ _ _⟩
  rw [Server.written, Server.goto_pc_of_ne hne, ht]

/-- A sender holds the mutex before a step if it does after it and has not moved. -/
lemma Inv.lock_of_send {s s' : Server} {t : Thread} {l : RangeLoop} {p : ClientId} (hi : Inv s)
    (hi' : Inv s') (hl : s'.lock = some t) (ht : s.pc t = .send l p)
    (ht' : s'.pc t = .send l p) : s.lock = some t := by
  rw [hi.guarded t, ht, ← ht', ← hi'.guarded t]
  exact hl

/-- A step from a state that is not wedged wedges it exactly if it is one of the two. -/
theorem wedged_step {s s' : Server} {a : Act} (hi : Inv s) (hn : ¬ Wedged s)
    (hs : Step s a s') : ¬ Wedged s' ↔ Unwedging s a := by
  constructor
  · intro hn'
    refine ⟨?_, ?_⟩
    · rintro t p rfl hl hw
      exact hn' (wedged_of_pick hs hl hw)
    · rintro p ha ⟨t, l, hl, ht, hp⟩
      have hne : ∀ q, s.pc (.write p) = q → (∀ l p, q ≠ .send l p) → t ≠ .write p := by
        rintro q hq hsend rfl
        exact hsend l p (hq.symm.trans ht)
      rcases ha with rfl | rfl
      · cases hs with
        | pingDone hc => exact hn' (wedged_of_left hl ht hp (hne _ hc (by simp)))
      · cases hs with
        | tickDone hc => exact hn' (wedged_of_left hl ht hp (hne _ hc (by simp)))
  · rintro ⟨hpick, hleft⟩ ⟨t, l, p, hl, ht, hp, hw⟩
    have hi' : Inv s' := hi.step hs
    have hw₀ := hs.removeLock_cases hw
    -- the holder was blocked before the step, or it has just picked its receiver
    rcases hs.send_cases ht with ht₀ | ⟨rfl, l₀, ht₀, hprod, rfl⟩
    · have hl₀ : s.lock = some t := hi.lock_of_send hi' hl ht₀ ht
      have hp₀ : p ∈ s.clients := by
        rcases hs.mem_clients hp with hp₀ | hins
        · exact hp₀
        · -- the mutex belongs to the sender, not to `addClient`
          have hown : s.lock = some (.serve p) := (hi.guarded _).mpr (by simp [hins, Pc.Holds])
          rw [hl₀] at hown
          injection hown with hts
          rw [hts, hins] at ht₀
          cases ht₀
      rcases hw₀ with hw₀ | ha
      · exact hn ⟨t, l, p, hl₀, ht₀, hp₀, hw₀⟩
      · exact hleft p ha ⟨t, l, hl₀, ht₀, hp₀⟩
    · have hl₀ : s.lock = some t := by
        cases hs
        exact hl
      rcases hw₀ with hw₀ | ha | ha
      · exact hpick t p rfl hl₀ hw₀
      · cases ha
      · cases ha

/-- **Wedges, exactly.**  No state of a run is wedged if and only if in no step the holder of
the mutex picks a client whose writer waits for it, and in no step a writer leaves its loop
while the holder is blocked on a send to it. -/
theorem never_wedged_iff {l : List (Server × Act)} {s : Server} (h : manager.Exec l s) :
    Always (fun s => ¬ Wedged s) l s ↔ Meets Unwedging l := by
  have h₀ : ¬ Wedged Server.init := by
    rintro ⟨t, l, p, hl, -⟩
    cases hl
  exact h.always_iff_meets inv_of_exec h₀ fun _ _ _ hi hn hs => wedged_step hi hn (step_cases hs)

/-- Both clients lose their connections: the writer of `0` has just picked `1` for its exit
notice when the ping of `1` fails. -/
def bothFail : List Act := inTurn ++
  [.ping 0, .pingDone 0 false, .lockRemove (.write 0), .check (.write 0), .close (.write 0),
    .delete (.write 0) [], .ping 1, .pick (.write 0) 1, .pingDone 1 false]

lemma bothFail_runs : (manager.run manager.init bothFail).isSome := by
  decide +kernel

def bothFailed : List (Server × Act) × Server :=
  (manager.run manager.init bothFail).get bothFail_runs

lemma exec_bothFailed : manager.Exec bothFailed.1 bothFailed.2 := exec_get_run bothFail_runs

/-- Teardown can wedge the manager. -/
theorem teardown_wedges : ¬ ∀ s, manager.Reachable s → ¬ Wedged s := by
  intro h
  obtain ⟨l, hl⟩ : ∃ l, bothFailed.2.pc (.write 0) = .send l 1 :=
    exists_send_iff.mpr (by decide +kernel)
  exact h bothFailed.2 ⟨_, exec_bothFailed⟩
    ⟨.write 0, l, 1, by decide +kernel, hl, by decide +kernel, by decide +kernel⟩

theorem never_wedged_iff_bothFailed :
    Always (fun s => ¬ Wedged s) bothFailed.1 bothFailed.2 ↔ Meets Unwedging bothFailed.1 :=
  never_wedged_iff exec_bothFailed

/-! ### Senders to a client that is gone -/

/-- The goroutine stays at a send to `p`, whatever happens from here on. -/
def BlockedForever (s : Server) (t : Thread) (p : ClientId) : Prop :=
  ∀ s', manager.Leads s s' → ∃ l, s'.pc t = .send l p

/-- Some goroutine is blocked for ever on the `egress` of a client that is out of the registry
and whose writer has returned. -/
def Stranded (s : Server) : Prop :=
  ∃ t p, BlockedForever s t p ∧ p ∉ s.clients ∧ s.pc (.write p) = .done

/-- No writer returns while a goroutine is blocked on a send to its client. -/
def Unwaited (s : Server) (a : Act) : Prop :=
  ∀ p, a = .unlockRemove (.write p) → ¬ ∃ t l, s.pc t = .send l p

/-- A send to a client whose writer has returned never completes. -/
lemma blockedForever_of_done {s : Server} {t : Thread} {l : RangeLoop} {p : ClientId}
    (hi : Inv s) (ht : s.pc t = .send l p) (hw : s.pc (.write p) = .done) :
    BlockedForever s t p := by
  intro s' hs'
  have hstep : ∀ s₁ a s₂, Inv s₁ ∧ s₁.pc t = .send l p ∧ s₁.pc (.write p) = .done →
      manager.step s₁ a = some s₂ →
        Inv s₂ ∧ s₂.pc t = .send l p ∧ s₂.pc (.write p) = .done := by
    rintro s₁ a s₂ ⟨hi₁, ht₁, hw₁⟩ hstep
    have hs := step_cases hstep
    refine ⟨hi₁.step hs, ?_, ?_⟩
    · rcases hs.stays hi₁.started ht₁ (Or.inr ⟨l, p, rfl⟩) with h | ⟨l', p', -, hl', hsel⟩
      · exact h
      · injection hl' with _ hp'
        rw [← hp', hw₁] at hsel
        cases hsel
    · rcases hs.stays hi₁.started hw₁ (Or.inl rfl) with h | ⟨l', p', -, hl', -⟩
      · exact h
      · cases hl'
  exact ⟨l, (Leads.stable hstep hs' ⟨hi, ht, hw⟩).2.1⟩

lemma stranded_iff {s : Server} (hi : Inv s) :
    Stranded s ↔ ∃ t l p, s.pc t = .send l p ∧ p ∉ s.clients ∧ s.pc (.write p) = .done := by
  constructor
  · rintro ⟨t, p, hb, hp, hw⟩
    obtain ⟨l, hl⟩ := hb s Relation.ReflTransGen.refl
    exact ⟨t, l, p, hl, hp, hw⟩
  · rintro ⟨t, l, p, hl, hp, hw⟩
    exact ⟨t, p, blockedForever_of_done hi hl hw, hp, hw⟩

/-- A step strands a sender exactly if a writer returns while the sender is blocked on it. -/
theorem stranded_step {s s' : Server} {a : Act} (hi : Inv s) (hn : ¬ Stranded s)
    (hs : Step s a s') : ¬ Stranded s' ↔ Unwaited s a := by
  rw [stranded_iff (hi.step hs)]
  rw [stranded_iff hi] at hn
  constructor
  · rintro hn' p rfl ⟨t, l, ht⟩
    cases hs with
    | unlockRemove hc =>
      have hne : t ≠ .write p := by
        rintro rfl
        rw [hc] at ht
        cases ht
      refine hn' ⟨t, l, p, ?_, hi.registered (.write p) (by rw [hc]; trivial),
        Server.goto_pc_self _ _ _⟩
      rw [Server.goto_pc_of_ne hne]
      exact ht
  · rintro hok ⟨t, l, p, ht, hp, hw⟩
    rcases hs.done_cases hw with hw₀ | rfl
    · have hp₀ : p ∉ s.clients := hi.registered (.write p) (by rw [hw₀]; trivial)
      rcases hs.send_cases ht with ht₀ | ⟨-, l₀, -, hprod, -⟩
      · exact hn ⟨t, l, p, ht₀, hp₀, hw₀⟩
      · exact hp₀ hprod.1
    · rcases hs.send_cases ht with ht₀ | ⟨ha, -⟩
      · exact hok p rfl ⟨t, l, ht₀⟩
      · cases ha

/-- **Stranded senders, exactly.**  No state of a run has a stranded sender if and only if no
writer of the run returns while a goroutine is blocked on a send to its client. -/
theorem never_stranded_iff {l : List (Server × Act)} {s : Server} (h : manager.Exec l s) :
    Always (fun s => ¬ Stranded s) l s ↔ Meets Unwaited l := by
  have h₀ : ¬ Stranded Server.init := by
    rw [stranded_iff Inv.init]
    rintro ⟨t, l, p, ht, -⟩
    cases ht
  exact h.always_iff_meets inv_of_exec h₀ fun _ _ _ hi hn hs => stranded_step hi hn (step_cases hs)

/-- The reader of `0` has picked `1` for a position when the connection of `1` fails, and the
writer of `1` removes its client and returns. -/
def lateRemoval : List Act := inTurn ++
  [.readFrame 0 "\x7b\"Type\":0\x7d".toList [], .pick (.read 0) 1, .ping 1, .pingDone 1 false,
    .lockRemove (.write 1), .check (.write 1), .close (.write 1), .delete (.write 1) [],
    .pick (.write 1) 0, .handoff (.write 1) 0, .wrote 0, .endRange (.write 1),
    .unlockRemove (.write 1)]

lemma lateRemoval_runs : (manager.run manager.init lateRemoval).isSome := by
  decide +kernel

def lateRemoved : List (Server × Act) × Server :=
  (manager.run manager.init lateRemoval).get lateRemoval_runs

lemma exec_lateRemoved : manager.Exec lateRemoved.1 lateRemoved.2 :=
  exec_get_run lateRemoval_runs

/-- A sender can be stranded on a client that is gone. -/
theorem sender_stranded : ¬ ∀ s, manager.Reachable s → ¬ Stranded s := by
  intro h
  refine h lateRemoved.2 ⟨_, exec_lateRemoved⟩ ?_
  rw [stranded_iff (inv_of_exec _ _ exec_lateRemoved)]
  obtain ⟨l, hl⟩ : ∃ l, lateRemoved.2.pc (.read 0) = .send l 1 :=
    exists_send_iff.mpr (by decide +kernel)
  exact ⟨.read 0, l, 1, hl, by decide +kernel, by decide +kernel⟩

theorem never_stranded_iff_lateRemoved :
    Always (fun s => ¬ Stranded s) lateRemoved.1 lateRemoved.2
      ↔ Meets Unwaited lateRemoved.1 :=
  never_stranded_iff exec_lateRemoved

end MultiplayerCars.GoServer
