import MultiplayerCars.CPPClient.Relay
import MultiplayerCars.CPPClient.Ghosts

/-!
# The batch pass

When the positions that wait have become too many, and `g_handleBatch` is set, the main loop drops
some of them instead of drawing the texts.  The loop that drops them counts upwards towards a bound
that it reads anew from the queue that it shortens, so that the two meet half way.  And the thread
that sets the flag does so once: the pass that clears it is the last.
-/

namespace MultiplayerCars.CPPClient

open Lib Lib.Json Lib.Machine

/-- The step ends a batch pass: the test of its loop fails. -/
def Client.endsPass (c : Client) : ClientAct → Bool
  | .discard =>
    match c.mainPc with
    | .discard i => decide (c.positionJsonQueue.length ≤ i + 1)
    | _ => false
  | _ => false

/-- The action is one of the loop of a batch pass. -/
def ClientAct.discards : ClientAct → Bool
  | .discard | .discardPop => true
  | _ => false

/-! ### One step -/

/-- What a step does about the batch pass: the flag is set; a pass begins, finds that positions are
left, pops one, or ends; another thread moves; or the main loop moves outside of a pass. -/
inductive PassStep (c c' : Client) : ClientAct → Prop
  | wake (hb : c.batchPending) (hb' : c'.batchPending = false) (hh : c'.handleBatch = true)
      (hpc : c'.mainPc = c.mainPc) (hq : c'.positionJsonQueue = c.positionJsonQueue) :
      PassStep c c' .wakeBatchHandler
  | begin (hd : c.discards) (hpc : c.mainPc = .batch) (hpc' : c'.mainPc = .discard 0)
      (hb : c'.batchPending = c.batchPending) (hh : c'.handleBatch = c.handleBatch) :
      PassStep c c' .batch
  | test {i : ℕ} (hpc : c.mainPc = .discard i) (hi : i + 1 < c.positionJsonQueue.length)
      (hpc' : c'.mainPc = .discardPop i) (hq : c'.positionJsonQueue = c.positionJsonQueue)
      (hb : c'.batchPending = c.batchPending) (hh : c'.handleBatch = c.handleBatch) :
      PassStep c c' .discard
  | pop {i : ℕ} (hpc : c.mainPc = .discardPop i) (hpc' : c'.mainPc = .discard (i + 1))
      (hq : c'.positionJsonQueue = c.positionJsonQueue.tail)
      (hb : c'.batchPending = c.batchPending) (hh : c'.handleBatch = c.handleBatch) :
      PassStep c c' .discardPop
  | finish {i : ℕ} (hpc : c.mainPc = .discard i) (hi : c.positionJsonQueue.length ≤ i + 1)
      (hpc' : c'.mainPc = .posEmpty) (hq : c'.positionJsonQueue = c.positionJsonQueue)
      (hb : c'.batchPending = c.batchPending) (hh : c'.handleBatch = false) :
      PassStep c c' .discard
  | aside {a : ClientAct} (ha : a.discards = false) (hpc : c'.mainPc = c.mainPc)
      (hq : c'.positionJsonQueue = c.positionJsonQueue ++ (movedBy .position c a).toList)
      (hb : c'.batchPending = c.batchPending) (hh : c'.handleBatch = c.handleBatch) :
      PassStep c c' a
  | away {a : ClientAct} (ha : a.discards = false) (hd : ¬ c.Discarding) (hd' : ¬ c'.Discarding)
      (hb : c'.batchPending = c.batchPending) (hh : c'.handleBatch = c.handleBatch) :
      PassStep c c' a

section Step

variable {c c' : Client} {a : ClientAct}

lemma start_not_discarding (uuid : UuidV4) : ¬ (Client.start uuid).Discarding := by
  have hpc : (Client.start uuid).mainPc = .posEmpty := rfl
  exact not_discarding_of_mainPc hpc (by simp) (by simp)

theorem ClientStep.passStep (hs : ClientStep c a c') : PassStep c c' a := by
  cases hs with
  | wakeBatchHandler hpc => exact .wake hpc rfl rfl rfl rfl
  | discardTest hpc hi => exact .test hpc hi rfl rfl rfl rfl
  | discardPop hpc => exact .pop hpc rfl rfl rfl rfl
  | discardEnd hpc hi => exact .finish hpc (not_lt.mp hi) rfl rfl rfl rfl
  | batch hpc =>
    by_cases hd : c.discards
    · exact .begin hd hpc (if_pos hd) rfl rfl
    · refine .away rfl (not_discarding_of_mainPc hpc (by simp) (by simp)) ?_ rfl rfl
      exact not_discarding_of_mainPc (if_neg hd) (by simp) (by simp)
  | onMessage | relayFront | relayPop | workerFront | workerWrite | workerPop =>
    exact .aside rfl rfl (by simp [movedBy]) rfl rfl
  | movePosition hpc => exact .aside rfl rfl (by simp [movedBy, hpc]) rfl rfl
  | moveGui hpc => exact .aside rfl rfl (by simp [movedBy, hpc]) rfl rfl
  | moveDropped hpc => exact .aside rfl rfl (by simp [movedBy, hpc]) rfl rfl
  | posFront hpc | guiFront hpc =>
    obtain ⟨pc, hpc', hc⟩ := exists_endBlock c _ _
    rw [hc]
    refine .away rfl (not_discarding_of_mainPc hpc (by simp) (by simp)) ?_ rfl rfl
    refine not_discarding_of_mainPc rfl ?_ ?_ <;> rcases hpc' with rfl | rfl <;> simp
  | posEmpty hpc | guiEmpty hpc | guiSize hpc =>
    refine .away rfl (not_discarding_of_mainPc hpc (by simp) (by simp)) ?_ rfl rfl
    refine not_discarding_of_mainPc rfl ?_ ?_ <;> intro i <;> split_ifs <;> simp
  | posPop hpc | guiPop hpc =>
    exact .away rfl (not_discarding_of_mainPc hpc (by simp) (by simp))
      (not_discarding_of_mainPc rfl (by simp) (by simp)) rfl rfl
  | keys pressed hpc =>
    obtain ⟨X, Y, move, -, hc⟩ := steered_keys c pressed
    rw [hc]
    exact .away rfl (not_discarding_of_mainPc hpc (by simp) (by simp))
      (not_discarding_of_mainPc rfl (by simp) (by simp)) rfl rfl
  | mouse color send ready hpc =>
    have hout := not_discarding_of_mainPc hpc (by simp) (by simp)
    refine .away rfl hout (not_discarding_of_mainPc rfl (by simp) (by simp)) ?_ ?_ <;>
      (cases color <;> cases send <;> rfl)
  | move ready hpc =>
    have hout := not_discarding_of_mainPc hpc (by simp) (by simp)
    refine .away rfl hout (not_discarding_of_mainPc rfl (by simp) (by simp)) ?_ ?_ <;>
      (simp only [Client.sendMove]; split_ifs <;> rfl)
  | typing textmessage enter hpc =>
    have hout := not_discarding_of_mainPc hpc (by simp) (by simp)
    refine .away rfl hout (not_discarding_of_mainPc rfl (by simp) (by simp)) ?_ ?_ <;>
      (cases enter <;> rfl)
  | text ready hpc =>
    have hout := not_discarding_of_mainPc hpc (by simp) (by simp)
    refine .away rfl hout (not_discarding_of_mainPc rfl (by simp) (by simp)) ?_ ?_ <;>
      (simp only [Client.sendText]; split_ifs <;> rfl)

end Step

/-! ### The loop of a pass -/

/-- The threads of a client, from a given state on. -/
def clientFrom (c : Client) : Machine Client ClientAct := ⟨c, Client.step⟩

/-- The loop of a batch pass runs from the state `c` to its end in `c'`, in any interleaving with
the other threads, which push no position meanwhile. -/
structure BatchLoop (c : Client) (l : List (Client × ClientAct)) (c' : Client) : Prop where
  exec : (clientFrom c).Exec l c'
  inside : ∀ x ∈ l, x.1.Discarding
  quiet : Meets (fun c a => movedBy .position c a = none) l
  ended : ¬ c'.Discarding

/-- The number of the positions that the loop has popped. -/
def pops (l : List (Client × ClientAct)) : ℕ := l.countP fun x => x.2.drops

/-- The pass collapses the backlog: all the positions but the newest one are popped, and those left
are few enough for the gui block. -/
structure Collapses (c : Client) (l : List (Client × ClientAct)) (c' : Client) : Prop where
  popped : pops l = c.positionJsonQueue.length - 1
  newest : c'.positionJsonQueue = c.positionJsonQueue.getLast?.toList
  admitted : c'.positionJsonQueue.length ≤ maxBatchedPositionsThreshold

/-- The loop has popped `i` of the positions, in as many iterations. -/
structure Halving (q : List Text) (l : List (Client × ClientAct)) (i : ℕ) (c : Client) : Prop where
  le : 2 * i ≤ q.length
  pops : pops l = i
  queue : c.positionJsonQueue = q.drop i

section Loop

variable {c c' : Client} {a : ClientAct} {q : List Text} {l : List (Client × ClientAct)}

lemma clientStep_of_clientFrom {c₀ : Client} (hs : (clientFrom c₀).step c a = some c') :
    ClientStep c a c' :=
  clientStep_of_step (c := c) hs

lemma pops_snoc : pops (l ++ [(c, a)]) = pops l + if a.drops then 1 else 0 := by
  rw [pops, List.countP_append, List.countP_singleton, pops]

lemma drops_of_discards (ha : a.discards = false) : a.drops = false := by
  cases a <;> first | rfl | cases ha

/-- The loop is at its test, or at the pop that the test has let through. -/
inductive InLoop (c : Client) (i : ℕ) : Prop
  | test (hpc : c.mainPc = .discard i)
  | pop (hpc : c.mainPc = .discardPop i) (hi : i + 1 < c.positionJsonQueue.length)

lemma InLoop.discarding {i : ℕ} (h : InLoop c i) : c.Discarding := by
  cases h with
  | test hpc => exact ⟨i, Or.inl hpc⟩
  | pop hpc hi => exact ⟨i, Or.inr hpc⟩

/-- The other threads leave the loop where it is. -/
lemma InLoop.aside {i : ℕ} (h : InLoop c i) (hpc' : c'.mainPc = c.mainPc)
    (hq' : c'.positionJsonQueue = c.positionJsonQueue) : InLoop c' i := by
  cases h with
  | test hpc => exact .test (hpc'.trans hpc)
  | pop hpc hi => exact .pop (hpc'.trans hpc) (by rwa [hq'])

/-- One iteration shortens the queue by one while the counter grows by one; another thread changes
neither. -/
lemma Halving.step {i : ℕ} (h : Halving q l i c) (hin : InLoop c i)
    (hquiet : movedBy .position c a = none) (hs : ClientStep c a c') :
    (∃ j, InLoop c' j ∧ Halving q (l ++ [(c, a)]) j c') ∨
      (¬ c'.Discarding ∧ Halving q (l ++ [(c, a)]) (q.length / 2) c') := by
  have hlen : c.positionJsonQueue.length = q.length - i := by rw [h.queue, List.length_drop]
  have hle := h.le
  have hstay (ha : a.drops = false) : CPPClient.pops (l ++ [(c, a)]) = i := by
    rw [pops_snoc, h.pops, ha]
    rfl
  cases hs.passStep with
  | wake _ _ _ hpc' hq' =>
    exact Or.inl ⟨i, hin.aside hpc' hq', hle, hstay rfl, hq'.trans h.queue⟩
  | begin _ hbatch =>
    exact absurd hin.discarding (not_discarding_of_mainPc hbatch (by simp) (by simp))
  | @test j hpc hi hpc' hq' =>
    obtain rfl : i = j := by
      cases hin with
      | test hpc₁ => exact MainPc.discard.inj (hpc₁.symm.trans hpc)
      | pop hpc₁ => cases hpc₁.symm.trans hpc
    exact Or.inl ⟨i, .pop hpc' (by rwa [hq']), hle, hstay rfl, hq'.trans h.queue⟩
  | @pop j hpc hpc' hq' =>
    obtain ⟨rfl, hi⟩ : i = j ∧ i + 1 < c.positionJsonQueue.length := by
      cases hin with
      | test hpc₁ => cases hpc₁.symm.trans hpc
      | pop hpc₁ hi => exact ⟨MainPc.discardPop.inj (hpc₁.symm.trans hpc), hi⟩
    refine Or.inl ⟨i + 1, .test hpc', by omega, ?_, ?_⟩
    · rw [pops_snoc, h.pops]
      rfl
    · rw [hq', h.queue, List.tail_drop]
  | @finish j hpc hi hpc' hq' =>
    obtain rfl : i = j := by
      cases hin with
      | test hpc₁ => exact MainPc.discard.inj (hpc₁.symm.trans hpc)
      | pop hpc₁ => cases hpc₁.symm.trans hpc
    have hhalf : i = q.length / 2 := by omega
    refine Or.inr ⟨not_discarding_of_mainPc hpc' (by simp) (by simp), by omega, ?_, ?_⟩
    · rw [hstay rfl, hhalf]
    · rw [hq', h.queue, hhalf]
  | aside ha hpc' hq' =>
    rw [hquiet, Option.toList_none, List.append_nil] at hq'
    exact Or.inl ⟨i, hin.aside hpc' hq', hle, hstay (drops_of_discards ha), hq'.trans h.queue⟩
  | away _ hd => exact absurd hin.discarding hd

/-- Along the loop the counter says how many positions have been popped, and at its end half of them
have. -/
theorem BatchLoop.halving (h : BatchLoop c l c') (hpc : c.mainPc = .discard 0) :
    Halving c.positionJsonQueue l (c.positionJsonQueue.length / 2) c' := by
  obtain ⟨hexec, hinside, hquiet, hover⟩ := h
  have hloop : (∃ i, InLoop c' i ∧ Halving c.positionJsonQueue l i c') ∨
      (¬ c'.Discarding ∧ Halving c.positionJsonQueue l (c.positionJsonQueue.length / 2) c') := by
    clear hover
    induction hexec with
    | nil => exact Or.inl ⟨0, .test hpc, Nat.zero_le _, rfl, rfl⟩
    | @snoc l s s' a hl hs ih =>
      obtain ⟨hquiet, ha⟩ := meets_snoc.mp hquiet
      have hin : s.Discarding := hinside (s, a) (by simp)
      rcases ih (fun x hx => hinside x (by simp [hx])) hquiet with ⟨i, hi, hh⟩ | ⟨hout, -⟩
      · exact hh.step hi ha (clientStep_of_clientFrom hs)
      · exact absurd hin hout
  rcases hloop with ⟨i, hi, -⟩ | ⟨-, hh⟩
  · exact absurd hi.discarding hover
  · exact hh

/-- The main loop alone brings the loop to its end. -/
lemma exists_run_discard (c₀ : Client) {i : ℕ} (hpc : c.mainPc = .discard i) :
    ∃ as r, (clientFrom c₀).run c as = some r ∧
      (∀ x ∈ r.1, x.1.Discarding ∧ x.2.discards) ∧ ¬ r.2.Discarding := by
  -- each iteration but the last leaves one position less
  induction hn : c.positionJsonQueue.length using Nat.strong_induction_on generalizing c i with
  | _ n ih =>
    by_cases hi : i + 1 < c.positionJsonQueue.length
    · have htest : (clientFrom c₀).step c .discard
          = some { c with mainPc := .discardPop i } := by
        simp [clientFrom, Client.step, hpc, hi]
      have hpop : (clientFrom c₀).step { c with mainPc := .discardPop i } .discardPop
          = some { c with
            positionJsonQueue := c.positionJsonQueue.tail, mainPc := .discard (i + 1) } := rfl
      have hless : c.positionJsonQueue.tail.length < n := by
        rw [List.length_tail]
        omega
      obtain ⟨as, r, hr, hin, hout⟩ := ih _ hless (c := { c with
        positionJsonQueue := c.positionJsonQueue.tail, mainPc := .discard (i + 1) }) rfl rfl
      refine ⟨.discard :: .discardPop :: as, ((c, .discard) ::
        ({ c with mainPc := .discardPop i }, .discardPop) :: r.1, r.2), ?_, ?_, hout⟩
      · simp [Machine.run, htest, hpop, hr]
      · intro x hx
        rcases List.mem_cons.mp hx with rfl | hx
        · exact ⟨⟨i, Or.inl hpc⟩, rfl⟩
        · rcases List.mem_cons.mp hx with rfl | hx
          · exact ⟨⟨i, Or.inr rfl⟩, rfl⟩
          · exact hin x hx
    · have hstep : (clientFrom c₀).step c .discard
          = some { c with handleBatch := false, mainPc := .posEmpty } := by
        simp [clientFrom, Client.step, hpc, hi]
      refine ⟨[.discard], ([(c, .discard)], { c with handleBatch := false, mainPc := .posEmpty }),
        by simp [Machine.run, hstep], ?_, ?_⟩
      · intro x hx
        obtain rfl := List.mem_singleton.mp hx
        exact ⟨⟨i, Or.inl hpc⟩, rfl⟩
      · exact not_discarding_of_mainPc rfl (by simp) (by simp)

/-- The loop comes to its end. -/
theorem exists_batchLoop {i : ℕ} (hpc : c.mainPc = .discard i) : ∃ l c', BatchLoop c l c' := by
  obtain ⟨as, r, hr, hin, hout⟩ := exists_run_discard c hpc
  refine ⟨r.1, r.2, exec_of_run hr, fun x hx => (hin x hx).1, ?_, hout⟩
  rintro ⟨c₁, a⟩ hx
  have ha : a.discards := (hin _ hx).2
  cases a <;> first | rfl | cases ha

/-- A pass that finds more than two positions leaves at least two. -/
lemma BatchLoop.not_collapses (h : BatchLoop c l c') (hpc : c.mainPc = .discard 0)
    (hn : maxBatchedPositionsThreshold < c.positionJsonQueue.length) : ¬ Collapses c l c' := by
  intro hc
  have hpopped := hc.popped
  rw [(h.halving hpc).pops] at hpopped
  have hn' : 2 < c.positionJsonQueue.length := hn
  omega

/-- **The batch pass, exactly.**  Of `n` positions, more than two, the loop pops `n / 2` and leaves
the newest ones, which are never as few as one; they are no more than the gui block lets wait if and
only if `n` was four at most.  The loop always ends. -/
theorem batch_halves (hpc : c.mainPc = .discard 0)
    (hn : maxBatchedPositionsThreshold < c.positionJsonQueue.length) :
    (∃ l c', BatchLoop c l c') ∧ ∀ l c', BatchLoop c l c' →
      ¬ Collapses c l c' ∧ pops l = c.positionJsonQueue.length / 2 ∧
        c'.positionJsonQueue = c.positionJsonQueue.drop (c.positionJsonQueue.length / 2) ∧
        (c'.positionJsonQueue.length ≤ maxBatchedPositionsThreshold ↔
          c.positionJsonQueue.length ≤ 4) := by
  refine ⟨exists_batchLoop hpc, fun l c' h => ?_⟩
  obtain ⟨-, hpops, hqueue⟩ := h.halving hpc
  refine ⟨h.not_collapses hpc hn, hpops, hqueue, ?_⟩
  rw [hqueue, List.length_drop, maxBatchedPositionsThreshold]
  omega

end Loop

/-! ### Three positions -/

/-- The batch handler wakes up, four positions arrive, and the main loop takes the first one; at the
end of its frame three of them wait. -/
def queueing : List ClientAct :=
  ([.wakeBatchHandler] : List ClientAct) ++ receive positionOfB ++ receive positionOfB
    ++ receive positionOfB ++ receive positionOfB
    ++ ([.posEmpty, .posFront, .posPop, .guiEmpty] : List ClientAct) ++ idleFrame

lemma queueing_runs : ((client someUuid).run (client someUuid).init queueing).isSome := by
  decide +kernel

@[irreducible] def queuedClient : List (Client × ClientAct) × Client :=
  ((client someUuid).run (client someUuid).init queueing).get queueing_runs

lemma exec_queued : (client someUuid).Exec queuedClient.1 queuedClient.2 := by
  rw [queuedClient]
  exact exec_get_run queueing_runs

lemma queued_check : queuedClient.2.mainPc = .discard 0 ∧
    queuedClient.2.positionJsonQueue.length = 3 := by
  rw [queuedClient]
  decide +kernel

/-- A batch pass can leave more than the newest position. -/
theorem backlog_kept : ¬ ∀ c, (client someUuid).Reachable c → c.mainPc = .discard 0 →
    maxBatchedPositionsThreshold < c.positionJsonQueue.length →
      ∀ l c', BatchLoop c l c' → Collapses c l c' := by
  intro h
  obtain ⟨hpc, hlen⟩ := queued_check
  have hn : maxBatchedPositionsThreshold < queuedClient.2.positionJsonQueue.length := by
    rw [hlen]
    decide
  obtain ⟨l, c', hloop⟩ := exists_batchLoop hpc
  exact hloop.not_collapses hpc hn (h _ ⟨_, exec_queued⟩ hpc hn l c' hloop)

theorem batch_halves_queued : ∃ l c', BatchLoop queuedClient.2 l c' ∧
    ¬ Collapses queuedClient.2 l c' ∧ pops l = 1 ∧ c'.positionJsonQueue.length ≤ 2 := by
  obtain ⟨hpc, hlen⟩ := queued_check
  obtain ⟨⟨l, c', hloop⟩, hall⟩ := batch_halves hpc (by rw [hlen]; decide)
  obtain ⟨hnot, hpops, -, hfew⟩ := hall l c' hloop
  refine ⟨l, c', hloop, hnot, ?_, hfew.mpr ?_⟩
  · rw [hpops, hlen]
  · rw [hlen]
    decide

/-! ### The flag -/

/-- The backlog can still be discarded: the flag is set, or will be. -/
def Client.Armed (c : Client) : Prop := c.handleBatch ∨ c.batchPending

/-- The flag is set once only, and stays set during a pass. -/
structure Primed (c : Client) : Prop where
  once : c.handleBatch → c.batchPending = false
  pass : c.Discarding → c.handleBatch

section Armed

variable {c c' : Client} {a : ClientAct} {uuid : UuidV4} {l : List (Client × ClientAct)}

lemma Primed.start (uuid : UuidV4) : Primed (Client.start uuid) where
  once := fun h => absurd h (by simp [Client.start])
  pass := fun h => absurd h (start_not_discarding uuid)

lemma Primed.step (h : Primed c) (hs : PassStep c c' a) : Primed c' := by
  cases hs with
  | wake hb hb' hh hpc hq => exact ⟨fun _ => hb', fun _ => hh⟩
  | begin hd hpc hpc' hb hh =>
    rw [Client.discards, Bool.and_eq_true] at hd
    refine ⟨?_, fun _ => hh.trans hd.1⟩
    rw [hb, hh]
    exact h.once
  | test hpc hi hpc' hq hb hh =>
    refine ⟨?_, fun _ => hh.trans (h.pass ⟨_, Or.inl hpc⟩)⟩
    rw [hb, hh]
    exact h.once
  | pop hpc hpc' hq hb hh =>
    refine ⟨?_, fun _ => hh.trans (h.pass ⟨_, Or.inr hpc⟩)⟩
    rw [hb, hh]
    exact h.once
  | finish hpc hi hpc' hq hb hh =>
    have hout : ¬ c'.Discarding := not_discarding_of_mainPc hpc' (by simp) (by simp)
    refine ⟨fun hset => ?_, fun hin => absurd hin hout⟩
    rw [hh] at hset
    cases hset
  | aside ha hpc hq hb hh =>
    refine ⟨?_, ?_⟩
    · rw [hb, hh]
      exact h.once
    · rw [Client.Discarding, hpc, hh]
      exact h.pass
  | away ha hd hd' hb hh =>
    refine ⟨?_, fun hin => absurd hin hd'⟩
    rw [hb, hh]
    exact h.once

lemma primed_of_exec (l : List (Client × ClientAct)) (c : Client) (h : (client uuid).Exec l c) :
    Primed c :=
  h.invariant (Primed.start uuid) fun _ _ _ hp hs => hp.step (clientStep_of_step hs).passStep

lemma endsPass_of_discards (ha : a.discards = false) : c.endsPass a = false := by
  cases a <;> first | rfl | cases ha

lemma armed_of_flags (harmed : c.Armed) (hb : c'.batchPending = c.batchPending)
    (hh : c'.handleBatch = c.handleBatch) : c'.Armed := by
  rw [Client.Armed, hb, hh]
  exact harmed

/-- Only the end of a pass disarms a client. -/
lemma Primed.armed_iff (h : Primed c) (harmed : c.Armed) (hs : PassStep c c' a) :
    c'.Armed ↔ ¬ c.endsPass a := by
  cases hs with
  | wake hb hb' hh hpc hq => exact iff_of_true (Or.inl hh) (by simp [Client.endsPass])
  | begin hd hpc hpc' hb hh =>
    exact iff_of_true (armed_of_flags harmed hb hh) (by simp [Client.endsPass])
  | test hpc hi hpc' hq hb hh =>
    exact iff_of_true (armed_of_flags harmed hb hh) (by simp [Client.endsPass, hpc, hi])
  | pop hpc hpc' hq hb hh =>
    exact iff_of_true (armed_of_flags harmed hb hh) (by simp [Client.endsPass])
  | finish hpc hi hpc' hq hb hh =>
    refine iff_of_false ?_ (by simp [Client.endsPass, hpc, hi])
    have hoff : c.batchPending = false := h.once (h.pass ⟨_, Or.inl hpc⟩)
    simp [Client.Armed, hb, hh, hoff]
  | aside ha hpc hq hb hh =>
    exact iff_of_true (armed_of_flags harmed hb hh) (by simp [endsPass_of_discards ha])
  | away ha hd hd' hb hh =>
    exact iff_of_true (armed_of_flags harmed hb hh) (by simp [endsPass_of_discards ha])

/-- A client that is not armed sets no flag and begins no pass. -/
lemma disarmed_step (h : ¬ c.Armed ∧ ¬ c.Discarding) (hs : PassStep c c' a) :
    ¬ c'.Armed ∧ ¬ c'.Discarding := by
  obtain ⟨hoff, hout⟩ := h
  have hkeep (hb : c'.batchPending = c.batchPending) (hh : c'.handleBatch = c.handleBatch) :
      ¬ c'.Armed := by
    intro harmed
    exact hoff (armed_of_flags harmed hb.symm hh.symm)
  cases hs with
  | wake hb => exact absurd (Or.inr hb) hoff
  | begin hd =>
    rw [Client.discards, Bool.and_eq_true] at hd
    exact absurd (Or.inl hd.1) hoff
  | test hpc | finish hpc => exact absurd ⟨_, Or.inl hpc⟩ hout
  | pop hpc => exact absurd ⟨_, Or.inr hpc⟩ hout
  | aside ha hpc hq hb hh =>
    refine ⟨hkeep hb hh, ?_⟩
    rw [Client.Discarding, hpc]
    exact hout
  | away ha hd hd' hb hh => exact ⟨hkeep hb hh, hd'⟩

/-- **The recovery, exactly.**  A backlog can still be discarded in every state of a run if and only
if no batch pass has come to its end. -/
theorem recovery_armed_iff (h : (client uuid).Exec l c) :
    Always Client.Armed l c ↔ Meets (fun c a => ¬ c.endsPass a) l :=
  h.always_iff_meets primed_of_exec (Or.inr rfl) fun _ _ _ hp harmed hs =>
    hp.armed_iff harmed (clientStep_of_step hs).passStep

/-- **No second pass.**  Once a client is not armed, nothing arms it again, and it never comes to
another batch pass. -/
theorem disarmed_forever {c₁ c₂ : Client} (hreach : (client uuid).Reachable c₁) (h : ¬ c₁.Armed)
    (hleads : (client uuid).Leads c₁ c₂) : ¬ c₂.Armed ∧ ¬ c₂.Discarding := by
  obtain ⟨l, hl⟩ := hreach
  have hout : ¬ c₁.Discarding := fun hin => h (Or.inl ((primed_of_exec l c₁ hl).pass hin))
  exact hleads.stable (P := fun c => ¬ c.Armed ∧ ¬ c.Discarding)
    (fun _ _ _ hd hs => disarmed_step hd (clientStep_of_step hs).passStep) ⟨h, hout⟩

end Armed

/-- The batch pass over the three positions. -/
def recovering : List ClientAct := queueing ++ ([.discard, .discardPop, .discard] : List ClientAct)

lemma recovering_runs : ((client someUuid).run (client someUuid).init recovering).isSome := by
  decide +kernel

@[irreducible] def recoveredClient : List (Client × ClientAct) × Client :=
  ((client someUuid).run (client someUuid).init recovering).get recovering_runs

lemma exec_recovered : (client someUuid).Exec recoveredClient.1 recoveredClient.2 := by
  rw [recoveredClient]
  exact exec_get_run recovering_runs

/-- After its first batch pass a client can be left without another. -/
theorem recovery_disarmed : ¬ ∀ c, (client someUuid).Reachable c → c.Armed := by
  intro h
  have hoff : ¬ (recoveredClient.2.handleBatch ∨ recoveredClient.2.batchPending) := by
    rw [recoveredClient]
    decide +kernel
  exact hoff (h _ ⟨_, exec_recovered⟩)

theorem recovery_armed_iff_recovered : Always Client.Armed recoveredClient.1 recoveredClient.2 ↔
    Meets (fun c a => ¬ c.endsPass a) recoveredClient.1 :=
  recovery_armed_iff exec_recovered

end MultiplayerCars.CPPClient
