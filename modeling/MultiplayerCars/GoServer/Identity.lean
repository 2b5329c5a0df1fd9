import MultiplayerCars.GoServer.OneExit

/-!
# Clients and their UUIDs

The registry is keyed by the client, while broadcasts, direct messages and exit notices tell the
players apart by their UUIDs, which come with the requests.  As long as nobody is added under a
UUID that a registered client has, all is well: the registered clients have different UUIDs, an
exit notice is about none of those that remain, and a direct message has one receiver.
-/

namespace MultiplayerCars.GoServer

open Lib Lib.Json Lib.Machine

/-- The UUIDs tell the clients apart. -/
structure Identified (s : Server) : Prop where
  /-- Registered clients have different UUIDs. -/
  distinct : ∀ p ∈ s.clients, ∀ q ∈ s.clients, (s.client p).uuid = (s.client q).uuid → p = q
  /-- While an exit is broadcast, no registered client has the UUID of the one that left. -/
  exits : ∀ t l, (s.pc t).loop? = some l → l.packet.cause = .exit →
    ∀ p ∈ s.clients, (s.client p).uuid ≠ (s.client t.owner).uuid
  /-- A direct message is sent to one client at most. -/
  direct : ∀ t l u, (s.pc t).loop? = some l → l.peers = .only u →
    ∀ p ∈ l.seen, ∀ q ∈ l.seen, p = q

/-- Nobody is added under the UUID of a registered client, and a direct message that has been sent
to a client is not sent to another. -/
def Unclaimed (s : Server) (a : Act) : Prop :=
  (∀ c, a = .insert c → ∀ p ∈ s.clients, (s.client p).uuid ≠ (s.client c).uuid) ∧
    ∀ t p l u, a = .pick t p → s.pc t = .range l → l.peers = .only u → l.seen = ∅

/-! ### Loops, UUIDs and the registry in one step -/

/-- A goroutine is in a range loop because it was, or because the loop has just produced an entry,
or because it has just begun. -/
lemma Step.loop_cases {s s' : Server} {a : Act} (hs : Step s a s') (hst : Started s) {t : Thread}
    {l : RangeLoop} (h : (s'.pc t).loop? = some l) :
    (s.pc t).loop? = some l ∨
      (∃ p l₀, a = .pick t p ∧ s.pc t = .range l₀ ∧ s.Produces l₀ p ∧ l = l₀.mark p) ∨
      (l.seen = ∅ ∧ (l.packet.cause = .exit → ∃ now, a = .delete t now)) := by
  rcases hs.goes hst t with he | hg
  · rw [he] at h
    exact Or.inl h
  · generalize hp : s.pc t = p at hg
    generalize s'.pc t = q at hg h
    cases hg with
    | @pick _ p l₀ hprod =>
      injection h with h
      exact Or.inr (Or.inl ⟨p, l₀, rfl, rfl, hprod, h.symm⟩)
    | handoff => exact Or.inl h
    | announce =>
      injection h with h
      subst h
      exact Or.inr (Or.inr ⟨rfl, fun hc => by cases hc⟩)
    | endRange =>
      rw [loop_next] at h
      cases h
    | readFrame =>
      rw [Server.handled] at h
      split at h
      · cases h
      · split at h
        · cases h
        · injection h with h
          subst h
          exact Or.inr (Or.inr ⟨rfl, fun hc => by cases hc⟩)
        · cases h
    | @delete _ now =>
      injection h with h
      subst h
      exact Or.inr (Or.inr ⟨rfl, fun _ => ⟨now, rfl⟩⟩)
    | @pingDone _ ok => cases ok <;> cases h
    | @tickDone _ ok => cases ok <;> cases h
    | check => split_ifs at h <;> cases h
    | _ => cases h

/-- A connected client keeps its UUID. -/
lemma Step.uuid_stays {s s' : Server} {a : Act} (hs : Step s a s') {c : ClientId}
    (hc : s.pc (.serve c) ≠ .idle) : (s'.client c).uuid = (s.client c).uuid := by
  rcases hs.uuid_cases c with he | ⟨uuid, color, rfl, -⟩
  · exact he
  · cases hs with
    | connect hidle => exact absurd hidle hc

/-- A goroutine that is about to delete an entry finds it. -/
lemma mem_of_removeDelete {l : List (Server × Act)} {s : Server} (h : manager.Exec l s)
    {t : Thread} (ht : s.pc t = .removeDelete) : t.owner ∈ s.clients := by
  have hent := (inv_of_exec _ _ h).entered ht (Or.inr rfl)
  rcases phase_of_exec h t.owner with ⟨-, hbefore⟩ | ⟨s₁, t₁, rest, -, hduring⟩
  · exact absurd hent (hbefore.notEntered t rfl)
  · have he : t = t₁ := hduring.alone rfl hent (by simp [ht])
    subst he
    have hst := hduring.stage
    rw [ht] at hst
    rw [hst.1]
    exact hduring.member

/-! ### One step -/

/-- What a step needs to know of the state before it. -/
structure Ready (s : Server) : Prop where
  inv : Inv s
  entry : ∀ t : Thread, s.pc t = .removeDelete → t.owner ∈ s.clients

lemma Ready.uuid {s s' : Server} {a : Act} (h : Ready s) (hs : Step s a s') {c : ClientId}
    (hc : c ∈ s.clients) : (s'.client c).uuid = (s.client c).uuid :=
  hs.uuid_stays (h.inv.serve_ne_idle hc)

lemma unclaimed_of_identified {s s' : Server} {a : Act} (hr : Ready s) (hs : Step s a s')
    (h' : Identified s') : Unclaimed s a := by
  refine ⟨?_, ?_⟩
  · rintro c rfl p hp he
    cases hs with
    | insert hc =>
      have hpc : p = c := h'.distinct p (Finset.mem_insert_of_mem hp) c
        (Finset.mem_insert_self c _) he
      refine hr.inv.registered (.serve c) ?_ (hpc ▸ hp)
      rw [hc]
      trivial
  · rintro t p l u rfl ht hu
    cases hs with
    | pick ht₀ hprod =>
      rw [ht] at ht₀
      cases ht₀
      rw [Finset.eq_empty_iff_forall_notMem]
      intro q hq
      have hpq : p = q := h'.direct t (l.mark p) u (by rw [Server.goto_pc_self]; rfl) hu p
        (Finset.mem_insert_self p _) q (Finset.mem_insert_of_mem hq)
      exact hprod.2.1 (hpq ▸ hq)

lemma Identified.distinct_step {s s' : Server} {a : Act} (h : Identified s) (hr : Ready s)
    (hs : Step s a s') (hok : Unclaimed s a) :
    ∀ p ∈ s'.clients, ∀ q ∈ s'.clients, (s'.client p).uuid = (s'.client q).uuid → p = q := by
  rcases hs.clients_cases with he | ⟨c, rfl, hc, he⟩ | ⟨t, now, rfl, -, he⟩
  · intro p hp q hq hpq
    rw [he] at hp hq
    rw [hr.uuid hs hp, hr.uuid hs hq] at hpq
    exact h.distinct p hp q hq hpq
  · intro p hp q hq hpq
    have hcu : (s'.client c).uuid = (s.client c).uuid := hs.uuid_stays (by simp [hc])
    rw [he] at hp hq
    rcases Finset.mem_insert.mp hp with rfl | hp' <;>
      rcases Finset.mem_insert.mp hq with rfl | hq'
    · rfl
    · rw [hcu, hr.uuid hs hq'] at hpq
      exact absurd hpq.symm (hok.1 p rfl q hq')
    · rw [hcu, hr.uuid hs hp'] at hpq
      exact absurd hpq (hok.1 q rfl p hp')
    · rw [hr.uuid hs hp', hr.uuid hs hq'] at hpq
      exact h.distinct p hp' q hq' hpq
  · intro p hp q hq hpq
    rw [he] at hp hq
    have hp := Finset.mem_of_mem_erase hp
    have hq := Finset.mem_of_mem_erase hq
    rw [hr.uuid hs hp, hr.uuid hs hq] at hpq
    exact h.distinct p hp q hq hpq

lemma Inv.serve_ne_idle_of_loop {s : Server} (hi : Inv s) {t : Thread} {l : RangeLoop}
    (ht : (s.pc t).loop? = some l) : s.pc (.serve t.owner) ≠ .idle := by
  refine hi.serve_ne_idle_of_pc fun hidle => ?_
  rw [hidle] at ht
  cases ht

lemma holds_of_exit {q : Pc} {l : RangeLoop} (hq : q.loop? = some l)
    (hexit : l.packet.cause = .exit) : q.Holds := by
  cases q with
  | range l' =>
    injection hq with hq
    rw [← hq] at hexit
    exact hexit
  | send l' p =>
    injection hq with hq
    rw [← hq] at hexit
    exact hexit
  | _ => cases hq

/-- Nobody is added while an exit is broadcast, and the one that left is out. -/
lemma Identified.exits_step {s s' : Server} {a : Act} (h : Identified s) (hr : Ready s)
    (hs : Step s a s') (t : Thread) (l : RangeLoop) (ht : (s'.pc t).loop? = some l)
    (hexit : l.packet.cause = .exit) :
    ∀ p ∈ s'.clients, (s'.client p).uuid ≠ (s'.client t.owner).uuid := by
  have hgoing : ∀ l₀, (s.pc t).loop? = some l₀ → l₀.packet.cause = .exit →
      ∀ p ∈ s'.clients, (s'.client p).uuid ≠ (s'.client t.owner).uuid := by
    intro l₀ ht₀ hexit₀ p hp
    have hlock : s.lock = some t := (hr.inv.guarded t).mpr (holds_of_exit ht₀ hexit₀)
    have hp₀ : p ∈ s.clients := by
      rcases hs.clients_cases with he | ⟨c, -, hc, -⟩ | ⟨_, _, -, -, he⟩
      · rwa [he] at hp
      · -- `addClient` would hold the mutex
        have hserve : Thread.serve c = t := hr.inv.eq_of_holds hlock (by rw [hc]; trivial)
        rw [← hserve, hc] at ht₀
        cases ht₀
      · rw [he] at hp
        exact Finset.mem_of_mem_erase hp
    rw [hr.uuid hs hp₀, hs.uuid_stays (hr.inv.serve_ne_idle_of_loop ht₀)]
    exact h.exits t l₀ ht₀ hexit₀ p hp₀
  rcases hs.loop_cases hr.inv.started ht with hold | ⟨p₀, l₀, -, hl₀, -, rfl⟩ | ⟨-, hnew⟩
  · exact hgoing l hold hexit
  · exact hgoing l₀ (by rw [hl₀]; rfl) hexit
  · obtain ⟨now, rfl⟩ := hnew hexit
    intro p hp he
    cases hs with
    | delete hdel =>
      obtain ⟨hne, hp₀⟩ := Finset.mem_erase.mp hp
      exact hne (h.distinct p hp₀ t.owner (hr.entry t hdel) he)

lemma Identified.direct_step {s s' : Server} {a : Act} (h : Identified s) (hst : Started s)
    (hs : Step s a s') (hok : Unclaimed s a) (t : Thread) (l : RangeLoop) (u : Text)
    (ht : (s'.pc t).loop? = some l) (hu : l.peers = .only u) :
    ∀ p ∈ l.seen, ∀ q ∈ l.seen, p = q := by
  rcases hs.loop_cases hst ht with hold | ⟨p₀, l₀, rfl, hl₀, -, rfl⟩ | ⟨hempty, -⟩
  · exact h.direct t l u hold hu
  · have hseen : l₀.seen = ∅ := hok.2 t p₀ l₀ u rfl hl₀ hu
    intro p hp q hq
    simp only [RangeLoop.mark, hseen, Finset.mem_insert, Finset.notMem_empty, or_false] at hp hq
    rw [hp, hq]
  · intro p hp
    rw [hempty] at hp
    exact absurd hp (Finset.notMem_empty p)

theorem identified_step {s s' : Server} {a : Act} (hr : Ready s) (h : Identified s)
    (hs : Step s a s') : Identified s' ↔ Unclaimed s a := by
  constructor
  · exact unclaimed_of_identified hr hs
  · intro hok
    exact ⟨h.distinct_step hr hs hok, h.exits_step hr hs, h.direct_step hr.inv.started hs hok⟩

/-- **UUIDs tell the clients apart, exactly** in the runs in which nobody is added under the UUID of
a registered client, and no direct message that has been sent to a client is sent to another. -/
theorem always_identified_iff {l : List (Server × Act)} {s : Server} (h : manager.Exec l s) :
    Always Identified l s ↔ Meets Unclaimed l := by
  have h₀ : Identified Server.init := by
    refine ⟨fun _ hp => absurd hp (Finset.notMem_empty _), ?_, ?_⟩
    · intro t l ht
      cases ht
    · intro t l u ht
      cases ht
  exact h.always_iff_meets (I := Ready)
    (fun l s hl => ⟨inv_of_exec l s hl, fun t ht => mem_of_removeDelete hl ht⟩) h₀
    fun _ _ _ hr hi hs => identified_step hr hi (step_cases hs)

/-- A second request comes with the UUID of a registered client. -/
def sameUuid : List Act :=
  [.connect 0 ['a'] ['c'], .lockAdd 0, .insert 0, .unlockAdd 0,
    .connect 1 ['a'] ['c'], .lockAdd 1, .insert 1]

lemma sameUuid_runs : (manager.run manager.init sameUuid).isSome := by
  decide

def sameUuidRun : List (Server × Act) × Server :=
  (manager.run manager.init sameUuid).get sameUuid_runs

lemma exec_sameUuid : manager.Exec sameUuidRun.1 sameUuidRun.2 := exec_get_run sameUuid_runs

/-- Two registered clients can have one UUID. -/
theorem one_uuid_twice : ¬ ∀ s, manager.Reachable s → Identified s := by
  intro h
  have he := (h sameUuidRun.2 ⟨_, exec_sameUuid⟩).distinct 0 (by decide) 1 (by decide) (by decide)
  cases he

theorem always_identified_iff_sameUuid :
    Always Identified sameUuidRun.1 sameUuidRun.2 ↔ Meets Unclaimed sameUuidRun.1 :=
  always_identified_iff exec_sameUuid

end MultiplayerCars.GoServer
