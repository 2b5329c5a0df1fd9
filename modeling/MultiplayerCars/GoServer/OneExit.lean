import MultiplayerCars.GoServer.ExitNotice
import MultiplayerCars.GoServer.Goroutine

/-!
# One exit for each client

Both loops of a client defer `removeClient`.  The call that takes the mutex first finds the client
in the registry: it closes the connection, deletes the entry and gives notice, all under the
mutex, so that nobody joins or leaves before every peer has the notice.  The call that comes second
finds no entry, and releases the mutex again.
-/

namespace MultiplayerCars.GoServer

open Lib Lib.Json Lib.Machine

/-! ### The calls of a run -/

/-- The goroutine of `c` that takes the mutex for `removeClient` with this action. -/
def Act.enters (c : ClientId) : Act → Option Thread
  | .lockRemove t => if t.owner = c then some t else none
  | _ => none

/-- The calls of `removeClient` for `c` that have taken the mutex, in that order, each with the
state in which it took it. -/
def calls (c : ClientId) (l : List (Server × Act)) : List (Server × Thread) :=
  l.filterMap fun x => (x.2.enters c).map fun t => (x.1, t)

/-- The action starts an exit broadcast for `c`. -/
def Act.notifies (c : ClientId) : Act → Bool
  | .delete t _ => t.owner = c
  | _ => false

/-- How many exit broadcasts for `c` were started. -/
def exitBroadcasts (c : ClientId) (l : List (Server × Act)) : ℕ := l.countP fun x => x.2.notifies c

/-- The exit notices of `c` that `b` has received. -/
def exitsOf (c : ClientId) (s : Server) (b : ClientId) : List Packet :=
  (s.received b).filter fun k => k.ExitOf c

/-- The goroutine that takes a step. -/
def Act.mover : Act → Thread
  | .connect c _ _ | .lockAdd c | .insert c | .unlockAdd c | .announce c _ | .spawnRead c
  | .spawnWrite c => .serve c
  | .readFrame c _ _ | .readStop c | .debugDone c => .read c
  | .wrote c | .ping c | .pingDone c _ | .tick c _ | .tickDone c _ => .write c
  | .pick t _ | .handoff t _ | .endRange t | .lockRemove t | .check t | .close t | .delete t _
  | .unlockRemove t => t

/-- The step of `t` from `s` to `s'` changes nothing but the owner of the mutex and the place of
`t`. -/
def Silent (t : Thread) (s s' : Server) : Prop :=
  { s' with lock := s.lock, pc := s.pc } = s ∧ ∀ t', t' ≠ t → s'.pc t' = s.pc t'

/-- The goroutine has taken the mutex for its `removeClient`. -/
def Thread.Entered : Thread → Pc → Prop
  | .serve _, _ => False
  | _, .removeCheck | _, .removeClose | _, .removeDelete | _, .removeUnlock | _, .done => True
  | _, .range l | _, .send l _ => l.packet.cause = .exit
  | _, _ => False

lemma calls_snoc (c : ClientId) (l : List (Server × Act)) (s : Server) (a : Act) :
    calls c (l ++ [(s, a)]) = calls c l ++ ((a.enters c).map fun t => (s, t)).toList := by
  cases h : a.enters c <;> simp [calls, h]

lemma exitBroadcasts_snoc (c : ClientId) (l : List (Server × Act)) (s : Server) (a : Act) :
    exitBroadcasts c (l ++ [(s, a)]) = exitBroadcasts c l + if a.notifies c then 1 else 0 := by
  simp [exitBroadcasts, List.countP_append, List.countP_singleton]

/-- A call is entered where it takes the mutex. -/
lemma Goes.entered {s : Server} {a : Act} {t : Thread} {p q : Pc} (hg : Goes s a t p q)
    (hh : t.Hosts p) (hq : t.Entered q) : t.Entered p ∨ a = .lockRemove t := by
  cases hg with
  | lockRemove => exact Or.inr rfl
  | pick => cases t <;> exact Or.inl hq
  | handoff => cases t <;> exact Or.inl hq
  | @endRange t l hx =>
    left
    rw [RangeLoop.next] at hq
    cases hc : l.packet.cause with
    | exit => cases t <;> first | exact hq.elim | exact hc
    | announce =>
      rw [hc] at hq
      cases t <;> exact hq.elim
    | frame n type =>
      rw [hc] at hq
      cases t <;> exact hq.elim
  | readFrame =>
    rw [Server.handled] at hq
    split at hq
    · exact hq.elim
    · split at hq
      · exact hq.elim
      · cases hq
      · exact hq.elim
  | @pingDone _ ok => cases ok <;> exact hq.elim
  | @tickDone _ ok => cases ok <;> exact hq.elim
  | check => cases t <;> first | exact hq.elim | exact Or.inl trivial
  | close => cases t <;> first | exact hq.elim | exact Or.inl trivial
  | delete => cases t <;> first | exact hq.elim | exact Or.inl trivial
  | unlockRemove => cases t <;> first | exact hq.elim | exact Or.inl trivial
  | _ => exact hq.elim

/-- Only the three kinds of steps inside `addClient` and `removeClient` change the registry and
the connections, each at its place. -/
lemma Step.clients_cases {s s' : Server} {a : Act} (hs : Step s a s') :
    s'.clients = s.clients ∨
      (∃ c, a = .insert c ∧ s.pc (.serve c) = .addInsert ∧ s'.clients = Insert.insert c s.clients) ∨
      (∃ t now, a = .delete t now ∧ s.pc t = .removeDelete ∧
        s'.clients = s.clients.erase t.owner) := by
  cases hs with
  | insert hc => exact Or.inr (Or.inl ⟨_, rfl, hc, rfl⟩)
  | delete ht => exact Or.inr (Or.inr ⟨_, _, rfl, ht, rfl⟩)
  | readFrame =>
    obtain ⟨q, color, -, heq⟩ := readFrame_cases s _ _ _
    rw [heq]
    exact Or.inl rfl
  | _ => exact Or.inl rfl

lemma Step.closes_cases {s s' : Server} {a : Act} (hs : Step s a s') (c : ClientId) :
    s'.closes c = s.closes c ∨
      ∃ t, a = .close t ∧ t.owner = c ∧ s.pc t = .removeClose ∧ s'.closes c = s.closes c + 1 := by
  cases hs with
  | @close t ht =>
    by_cases hc : t.owner = c
    · subst hc
      exact Or.inr ⟨t, rfl, rfl, ht, by simp⟩
    · exact Or.inl (by simp [Ne.symm hc])
  | readFrame =>
    obtain ⟨q, color, -, heq⟩ := readFrame_cases s _ _ _
    rw [heq]
    exact Or.inl rfl
  | _ => exact Or.inl rfl

lemma Step.exits_cases {s s' : Server} {a : Act} (hs : Step s a s') (c b : ClientId) :
    exitsOf c s' b = exitsOf c s b ∨
      ∃ t l, a = .handoff t b ∧ s.pc t = .send l b ∧ l.packet.ExitOf c ∧
        exitsOf c s' b = exitsOf c s b ++ [l.packet] := by
  rcases hs.received_cases b with heq | ⟨t, l, ha, ht, heq⟩
  · rw [exitsOf, heq]
    exact Or.inl rfl
  · by_cases hk : l.packet.ExitOf c
    · refine Or.inr ⟨t, l, ha, ht, hk, ?_⟩
      rw [exitsOf, heq, List.filter_append, List.filter_singleton]
      simp [exitsOf, hk]
    · left
      rw [exitsOf, heq, List.filter_append, List.filter_singleton]
      simp [exitsOf, hk]

lemma Act.notifies_iff {c : ClientId} {a : Act} :
    a.notifies c ↔ ∃ t now, a = .delete t now ∧ t.owner = c := by
  cases a <;> simp [Act.notifies]

/-! ### Before the first call -/

lemma Inv.entered {s : Server} (hi : Inv s) {t : Thread} {q : Pc} (ht : s.pc t = q)
    (hq : q = .removeClose ∨ q = .removeDelete) : t.Entered (s.pc t) := by
  have hr : t = .read t.owner ∨ t = .write t.owner :=
    hi.placed.remover ht (by rcases hq with rfl | rfl <;> simp)
  rw [ht]
  rcases hr with hr | hr <;> rw [hr] <;> rcases hq with rfl | rfl <;> trivial

/-- Exit notices of `c` come out of a call for `c`. -/
lemma Inv.entered_of_exit {s : Server} (hi : Inv s) {t : Thread} {l : RangeLoop} {c p : ClientId}
    (ht : s.pc t = .send l p) (hk : l.packet.ExitOf c) : t.owner = c ∧ t.Entered (s.pc t) := by
  have hh : t.Hosts (.send l p) := hi.placed.hosts_of_eq ht
  obtain ⟨rfl, hexit⟩ := hk
  rw [ht]
  cases t with
  | serve c =>
    have hann : l.packet.cause = .announce := hh.2
    rw [hexit] at hann
    cases hann
  | read c => exact ⟨hh.1.symm, hexit⟩
  | write c => exact ⟨hh.1.symm, hexit⟩

/-- No call for `c` has taken the mutex. -/
structure Before (c : ClientId) (l : List (Server × Act)) (s : Server) : Prop where
  notEntered : ∀ t : Thread, t.owner = c → ¬ t.Entered (s.pc t)
  closes : s.closes c = 0
  broadcasts : exitBroadcasts c l = 0
  exits : ∀ b, exitsOf c s b = []
  member : ¬ (Thread.serve c).Absent (s.pc (.serve c)) → c ∈ s.clients

theorem Before.init (c : ClientId) : Before c [] Server.init where
  notEntered := fun t _ => by cases t <;> exact id
  closes := rfl
  broadcasts := rfl
  exits := fun _ => rfl
  member := fun h => absurd trivial h

lemma Step.mem_of_kept {s s' : Server} {a : Act} (hs : Step s a s') {c : ClientId}
    (hc : c ∈ s.clients) (hkeep : ∀ t now, a = .delete t now → t.owner ≠ c) : c ∈ s'.clients := by
  rcases hs.clients_cases with he | ⟨c', -, -, he⟩ | ⟨t, now, ha, -, he⟩
  · rw [he]
    exact hc
  · rw [he]
    exact Finset.mem_insert_of_mem hc
  · rw [he]
    exact Finset.mem_erase.mpr ⟨(hkeep t now ha).symm, hc⟩

theorem Before.step {c : ClientId} {l : List (Server × Act)} {s s' : Server} {a : Act}
    (h : Before c l s) (hi : Inv s) (hs : Step s a s') (ha : a.enters c = none) :
    Before c (l ++ [(s, a)]) s' := by
  -- who deletes has entered
  have hkeep : ∀ t now, a = .delete t now → t.owner ≠ c := by
    rintro t now rfl ho
    cases hs with
    | delete ht => exact h.notEntered t ho (hi.entered ht (Or.inr rfl))
  refine ⟨?_, ?_, ?_, ?_, ?_⟩
  · intro t ho ht
    rcases hs.goes hi.started t with he | hg
    · rw [he] at ht
      exact h.notEntered t ho ht
    · rcases hg.entered (hi.placed t) ht with ht | rfl
      · exact h.notEntered t ho ht
      · simp [Act.enters, ho] at ha
  · rcases hs.closes_cases c with he | ⟨t, -, ho, ht, -⟩
    · rw [he]
      exact h.closes
    · exact absurd (hi.entered ht (Or.inl rfl)) (h.notEntered t ho)
  · have hn : a.notifies c = false := by
      rw [Bool.eq_false_iff]
      intro hn
      obtain ⟨t, now, ha, ho⟩ := Act.notifies_iff.mp hn
      exact hkeep t now ha ho
    rw [exitBroadcasts_snoc, h.broadcasts, hn]
    rfl
  · intro b
    rcases hs.exits_cases c b with he | ⟨t, l', -, ht, hk, -⟩
    · rw [he]
      exact h.exits b
    · obtain ⟨ho, hent⟩ := hi.entered_of_exit ht hk
      exact absurd hent (h.notEntered t ho)
  · intro hc
    rcases hs.goes hi.started (.serve c) with he | hg
    · rw [he] at hc
      exact hs.mem_of_kept (h.member hc) hkeep
    · have hold := h.member
      generalize s.pc (.serve c) = p at hg hold
      generalize s'.pc (.serve c) = q at hg hc
      cases hg with
      | connect => exact absurd trivial hc
      | lockAdd => exact absurd trivial hc
      | insert =>
        cases hs with
        | insert => exact Finset.mem_insert_self _ _
      | _ => exact hs.mem_of_kept (hold (by simp [Thread.Absent])) hkeep

/-! ### From the first call on -/

/-- The packet says that `c` has left, with the UUID and the colour that `c` has when a broadcast of
the run is started. -/
def Notice (c : ClientId) (l : List (Server × Act)) (k : Packet) : Prop :=
  ∃ s₂ t now, (s₂, Act.delete t now) ∈ l ∧ t.owner = c ∧
    k = ⟨c, .event ⟨bEventExternalConnectionExitMessage, (s₂.client c).uuid, now, 0, 0,
      (s₂.client c).color⟩, .exit⟩

/-- The call that took the mutex in `s₁` has deleted the entry of `c`, and its broadcast is at
`r`. -/
structure Telling (c : ClientId) (s₁ : Server) (l : List (Server × Act)) (s : Server)
    (r : RangeLoop) : Prop where
  clients : s.clients = s₁.clients.erase c
  closes : s.closes c = 1
  broadcasts : exitBroadcasts c l = 1
  peers : r.peers = .others (s₁.client c).uuid
  present : r.present = s₁.clients.erase c
  notice : Notice c l r.packet

/-- What the call that took the mutex in `s₁` has done when it is at this place. -/
def Stage (c : ClientId) (s₁ : Server) (l : List (Server × Act)) (s : Server) : Pc → Prop
  | .removeCheck | .removeClose => s.clients = s₁.clients ∧ s.closes c = 0 ∧
      exitBroadcasts c l = 0 ∧ ∀ b, exitsOf c s b = []
  | .removeDelete => s.clients = s₁.clients ∧ s.closes c = 1 ∧ exitBroadcasts c l = 0 ∧
      ∀ b, exitsOf c s b = []
  | .range r => Telling c s₁ l s r ∧ ∀ b, exitsOf c s b = if b ∈ r.seen then [r.packet] else []
  | .send r p => Telling c s₁ l s r ∧ p ∈ r.seen ∧
      ∀ b, exitsOf c s b = if b ∈ r.seen ∧ b ≠ p then [r.packet] else []
  | .removeUnlock | .done => s.closes c = 1 ∧ exitBroadcasts c l = 1 ∧ ∃ k, Notice c l k ∧
      ∀ b ∈ s₁.clients, (s₁.client b).uuid ≠ (s₁.client c).uuid → exitsOf c s b = [k]
  | _ => False

/-- `t` was the first goroutine of `c` to take the mutex, in the state `s₁`. -/
structure During (c : ClientId) (s₁ : Server) (t : Thread) (l : List (Server × Act)) (s : Server) :
    Prop where
  loop : t = .read c ∨ t = .write c
  inv : Inv s₁
  leads : manager.Leads s₁ s
  member : c ∈ s₁.clients
  stage : Stage c s₁ l s (s.pc t)
  others : ∀ t', t'.owner = c → t' ≠ t → t'.Entered (s.pc t') →
    s.pc t = .done ∧ (s.pc t' = .removeCheck ∨ s.pc t' = .removeUnlock ∨ s.pc t' = .done)

lemma During.owner {c : ClientId} {s₁ s : Server} {t : Thread} {l : List (Server × Act)}
    (h : During c s₁ t l s) : t.owner = c := by
  rcases h.loop with rfl | rfl <;> rfl

lemma Notice.mono {c : ClientId} {l : List (Server × Act)} {k : Packet} (h : Notice c l k)
    (x : Server × Act) : Notice c (l ++ [x]) k := by
  obtain ⟨s₂, t, now, hmem, ho, hk⟩ := h
  exact ⟨s₂, t, now, List.mem_append_left _ hmem, ho, hk⟩

lemma Notice.exitOf {c : ClientId} {l : List (Server × Act)} {k : Packet} (h : Notice c l k) :
    k.ExitOf c := by
  obtain ⟨s₂, t, now, -, -, rfl⟩ := h
  exact ⟨rfl, rfl⟩

lemma Telling.mono {c : ClientId} {s₁ s s' : Server} {l : List (Server × Act)} {r r' : RangeLoop}
    {x : Server × Act} (h : Telling c s₁ l s r) (hclients : s'.clients = s.clients)
    (hcloses : s'.closes c = s.closes c) (hbroad : exitBroadcasts c (l ++ [x]) = exitBroadcasts c l)
    (hr : r'.peers = r.peers ∧ r'.packet = r.packet ∧ r'.present = r.present) :
    Telling c s₁ (l ++ [x]) s' r' where
  clients := hclients.trans h.clients
  closes := hcloses.trans h.closes
  broadcasts := hbroad.trans h.broadcasts
  peers := hr.1.trans h.peers
  present := hr.2.2.trans h.present
  notice := by
    rw [hr.2.1]
    exact h.notice.mono x

/-- The call stays where it is as long as others move. -/
lemma Stage.frame {c : ClientId} {s₁ s s' : Server} {l : List (Server × Act)} {x : Server × Act}
    {p : Pc} (h : Stage c s₁ l s p) (hclients : p ≠ .done → s'.clients = s.clients)
    (hcloses : s'.closes c = s.closes c) (hbroad : exitBroadcasts c (l ++ [x]) = exitBroadcasts c l)
    (hexits : ∀ b, exitsOf c s' b = exitsOf c s b) : Stage c s₁ (l ++ [x]) s' p := by
  have hbefore : ∀ n, (s.clients = s₁.clients ∧ s.closes c = n ∧ exitBroadcasts c l = 0 ∧
      ∀ b, exitsOf c s b = []) → s'.clients = s.clients →
        (s'.clients = s₁.clients ∧ s'.closes c = n ∧ exitBroadcasts c (l ++ [x]) = 0 ∧
          ∀ b, exitsOf c s' b = []) := by
    rintro n ⟨h₁, h₂, h₃, h₄⟩ hc
    exact ⟨hc.trans h₁, hcloses.trans h₂, hbroad.trans h₃, fun b => (hexits b).trans (h₄ b)⟩
  have hafter : (s.closes c = 1 ∧ exitBroadcasts c l = 1 ∧ ∃ k, Notice c l k ∧
      ∀ b ∈ s₁.clients, (s₁.client b).uuid ≠ (s₁.client c).uuid → exitsOf c s b = [k]) →
        s'.closes c = 1 ∧ exitBroadcasts c (l ++ [x]) = 1 ∧ ∃ k, Notice c (l ++ [x]) k ∧
          ∀ b ∈ s₁.clients, (s₁.client b).uuid ≠ (s₁.client c).uuid → exitsOf c s' b = [k] := by
    rintro ⟨h₁, h₂, k, hk, h₃⟩
    exact ⟨hcloses.trans h₁, hbroad.trans h₂, k, hk.mono x,
      fun b hb hne => (hexits b).trans (h₃ b hb hne)⟩
  cases p with
  | removeCheck => exact hbefore 0 h (hclients (by simp))
  | removeClose => exact hbefore 0 h (hclients (by simp))
  | removeDelete => exact hbefore 1 h (hclients (by simp))
  | range r =>
    exact ⟨h.1.mono (hclients (by simp)) hcloses hbroad ⟨rfl, rfl, rfl⟩,
      fun b => (hexits b).trans (h.2 b)⟩
  | send r q =>
    exact ⟨h.1.mono (hclients (by simp)) hcloses hbroad ⟨rfl, rfl, rfl⟩, h.2.1,
      fun b => (hexits b).trans (h.2.2 b)⟩
  | removeUnlock => exact hafter h
  | done => exact hafter h
  | _ => exact h.elim

/-- The first call holds the mutex until it returns. -/
lemma During.holds {c : ClientId} {s₁ s : Server} {t : Thread} {l : List (Server × Act)}
    (h : During c s₁ t l s) (hi : Inv s) (hd : s.pc t ≠ .done) : s.lock = some t := by
  refine (hi.guarded t).mpr ?_
  have hst := h.stage
  generalize s.pc t = p at hst hd
  cases p with
  | removeCheck => trivial
  | removeClose => trivial
  | removeDelete => trivial
  | removeUnlock => trivial
  | range r => exact hst.1.notice.exitOf.2
  | send r q => exact hst.1.notice.exitOf.2
  | done => exact absurd rfl hd
  | _ => exact hst.elim

lemma Inv.eq_of_holds {s : Server} (hi : Inv s) {t t' : Thread} (hl : s.lock = some t)
    (ht' : (s.pc t').Holds) : t' = t :=
  Option.some.inj (((hi.guarded t').mpr ht').symm.trans hl)

/-- While the first call holds the mutex, the registry changes by its own deletion only. -/
lemma During.clients {c : ClientId} {s₁ s s' : Server} {t : Thread} {l : List (Server × Act)}
    {a : Act} (h : During c s₁ t l s) (hi : Inv s) (hs : Step s a s') (hd : s.pc t ≠ .done) :
    s'.clients = s.clients ∨ ∃ now, a = .delete t now := by
  have hl := h.holds hi hd
  rcases hs.clients_cases with he | ⟨c', -, hp, -⟩ | ⟨t', now, rfl, hp, -⟩
  · exact Or.inl he
  · have ht : Thread.serve c' = t := hi.eq_of_holds hl (by rw [hp]; trivial)
    subst ht
    have hst := h.stage
    rw [hp] at hst
    exact hst.elim
  · have ht : t' = t := hi.eq_of_holds hl (by rw [hp]; trivial)
    rw [ht]
    exact Or.inr ⟨now, rfl⟩

/-- What happens to the connection of `c` and to the notices of its exit happens in the first
call. -/
lemma During.alone {c : ClientId} {s₁ s : Server} {t t' : Thread} {l : List (Server × Act)}
    (h : During c s₁ t l s) (ho : t'.owner = c) (hent : t'.Entered (s.pc t'))
    (hp : s.pc t' ≠ .removeCheck ∧ s.pc t' ≠ .removeUnlock ∧ s.pc t' ≠ .done) : t' = t := by
  by_contra hne
  rcases (h.others t' ho hne hent).2 with he | he | he
  · exact hp.1 he
  · exact hp.2.1 he
  · exact hp.2.2 he

lemma During.closes {c : ClientId} {s₁ s s' : Server} {t : Thread} {l : List (Server × Act)}
    {a : Act} (h : During c s₁ t l s) (hi : Inv s) (hs : Step s a s') :
    s'.closes c = s.closes c ∨ a = .close t ∧ s'.closes c = s.closes c + 1 := by
  rcases hs.closes_cases c with he | ⟨t', rfl, ho, hp, he⟩
  · exact Or.inl he
  · have ht : t' = t := h.alone ho (hi.entered hp (Or.inl rfl)) (by simp [hp])
    rw [ht]
    exact Or.inr ⟨rfl, he⟩

lemma During.broadcasts {c : ClientId} {s₁ s s' : Server} {t : Thread}
    {l : List (Server × Act)} {a : Act} (h : During c s₁ t l s) (hi : Inv s) (hs : Step s a s') :
    exitBroadcasts c (l ++ [(s, a)]) = exitBroadcasts c l ∨
      (∃ now, a = .delete t now) ∧ exitBroadcasts c (l ++ [(s, a)]) = exitBroadcasts c l + 1 := by
  rw [exitBroadcasts_snoc]
  cases hn : a.notifies c with
  | false => exact Or.inl rfl
  | true =>
    obtain ⟨t', now, rfl, ho⟩ := Act.notifies_iff.mp hn
    have hp : s.pc t' = .removeDelete := by
      cases hs with
      | delete ht => exact ht
    have ht : t' = t := h.alone ho (hi.entered hp (Or.inr rfl)) (by simp [hp])
    rw [ht]
    exact Or.inr ⟨⟨now, rfl⟩, rfl⟩

lemma During.exits {c : ClientId} {s₁ s s' : Server} {t : Thread} {l : List (Server × Act)}
    {a : Act} (h : During c s₁ t l s) (hi : Inv s) (hs : Step s a s') (b : ClientId) :
    exitsOf c s' b = exitsOf c s b ∨
      ∃ r, a = .handoff t b ∧ s.pc t = .send r b ∧
        exitsOf c s' b = exitsOf c s b ++ [r.packet] := by
  rcases hs.exits_cases c b with he | ⟨t', r, rfl, hp, hk, he⟩
  · exact Or.inl he
  · obtain ⟨ho, hent⟩ := hi.entered_of_exit hp hk
    have ht : t' = t := h.alone ho hent (by simp [hp])
    subst ht
    exact Or.inr ⟨r, rfl, hp, he⟩

/-- A step that is no close, no delete and no hand-over leaves what the first call has done. -/
lemma During.quiet {c : ClientId} {s₁ s s' : Server} {t : Thread} {l : List (Server × Act)}
    {a : Act} (h : During c s₁ t l s) (hi : Inv s) (hs : Step s a s') (hclose : a ≠ .close t)
    (hdelete : ∀ now, a ≠ .delete t now) (hhand : ∀ b, a ≠ .handoff t b) :
    (s.pc t ≠ .done → s'.clients = s.clients) ∧ s'.closes c = s.closes c ∧
      exitBroadcasts c (l ++ [(s, a)]) = exitBroadcasts c l ∧
      ∀ b, exitsOf c s' b = exitsOf c s b := by
  refine ⟨fun hd => ?_, ?_, ?_, fun b => ?_⟩
  · rcases h.clients hi hs hd with he | ⟨now, ha⟩
    · exact he
    · exact absurd ha (hdelete now)
  · rcases h.closes hi hs with he | ⟨ha, -⟩
    · exact he
    · exact absurd ha hclose
  · rcases h.broadcasts hi hs with he | ⟨⟨now, ha⟩, -⟩
    · exact he
    · exact absurd ha (hdelete now)
  · rcases h.exits hi hs b with he | ⟨r, ha, -, -⟩
    · exact he
    · exact absurd ha (hhand b)

/-- A peer keeps the UUID that it had when the first call took the mutex. -/
lemma During.uuid {c : ClientId} {s₁ s : Server} {t : Thread} {l : List (Server × Act)}
    (h : During c s₁ t l s) {b : ClientId} (hb : b ∈ s₁.clients) :
    (s.client b).uuid = (s₁.client b).uuid :=
  Leads.uuid h.leads (h.inv.serve_ne_idle hb)

/-- A broadcast that has come to its end has told everybody. -/
lemma During.told {c : ClientId} {s₁ s : Server} {t : Thread} {l : List (Server × Act)}
    {r : RangeLoop} (h : During c s₁ t l s) (ht : s.pc t = .range r) (hx : s.Exhausted r) :
    ∀ b ∈ s₁.clients, (s₁.client b).uuid ≠ (s₁.client c).uuid → exitsOf c s b = [r.packet] := by
  intro b hb hne
  have hst := h.stage
  rw [ht] at hst
  obtain ⟨htell, hexits⟩ := hst
  have hbc : b ∈ s₁.clients.erase c :=
    Finset.mem_erase.mpr ⟨fun he => hne (by rw [he]), hb⟩
  have hseen : b ∈ r.seen := by
    refine hx b ?_ ?_ ?_
    · rw [htell.present]
      exact hbc
    · rw [htell.clients]
      exact hbc
    · rw [htell.peers, h.uuid hb]
      simpa [Peers.admits] using hne
  rw [hexits b, if_pos hseen]

/-- A close, a delete and a hand-over move the goroutine that takes them. -/
lemma Step.moves {s s' : Server} {a : Act} {t : Thread} (hs : Step s a s')
    (ha : a = .close t ∨ (∃ now, a = .delete t now) ∨ ∃ b, a = .handoff t b) :
    s'.pc t ≠ s.pc t := by
  rcases ha with rfl | ⟨now, rfl⟩ | ⟨b, rfl⟩
  · cases hs with
    | close ht =>
      rw [ht, Server.goto_pc_self]
      simp
  · cases hs with
    | delete ht =>
      rw [ht, Server.goto_pc_self]
      simp
  · cases hs with
    | handoff ht hw =>
      -- the receiver, which moves too, is a writer in its select
      have hne : t ≠ .write b := ne_of_pc ht hw (by simp)
      rw [ht, Server.goto_pc_of_ne hne, Server.goto_pc_self]
      simp

section StageStep

variable {c : ClientId} {s₁ s s' : Server} {t : Thread} {l : List (Server × Act)} {a : Act}

/-- While the goroutine of the first call does not move, nothing is added to what it has done. -/
lemma During.stage_still (h : During c s₁ t l s) (hi : Inv s) (hs : Step s a s')
    (he : s'.pc t = s.pc t) : Stage c s₁ (l ++ [(s, a)]) s' (s'.pc t) := by
  obtain ⟨h₁, h₂, h₃, h₄⟩ := h.quiet hi hs
    (fun ha => hs.moves (Or.inl ha) he)
    (fun now ha => hs.moves (Or.inr (Or.inl ⟨now, ha⟩)) he)
    (fun b ha => hs.moves (Or.inr (Or.inr ⟨b, ha⟩)) he)
  rw [he]
  exact h.stage.frame h₁ h₂ h₃ h₄

/-- The loop of the first call produces a peer. -/
lemma During.stage_pick {b : ClientId} {r : RangeLoop} (h : During c s₁ t l s) (hi : Inv s)
    (hs : Step s (.pick t b) s') (hp : s.pc t = .range r) (hprod : s.Produces r b) :
    Stage c s₁ (l ++ [(s, .pick t b)]) s' (.send (r.mark b) b) := by
  obtain ⟨h₁, h₂, h₃, h₄⟩ := h.quiet hi hs (by simp) (by simp) (by simp)
  have hst := h.stage
  rw [hp] at hst h₁
  obtain ⟨htell, hexits⟩ := hst
  refine ⟨htell.mono (h₁ (by simp)) h₂ h₃ ⟨rfl, rfl, rfl⟩, Finset.mem_insert_self _ _, ?_⟩
  intro b'
  rw [h₄ b', hexits b']
  by_cases hb : b' = b
  · subst hb
    rw [if_neg hprod.2.1, if_neg (by simp)]
  · simp [RangeLoop.mark, hb]

/-- The loop of the first call hands the notice to a peer, which gets it for the first time. -/
lemma During.stage_handoff {b : ClientId} {r : RangeLoop} (h : During c s₁ t l s) (hi : Inv s)
    (hs : Step s (.handoff t b) s') (hp : s.pc t = .send r b) :
    Stage c s₁ (l ++ [(s, .handoff t b)]) s' (.range r) := by
  have hst := h.stage
  rw [hp] at hst
  obtain ⟨htell, hseen, hexits⟩ := hst
  have h₁ : s'.clients = s.clients := by
    rcases h.clients hi hs (by simp [hp]) with he | ⟨now, ha⟩
    · exact he
    · cases ha
  have h₂ : s'.closes c = s.closes c := by
    rcases h.closes hi hs with he | ⟨ha, -⟩
    · exact he
    · cases ha
  have h₃ : exitBroadcasts c (l ++ [(s, .handoff t b)]) = exitBroadcasts c l := by
    rcases h.broadcasts hi hs with he | ⟨⟨now, ha⟩, -⟩
    · exact he
    · cases ha
  refine ⟨htell.mono h₁ h₂ h₃ ⟨rfl, rfl, rfl⟩, ?_⟩
  have hself : exitsOf c s' b = [r.packet] := by
    have hnone : exitsOf c s b = [] := by
      rw [hexits b]
      simp
    rw [exitsOf, (hs.handed hp).1, List.filter_append, ← exitsOf, hnone]
    simp [htell.notice.exitOf]
  intro b'
  by_cases hb : b' = b
  · subst hb
    rw [hself, if_pos hseen]
  · have hother : exitsOf c s' b' = exitsOf c s b' := by
      rcases h.exits hi hs b' with he | ⟨r', ha, -, -⟩
      · exact he
      · injection ha with _ hb'
        exact absurd hb'.symm hb
    rw [hother, hexits b']
    simp [hb]

/-- The first call closes the connection, once. -/
lemma During.stage_close (h : During c s₁ t l s) (hi : Inv s) (hs : Step s (.close t) s')
    (hp : s.pc t = .removeClose) : Stage c s₁ (l ++ [(s, .close t)]) s' .removeDelete := by
  have hst := h.stage
  rw [hp] at hst
  have h₃ : exitBroadcasts c (l ++ [(s, .close t)]) = exitBroadcasts c l := by
    rcases h.broadcasts hi hs with he | ⟨⟨now, ha⟩, -⟩
    · exact he
    · cases ha
  cases hs with
  | close =>
    refine ⟨hst.1, ?_, h₃.trans hst.2.2.1, hst.2.2.2⟩
    have hone : Function.update s.closes t.owner (s.closes t.owner + 1) c = 1 := by
      rw [h.owner]
      simp [hst.2.1]
    exact hone

/-- The first call deletes the entry, and begins to tell the others. -/
lemma During.stage_delete {now : Text} (h : During c s₁ t l s) (hs : Step s (.delete t now) s')
    (hp : s.pc t = .removeDelete) :
    Stage c s₁ (l ++ [(s, .delete t now)]) s' (.range ⟨.others (s.client t.owner).uuid,
      s.clientExit t.owner now, s.clients.erase t.owner, ∅⟩) := by
  have hst := h.stage
  rw [hp] at hst
  have h₃ : exitBroadcasts c (l ++ [(s, .delete t now)]) = 1 := by
    rw [exitBroadcasts_snoc, hst.2.2.1]
    simp [Act.notifies, h.owner]
  cases hs with
  | delete =>
    refine ⟨⟨?_, hst.2.1, h₃, ?_, ?_, ?_⟩, ?_⟩
    · rw [h.owner, ← hst.1]
      rfl
    · rw [h.owner, h.uuid h.member]
    · rw [h.owner, hst.1]
    · exact ⟨s, t, now, by simp, h.owner, by rw [h.owner, Server.clientExit]⟩
    · intro b
      rw [if_neg (Finset.notMem_empty b)]
      exact hst.2.2.2 b

/-- What the first call has done after a step. -/
theorem During.stage_step (h : During c s₁ t l s) (hi : Inv s) (hs : Step s a s') :
    Stage c s₁ (l ++ [(s, a)]) s' (s'.pc t) := by
  rcases hs.goes hi.started t with he | hg
  · exact h.stage_still hi hs he
  · have hst := h.stage
    have hquiet := h.quiet hi hs
    generalize hp : s.pc t = p at hg hst hquiet
    generalize s'.pc t = q at hg
    cases hg with
    | pick hprod => exact h.stage_pick hi hs hp hprod
    | handoff => exact h.stage_handoff hi hs hp
    | @endRange _ r hx =>
      obtain ⟨h₁, h₂, h₃, h₄⟩ := hquiet (by simp) (by simp) (by simp)
      have htell := hst.1
      have hnext : r.next = .removeUnlock := by
        rw [RangeLoop.next, htell.notice.exitOf.2]
      rw [hnext]
      exact ⟨h₂.trans htell.closes, h₃.trans htell.broadcasts, r.packet, htell.notice.mono _,
        fun b hb hne => (h₄ b).trans (h.told hp hx b hb hne)⟩
    | check =>
      obtain ⟨h₁, h₂, h₃, h₄⟩ := hquiet (by simp) (by simp) (by simp)
      have hmem : t.owner ∈ s.clients := by
        rw [h.owner, hst.1]
        exact h.member
      rw [if_pos hmem]
      exact ⟨(h₁ (by simp)).trans hst.1, h₂.trans hst.2.1, h₃.trans hst.2.2.1,
        fun b => (h₄ b).trans (hst.2.2.2 b)⟩
    | close => exact h.stage_close hi hs hp
    | delete => exact h.stage_delete hs hp
    | unlockRemove =>
      obtain ⟨h₁, h₂, h₃, h₄⟩ := hquiet (by simp) (by simp) (by simp)
      obtain ⟨hc, hb, k, hk, hall⟩ := hst
      exact ⟨h₂.trans hc, h₃.trans hb, k, hk.mono _,
        fun b hb' hne => (h₄ b).trans (hall b hb' hne)⟩
    | _ => exact hst.elim

end StageStep

/-- A second call finds no entry. -/
theorem During.others_step {c : ClientId} {s₁ s s' : Server} {t : Thread}
    {l : List (Server × Act)} {a : Act} (h : During c s₁ t l s) (hi : Inv s) (hs : Step s a s')
    {t' : Thread} (ho : t'.owner = c) (hne : t' ≠ t) (hent : t'.Entered (s'.pc t')) :
    s'.pc t = .done ∧
      (s'.pc t' = .removeCheck ∨ s'.pc t' = .removeUnlock ∨ s'.pc t' = .done) := by
  have hdone : s.pc t = .done → s'.pc t = .done := by
    intro hd
    rcases hs.stays hi.started hd (Or.inl rfl) with he | ⟨_, _, -, he, -⟩
    · exact he
    · cases he
  rcases hs.goes hi.started t' with he | hg
  · rw [he] at hent ⊢
    obtain ⟨hd, hp⟩ := h.others t' ho hne hent
    exact ⟨hdone hd, hp⟩
  · rcases hg.entered (hi.placed t') hent with hold | rfl
    · obtain ⟨hd, hp⟩ := h.others t' ho hne hold
      refine ⟨hdone hd, ?_⟩
      have hgone : t'.owner ∉ s.clients := by
        have habs : t.Absent (s.pc t) := by
          rw [hd]
          rcases h.loop with rfl | rfl <;> trivial
        have hc := hi.registered t habs
        rwa [h.owner, ← ho] at hc
      generalize s.pc t' = p at hg hp
      generalize s'.pc t' = q at hg
      rcases hp with rfl | rfl | rfl
      · cases hg with
        | check =>
          rw [if_neg hgone]
          exact Or.inr (Or.inl rfl)
      · cases hg with
        | unlockRemove => exact Or.inr (Or.inr rfl)
      · cases hg
    · cases hs with
      | lockRemove ht hl =>
        have hd : s.pc t = .done := by
          by_contra hd
          rw [h.holds hi hd] at hl
          cases hl
        refine ⟨?_, Or.inl (Server.goto_pc_self _ _ _)⟩
        rw [Server.goto_pc_of_ne (Ne.symm hne)]
        exact hd

theorem During.step {c : ClientId} {s₁ s s' : Server} {t : Thread} {l : List (Server × Act)}
    {a : Act} (h : During c s₁ t l s) (hi : Inv s) (hs : manager.step s a = some s') :
    During c s₁ t (l ++ [(s, a)]) s' where
  loop := h.loop
  inv := h.inv
  leads := h.leads.tail ⟨a, hs⟩
  member := h.member
  stage := h.stage_step hi (step_cases hs)
  others := fun _ ho hne hent => h.others_step hi (step_cases hs) ho hne hent

/-- A client whose loops run has been inserted into the registry. -/
lemma Inv.not_absent {s : Server} (hi : Inv s) {t : Thread} {c : ClientId}
    (hloop : t = .read c ∨ t = .write c) (ht : s.pc t ≠ .idle) :
    ¬ (Thread.serve c).Absent (s.pc (.serve c)) := by
  obtain ⟨hread, hwrite⟩ := hi.started c
  intro habs
  generalize s.pc (.serve c) = p at habs hread hwrite
  rcases hloop with rfl | rfl
  · refine ht (hread.mpr ?_)
    cases p <;> first | exact id | exact habs.elim
  · refine ht (hwrite.mpr ?_)
    rintro rfl
    exact habs

/-- The first goroutine of `c` takes the mutex. -/
theorem Before.during {c : ClientId} {l : List (Server × Act)} {s s' : Server} {t : Thread}
    (h : Before c l s) (hi : Inv s) (hs : manager.step s (.lockRemove t) = some s')
    (ho : t.owner = c) : During c s t (l ++ [(s, .lockRemove t)]) s' := by
  have hstep := step_cases hs
  have hbroad : exitBroadcasts c (l ++ [(s, .lockRemove t)]) = 0 := by
    rw [exitBroadcasts_snoc, h.broadcasts]
    rfl
  have hothers : ∀ t', t'.owner = c → t' ≠ t → ¬ t'.Entered (s'.pc t') := by
    intro t' ho' hne hent
    rcases hstep.goes hi.started t' with he | hg
    · rw [he] at hent
      exact h.notEntered t' ho' hent
    · rcases hg.entered (hi.placed t') hent with hent | ha
      · exact h.notEntered t' ho' hent
      · injection ha with ht
        exact hne ht.symm
  have hleads : manager.Leads s s' := Relation.ReflTransGen.single ⟨_, hs⟩
  cases hstep with
  | lockRemove ht hl =>
    have hloop : t = .read c ∨ t = .write c := by
      rw [← ho]
      exact hi.placed.remover ht (Or.inl rfl)
    refine ⟨hloop, hi, hleads, ?_, ?_, ?_⟩
    · exact h.member (hi.not_absent hloop (by simp [ht]))
    · rw [Server.goto_pc_self]
      exact ⟨rfl, h.closes, hbroad, h.exits⟩
    · exact fun t' ho' hne hent => absurd hent (hothers t' ho' hne)

/-- Where a run is with the calls for `c`. -/
theorem phase_of_exec {l : List (Server × Act)} {s : Server} (h : manager.Exec l s)
    (c : ClientId) : (calls c l = [] ∧ Before c l s) ∨
      ∃ s₁ t rest, calls c l = (s₁, t) :: rest ∧ During c s₁ t l s := by
  induction h with
  | nil => exact Or.inl ⟨rfl, Before.init c⟩
  | @snoc l s s' a hl hs ih =>
    have hi := inv_of_exec _ _ hl
    rw [calls_snoc]
    rcases ih with ⟨hnil, hbefore⟩ | ⟨s₁, t, rest, hcalls, hduring⟩
    · rw [hnil, List.nil_append]
      cases ha : a.enters c with
      | none => exact Or.inl ⟨rfl, hbefore.step hi (step_cases hs) ha⟩
      | some t =>
        obtain ⟨ho, rfl⟩ : t.owner = c ∧ a = .lockRemove t := by
          cases a with
          | lockRemove t₀ =>
            rw [Act.enters, Option.ite_none_right_eq_some] at ha
            obtain ⟨ho, ht⟩ := ha
            injection ht with ht
            subst ht
            exact ⟨ho, rfl⟩
          | _ => cases ha
        exact Or.inr ⟨s, t, [], rfl, hbefore.during hi hs ho⟩
    · refine Or.inr ⟨s₁, t, rest ++ ((a.enters c).map fun t => (s, t)).toList, ?_,
        hduring.step hi hs⟩
      rw [hcalls, List.cons_append]

/-! ### Exactly one exit -/

/-- At the start of `removeClient`, at its test when there is no entry, and at its end, a step
changes nothing that anybody sees. -/
lemma Step.silent {s s' : Server} {a : Act} (hs : Step s a s') {t : Thread} (hm : a.mover = t)
    (hp : s.pc t = .removeLock ∨ (s.pc t = .removeCheck ∧ t.owner ∉ s.clients) ∨
      s.pc t = .removeUnlock) : Silent t s s' := by
  have hgoto : ∀ q, Silent t s (s.goto t q) := fun q =>
    ⟨rfl, fun t' hne => Server.goto_pc_of_ne hne⟩
  cases hs with
  | lockRemove ht hl =>
    cases hm
    exact ⟨rfl, fun t' hne => Server.goto_pc_of_ne hne⟩
  | check ht =>
    cases hm
    exact hgoto _
  | unlockRemove ht =>
    cases hm
    exact ⟨rfl, fun t' hne => Server.goto_pc_of_ne hne⟩
  | _ =>
    cases hm
    exfalso
    rcases hp with hp | ⟨hp, -⟩ | hp <;> simp_all [Act.mover]

/-- A goroutine inside `removeClient` has taken the mutex, or is about to. -/
lemma Inv.entered_or_lock {s : Server} (hi : Inv s) {t : Thread} (h : (s.pc t).Leaving) :
    t.Entered (s.pc t) ∨ s.pc t = .removeLock := by
  have hh := hi.placed t
  generalize s.pc t = p at h hh
  cases t with
  | serve c =>
    cases p with
    | range l => exact absurd (hh.2.symm.trans h) (by simp)
    | send l q => exact absurd (hh.2.symm.trans h) (by simp)
    | _ => first | exact h.elim | exact hh.elim
  | read c => cases p <;> first | exact Or.inr rfl | exact Or.inl h | exact h.elim
  | write c => cases p <;> first | exact Or.inr rfl | exact Or.inl h | exact h.elim

lemma During.head {c : ClientId} {s₁ : Server} {t : Thread} {l₁ l₂ : List (Server × Act)}
    {rest : List (Server × Thread)} (h : calls c l₁ = (s₁, t) :: rest) :
    (calls c (l₁ ++ l₂)).head? = some (s₁, t) := by
  have happ : calls c (l₁ ++ l₂) = calls c l₁ ++ calls c l₂ := List.filterMap_append
  rw [happ, h]
  rfl

/-- What a run does to remove `c`. -/
structure OneExit (c : ClientId) (l : List (Server × Act)) (s : Server) : Prop where
  /-- The connection is closed at most once, and at most one exit broadcast is started. -/
  once : s.closes c ≤ 1 ∧ exitBroadcasts c l ≤ 1
  /-- Both are done by the call that took the mutex first. -/
  first : ∀ x ∈ l, ∀ t : Thread, t.owner = c → (x.2 = .close t ∨ ∃ now, x.2 = .delete t now) →
    ∃ s₁, (calls c l).head? = some (s₁, t)
  /-- When that call has returned, every client with another UUID that was in the registry when
  it took the mutex has received exactly one exit notice, with the UUID of `c` and the colour
  that `c` had when the broadcast was started. -/
  told : ∀ s₁ t, (calls c l).head? = some (s₁, t) → s.pc t = .done →
    s.closes c = 1 ∧ exitBroadcasts c l = 1 ∧ ∃ k, Notice c l k ∧
      ∀ b ∈ s₁.clients, (s₁.client b).uuid ≠ (s₁.client c).uuid → exitsOf c s b = [k]
  /-- From the broadcast on, `c` is not in the registry. -/
  gone : 0 < exitBroadcasts c l → c ∉ s.clients
  /-- The other call changes nothing and sends nothing. -/
  other : ∀ s₁ t, (calls c l).head? = some (s₁, t) → ∀ x ∈ l, ∀ t' : Thread, t'.owner = c →
    t' ≠ t → x.2.mover = t' → (x.1.pc t').Leaving →
      ∀ s', manager.step x.1 x.2 = some s' → Silent t' x.1 s'

lemma During.once {c : ClientId} {s₁ s : Server} {t : Thread} {l : List (Server × Act)}
    (h : During c s₁ t l s) : s.closes c ≤ 1 ∧ exitBroadcasts c l ≤ 1 := by
  have hst := h.stage
  generalize s.pc t = p at hst
  cases p with
  | removeCheck => exact ⟨hst.2.1.trans_le (by omega), hst.2.2.1.trans_le (by omega)⟩
  | removeClose => exact ⟨hst.2.1.trans_le (by omega), hst.2.2.1.trans_le (by omega)⟩
  | removeDelete => exact ⟨hst.2.1.le, hst.2.2.1.trans_le (by omega)⟩
  | range r => exact ⟨hst.1.closes.le, hst.1.broadcasts.le⟩
  | send r q => exact ⟨hst.1.closes.le, hst.1.broadcasts.le⟩
  | removeUnlock => exact ⟨hst.1.le, hst.2.1.le⟩
  | done => exact ⟨hst.1.le, hst.2.1.le⟩
  | _ => exact hst.elim

lemma During.gone {c : ClientId} {s₁ s : Server} {t : Thread} {l : List (Server × Act)}
    (h : During c s₁ t l s) (hi : Inv s) (hb : 0 < exitBroadcasts c l) : c ∉ s.clients := by
  have habs : t.Absent (s.pc t) := by
    have hst := h.stage
    generalize s.pc t = p at hst
    cases p with
    | removeCheck => exact absurd hst.2.2.1 (by omega)
    | removeClose => exact absurd hst.2.2.1 (by omega)
    | removeDelete => exact absurd hst.2.2.1 (by omega)
    | range r => rcases h.loop with rfl | rfl <;> exact hst.1.notice.exitOf.2
    | send r q => rcases h.loop with rfl | rfl <;> exact hst.1.notice.exitOf.2
    | removeUnlock => rcases h.loop with rfl | rfl <;> trivial
    | done => rcases h.loop with rfl | rfl <;> trivial
    | _ => exact hst.elim
  have hc := hi.registered t habs
  rwa [h.owner] at hc

/-- A goroutine of `c` that closes or deletes belongs to the first call. -/
lemma first_of_mem {l : List (Server × Act)} {s : Server} (h : manager.Exec l s) {c : ClientId}
    {x : Server × Act} (hx : x ∈ l) {t : Thread} (ho : t.owner = c)
    (ha : x.2 = .close t ∨ ∃ now, x.2 = .delete t now) :
    ∃ s₁, (calls c l).head? = some (s₁, t) := by
  obtain ⟨l₁, l₂, rfl, hl₁⟩ := h.split_of_mem hx
  obtain ⟨s', hstep, -⟩ := h.leads_of_mem hx
  obtain ⟨s₀, a⟩ := x
  have hp : s₀.pc t = .removeClose ∨ s₀.pc t = .removeDelete := by
    rcases ha with rfl | ⟨now, rfl⟩
    · cases step_cases hstep with
      | close ht => exact Or.inl ht
    · cases step_cases hstep with
      | delete ht => exact Or.inr ht
  have hent : t.Entered (s₀.pc t) := (inv_of_exec _ _ hl₁).entered rfl hp
  rcases phase_of_exec hl₁ c with ⟨-, hbefore⟩ | ⟨s₁, t₁, rest, hcalls, hduring⟩
  · exact absurd hent (hbefore.notEntered t ho)
  · have ht : t = t₁ := hduring.alone ho hent (by rcases hp with hp | hp <;> simp [hp])
    rw [ht]
    exact ⟨s₁, During.head hcalls⟩

/-- What another call does is silent. -/
lemma silent_of_mem {l : List (Server × Act)} {s : Server} (h : manager.Exec l s) {c : ClientId}
    {s₁ : Server} {t : Thread} (hhead : (calls c l).head? = some (s₁, t)) {x : Server × Act}
    (hx : x ∈ l) {t' : Thread} (ho : t'.owner = c) (hne : t' ≠ t) (hm : x.2.mover = t')
    (hleave : (x.1.pc t').Leaving) {s' : Server} (hs : manager.step x.1 x.2 = some s') :
    Silent t' x.1 s' := by
  obtain ⟨l₁, l₂, rfl, hl₁⟩ := h.split_of_mem hx
  obtain ⟨s₀, a⟩ := x
  have hi := inv_of_exec _ _ hl₁
  have hstep := step_cases hs
  rcases hi.entered_or_lock hleave with hent | hlock
  · rcases phase_of_exec hl₁ c with ⟨-, hbefore⟩ | ⟨s₂, t₂, rest, hcalls, hduring⟩
    · exact absurd hent (hbefore.notEntered t' ho)
    · rw [During.head hcalls] at hhead
      obtain ⟨rfl, rfl⟩ := Prod.mk.inj (Option.some.inj hhead)
      obtain ⟨hd, hp⟩ := hduring.others t' ho hne hent
      refine hstep.silent hm ?_
      rcases hp with hp | hp | hp
      · have hgone : c ∉ s₀.clients := by
          refine hduring.gone hi ?_
          have hst := hduring.stage
          rw [hd] at hst
          rw [hst.2.1]
          exact one_pos
        rw [ho]
        exact Or.inr (Or.inl ⟨hp, hgone⟩)
      · exact Or.inr (Or.inr hp)
      · rw [hp] at hleave
        exact hleave.elim
  · exact hstep.silent hm (Or.inl hlock)

/-- **Exactly one exit for each client**, in every run. -/
theorem one_exit {l : List (Server × Act)} {s : Server} (h : manager.Exec l s) (c : ClientId) :
    OneExit c l s := by
  have hi := inv_of_exec l s h
  have hphase := phase_of_exec h c
  refine ⟨?_, fun x hx t ho ha => first_of_mem h hx ho ha, ?_, ?_,
    fun s₁ t hhead x hx t' ho hne hm hleave s' hs =>
      silent_of_mem h hhead hx ho hne hm hleave hs⟩
  · rcases hphase with ⟨-, hbefore⟩ | ⟨s₁, t, rest, -, hduring⟩
    · exact ⟨hbefore.closes.trans_le (by omega), hbefore.broadcasts.trans_le (by omega)⟩
    · exact hduring.once
  · intro s₁ t hhead hd
    rcases hphase with ⟨hnil, -⟩ | ⟨s₂, t₂, rest, hcalls, hduring⟩
    · rw [hnil] at hhead
      cases hhead
    · rw [hcalls] at hhead
      obtain ⟨rfl, rfl⟩ := Prod.mk.inj (Option.some.inj hhead)
      have hst := hduring.stage
      rw [hd] at hst
      exact hst
  · intro hb
    rcases hphase with ⟨-, hbefore⟩ | ⟨s₁, t, rest, -, hduring⟩
    · rw [hbefore.broadcasts] at hb
      exact absurd hb (lt_irrefl 0)
    · exact hduring.gone hi hb

/-- The ping of `1` fails, its writer removes it and gives notice to `0`, and then its reader
comes to remove it as well. -/
def removedTwice : List Act := inTurn ++
  [.ping 1, .pingDone 1 false, .lockRemove (.write 1), .check (.write 1), .close (.write 1),
    .readStop 1, .delete (.write 1) [], .pick (.write 1) 0, .handoff (.write 1) 0, .wrote 0,
    .endRange (.write 1), .unlockRemove (.write 1), .lockRemove (.read 1), .check (.read 1),
    .unlockRemove (.read 1)]

lemma removedTwice_runs : (manager.run manager.init removedTwice).isSome := by
  decide +kernel

@[irreducible] def removedTwiceRun : List (Server × Act) × Server :=
  (manager.run manager.init removedTwice).get removedTwice_runs

lemma exec_removedTwice : manager.Exec removedTwiceRun.1 removedTwiceRun.2 := by
  rw [removedTwiceRun]
  exact exec_get_run removedTwice_runs

theorem one_exit_removedTwice :
    OneExit 1 removedTwiceRun.1 removedTwiceRun.2 ∧
      (removedTwiceRun.2.pc (.write 1), removedTwiceRun.2.pc (.read 1)) = (.done, .done) ∧
      exitsOf 1 removedTwiceRun.2 0
        = [⟨1, .event ⟨bEventExternalConnectionExitMessage, ['b'], [], 0, 0, ['c']⟩, .exit⟩] := by
  refine ⟨one_exit exec_removedTwice 1, ?_, ?_⟩
  · rw [removedTwiceRun]
    decide +kernel
  · rw [removedTwiceRun]
    decide +kernel

end MultiplayerCars.GoServer
