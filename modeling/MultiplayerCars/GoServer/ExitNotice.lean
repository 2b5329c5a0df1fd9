import MultiplayerCars.GoServer.Setup
import MultiplayerCars.GoServer.Goroutine

/-!
# What follows an exit notice

The exit notice of a client is broadcast under the mutex, by whichever of its two loops leaves
first; the position and colour broadcasts of its reader are not under the mutex.  When the
writer leaves first, the reader can be inside such a broadcast, or begin one with a frame that
was already buffered, and its messages then follow the notice.  As long as neither happens, no
peer ever sees a message of a client after its exit.
-/

namespace MultiplayerCars.GoServer

open Lib Lib.Json Lib.Machine

/-- Messages that announce, move or recolour their client. -/
def Cause.updates : Cause → Bool
  | .announce => true
  | .frame _ type => type == eventPositionMessage || type == eventColorUpdateMessage
  | .exit => false

/-- A position or colour message that originates from `a`. -/
def Packet.Updates (k : Packet) (a : ClientId) : Prop := k.src = a ∧ k.cause.updates

/-- The exit notice of `a`. -/
def Packet.ExitOf (k : Packet) (a : ClientId) : Prop := k.src = a ∧ k.cause = .exit

instance (k : Packet) (a : ClientId) : Decidable (k.Updates a) :=
  inferInstanceAs (Decidable (_ ∧ _))

instance (k : Packet) (a : ClientId) : Decidable (k.ExitOf a) :=
  inferInstanceAs (Decidable (_ ∧ _))

/-- No peer has received a position or colour message of a client after its exit notice. -/
def NothingAfterExit (s : Server) : Prop :=
  ∀ a b, (s.received b).Pairwise fun x y => x.ExitOf a → ¬ y.Updates a

/-- A goroutine at this place is inside a position or colour broadcast that may still send to
`b`: it is blocked on the send to `b`, or has yet to produce the entry of `b`. -/
def Pc.Owes (b : ClientId) : Pc → Prop
  | .range l => l.packet.cause.updates ∧ b ∉ l.seen
  | .send l p => l.packet.cause.updates ∧ (p = b ∨ b ∉ l.seen)
  | _ => False

instance (b : ClientId) (q : Pc) : Decidable (q.Owes b) := by
  cases q <;> unfold Pc.Owes <;> infer_instance

/-- Some peer has received the exit notice of `a`. -/
def Notified (s : Server) (a : ClientId) : Prop := ∃ b, ∃ k ∈ s.received b, k.ExitOf a

/-- An exit notice is handed to `b` only when the reader of the leaving client owes `b` no
position or colour message, and a reader begins no position or colour broadcast once some peer
has received the exit notice of its client. -/
def Settled (s : Server) : Act → Prop
  | .handoff t b =>
    match s.pc t with
    | .send l _ => l.packet.cause = .exit → ¬ (s.pc (.read l.packet.src)).Owes b
    | _ => True
  | .readFrame c frame now => ∀ peers k, Begins s (.readFrame c frame now) (.read c) peers k →
      k.cause.updates → ¬ Notified s c
  | _ => True

/-! ### The invariant -/

/-- How a goroutine comes to owe `b` a message: it already did, or it has begun to broadcast it. -/
lemma Goes.owes {s : Server} {a : Act} {t : Thread} {p q : Pc} (hg : Goes s a t p q) {b : ClientId}
    (h : q.Owes b) : p.Owes b ∨ ∃ peers k, Begins s a t peers k ∧ k.cause.updates := by
  cases hg with
  | pick hprod =>
    refine Or.inl ⟨h.1, ?_⟩
    rcases h.2 with rfl | hb
    · exact hprod.2.1
    · exact fun hmem => hb (Finset.mem_insert_of_mem hmem)
  | handoff => exact Or.inl ⟨h.1, Or.inr h.2⟩
  | @announce c now => exact Or.inr ⟨_, _, .announce c now, rfl⟩
  | @readFrame c frame now =>
    cases hq : s.handled c frame now with
    | range l =>
      rw [hq] at h
      exact Or.inr ⟨_, _, begins_of_handled (l := l) (by rw [hq]; rfl), h.1⟩
    | send l p =>
      rw [hq] at h
      exact Or.inr ⟨_, _, begins_of_handled (l := l) (by rw [hq]; rfl), h.1⟩
    | _ =>
      rw [hq] at h
      exact h.elim
  | delete =>
    -- an exit is no position or colour
    have hupd : (Cause.exit).updates := h.1
    cases hupd
  | @endRange _ l =>
    rw [RangeLoop.next] at h
    split at h <;> exact h.elim
  | @pingDone _ ok => cases ok <;> exact h.elim
  | @tickDone _ ok => cases ok <;> exact h.elim
  | check => split_ifs at h <;> exact h.elim
  | _ => exact h.elim

lemma owes_step {s s' : Server} {a : Act} (hs : Step s a s') (hst : Started s) {c b : ClientId}
    (h : (s'.pc (.read c)).Owes b) :
    (s.pc (.read c)).Owes b ∨ ∃ frame now peers k, a = .readFrame c frame now ∧
      Begins s (.readFrame c frame now) (.read c) peers k ∧ k.cause.updates := by
  rcases hs.goes hst (.read c) with he | hg
  · rw [he] at h
    exact Or.inl h
  · rcases hg.owes h with hold | ⟨peers, k, hbegins, hupd⟩
    · exact Or.inl hold
    · cases hbegins with
      | @reply _ frame now e _ m he hr =>
        exact Or.inr ⟨frame, now, peers, _, rfl, .reply he hr, hupd⟩
      | exit => cases hupd

/-- A goroutine that gives notice of an exit runs after the reader was started. -/
lemma Inv.read_started_of_exit {s : Server} (hi : Inv s) {t : Thread} {l : RangeLoop}
    {p : ClientId} (ht : s.pc t = .send l p) (hc : l.packet.cause = .exit) :
    s.pc (.read l.packet.src) ≠ .idle := by
  have hh : t.Hosts (.send l p) := hi.placed.hosts_of_eq ht
  intro hidle
  cases t with
  | serve c =>
    have hann : l.packet.cause = .announce := hh.2
    rw [hc] at hann
    cases hann
  | read c =>
    have hsrc : l.packet.src = c := hh.1
    rw [hsrc, ht] at hidle
    cases hidle
  | write c =>
    have hsrc : l.packet.src = c := hh.1
    rw [hsrc] at hidle
    have hdone : s.pc (.serve c) = .done := by
      by_contra hne
      have hw : s.pc (.write c) = .idle := (hi.started c).2.mpr hne
      rw [ht] at hw
      cases hw
    exact (hi.started c).1.mp hidle (by rw [hdone]; trivial)

/-- A message of `a` that is being sent to `b` is an announcement, while the reader of `a` has
not been started, or comes from that reader. -/
lemma Inv.source_of_updates {s : Server} (hi : Inv s) {t : Thread} {l : RangeLoop}
    {a b : ClientId} (ht : s.pc t = .send l b) (hu : l.packet.Updates a) :
    s.pc (.read a) = .idle ∨ (s.pc (.read a)).Owes b := by
  have hh : t.Hosts (.send l b) := hi.placed.hosts_of_eq ht
  obtain ⟨rfl, hupd⟩ := hu
  cases t with
  | serve c =>
    have hsrc : l.packet.src = c := hh.1
    left
    rw [hsrc, (hi.started c).1, ht]
    exact id
  | read c =>
    have hsrc : l.packet.src = c := hh.1
    right
    rw [hsrc, ht]
    exact ⟨hupd, Or.inl rfl⟩
  | write c =>
    have hexit : l.packet.cause = .exit := hh.2
    rw [hexit] at hupd
    cases hupd

/-- Who has left for some peer has been started, and is not registered any more. -/
def Departed (s : Server) : Prop := ∀ a, Notified s a → s.pc (.read a) ≠ .idle ∧ a ∉ s.clients

lemma Step.notified_cases {s s' : Server} {x : Act} (hs : Step s x s') {a : ClientId}
    (h : Notified s' a) :
    Notified s a ∨ ∃ t l b, x = .handoff t b ∧ s.pc t = .send l b ∧ l.packet.ExitOf a := by
  obtain ⟨b, k, hk, hx⟩ := h
  rcases hs.received_cases b with hr | ⟨t, l, ha, ht, hr⟩
  · rw [hr] at hk
    exact Or.inl ⟨b, k, hk, hx⟩
  · rw [hr] at hk
    rcases List.mem_append.mp hk with hk | hk
    · exact Or.inl ⟨b, k, hk, hx⟩
    · rw [List.mem_singleton.mp hk] at hx
      exact Or.inr ⟨t, l, b, ha, ht, hx⟩

/-- A goroutine that gives notice of an exit has deleted its client. -/
lemma Inv.not_mem_of_exit {s : Server} (hi : Inv s) {t : Thread} {l : RangeLoop} {p : ClientId}
    (ht : s.pc t = .send l p) (hc : l.packet.cause = .exit) : l.packet.src ∉ s.clients := by
  have hh : t.Hosts (.send l p) := hi.placed.hosts_of_eq ht
  have habs : t.Absent (s.pc t) → t.owner ∉ s.clients := hi.registered t
  rw [ht] at habs
  cases t with
  | serve c =>
    have hann : l.packet.cause = .announce := hh.2
    rw [hc] at hann
    cases hann
  | read c =>
    have hsrc : l.packet.src = c := hh.1
    rw [hsrc]
    exact habs hc
  | write c =>
    have hsrc : l.packet.src = c := hh.1
    rw [hsrc]
    exact habs hc

lemma Departed.step {s s' : Server} {x : Act} (hi : Inv s) (h : Departed s) (hs : Step s x s') :
    Departed s' := by
  intro a hn
  have hold : s.pc (.read a) ≠ .idle ∧ a ∉ s.clients := by
    rcases hs.notified_cases hn with hn | ⟨t, l, b, -, ht, rfl, hc⟩
    · exact h a hn
    · exact ⟨hi.read_started_of_exit ht hc, hi.not_mem_of_exit ht hc⟩
  obtain ⟨hstarted, hgone⟩ := hold
  refine ⟨fun hidle => hstarted (hs.idle_of_idle hidle), fun hmem => ?_⟩
  rcases hs.mem_clients hmem with hmem | hp
  · exact hgone hmem
  · -- a client whose reader runs has been added already
    exact hstarted ((hi.started a).1.mpr (by rw [hp]; exact id))

lemma departed_of_exec (l : List (Server × Act)) (s : Server) (h : manager.Exec l s) :
    Inv s ∧ Departed s := by
  refine h.invariant (I := fun s => Inv s ∧ Departed s) ⟨Inv.init, ?_⟩ ?_
  · rintro a ⟨b, k, hk, -⟩
    cases hk
  · rintro s x s' ⟨hi, hd⟩ hs
    exact ⟨hi.step (step_cases hs), hd.step hi (step_cases hs)⟩

/-- Once a peer has the exit notice of `a`, nothing of `a` follows it so far, and the reader of `a`
owes that peer nothing. -/
structure ExitFinal (s : Server) : Prop where
  nothingAfter : NothingAfterExit s
  owesNothing : ∀ a b, ∀ k ∈ s.received b, k.ExitOf a → ¬ (s.pc (.read a)).Owes b

/-- A settled step keeps exit notices final. -/
theorem ExitFinal.step {s s' : Server} {a : Act} (hi : Inv s) (hd : Departed s) (h : ExitFinal s)
    (hok : Settled s a) (hs : Step s a s') : ExitFinal s' := by
  -- what a peer has received before the step leaves the reader where the invariant says
  have hold : ∀ c b, ∀ k ∈ s.received b, k.ExitOf c → ¬ (s'.pc (.read c)).Owes b := by
    intro c b k hk hx ho
    rcases owes_step hs hi.started ho with ho | ⟨frame, now, peers, k', rfl, hbegins, hupd⟩
    · exact h.owesNothing c b k hk hx ho
    · exact hok peers k' hbegins hupd ⟨b, k, hk, hx⟩
  refine ⟨fun c b => ?_, fun c b k hk hx => ?_⟩
  · rcases hs.received_cases b with hr | ⟨t, l, -, ht, hr⟩
    · rw [hr]
      exact h.nothingAfter c b
    · -- an update that comes now would have been owed when the notice came
      rw [hr, List.pairwise_append]
      refine ⟨h.nothingAfter c b, List.pairwise_singleton _ _, fun x hx y hy hxe hyu => ?_⟩
      rw [List.mem_singleton.mp hy] at hyu
      rcases hi.source_of_updates ht hyu with hidle | howes
      · exact (hd c ⟨b, x, hx, hxe⟩).1 hidle
      · exact h.owesNothing c b x hx hxe howes
  · rcases hs.received_cases b with hr | ⟨t, l, ha, ht, hr⟩
    · rw [hr] at hk
      exact hold c b k hk hx
    · rw [hr] at hk
      rcases List.mem_append.mp hk with hk | hk
      · exact hold c b k hk hx
      · rw [List.mem_singleton.mp hk] at hx
        obtain ⟨rfl, hc⟩ := hx
        subst ha
        simp only [Settled, ht] at hok
        intro ho
        rcases owes_step hs hi.started ho with ho | ⟨_, _, _, _, he, _⟩
        · exact hok hc ho
        · cases he

lemma ExitFinal.init : ExitFinal manager.init := by
  refine ⟨fun a b => List.Pairwise.nil, fun a b k hk => ?_⟩
  cases hk

/-- **Nothing follows the exit notice.**  In every state of a run whose steps are all settled,
no peer has received a position or colour message of a client after its exit notice. -/
theorem nothing_follows_exit {l : List (Server × Act)} {s : Server} (h : manager.Exec l s)
    (hok : Meets Settled l) : Always NothingAfterExit l s := by
  refine Exec.always_of_meets (fun l s h hok => ?_) h hok
  have hfinal : ExitFinal s := h.invariant_of_meets departed_of_exec ExitFinal.init
    (fun _ _ _ hd hf hok hs => hf.step hd.1 hd.2 hok (step_cases hs)) hok
  exact hfinal.nothingAfter

/-! ### A late message -/

/-- The UUID with which a client joins in a step. -/
def Act.joins : Act → Option Text
  | .connect _ uuid _ => some uuid
  | _ => none

/-- The clients of a run have distinct UUIDs. -/
def DistinctUuids (l : List (Server × Act)) : Prop := (l.filterMap fun x => x.2.joins).Nodup

/-- The reader of `0` is about to broadcast a position when the ping of `0` fails and its writer
gives notice of the exit to `1`. -/
def overtaken : List Act := inTurn ++
  [.readFrame 0 "\x7b\"Type\":0\x7d".toList [], .ping 0, .pingDone 0 false,
    .lockRemove (.write 0), .check (.write 0), .close (.write 0), .delete (.write 0) [],
    .pick (.write 0) 1, .handoff (.write 0) 1, .wrote 1, .pick (.read 0) 1, .handoff (.read 0) 1]

lemma overtaken_runs : (manager.run manager.init overtaken).isSome := by
  decide +kernel

def overtook : List (Server × Act) × Server :=
  (manager.run manager.init overtaken).get overtaken_runs

lemma exec_overtook : manager.Exec overtook.1 overtook.2 := exec_get_run overtaken_runs

/-- A position message can follow the exit notice of its client. -/
theorem message_follows_exit :
    ¬ ∀ l s, manager.Exec l s → DistinctUuids l → NothingAfterExit s := by
  intro h
  have hd : DistinctUuids overtook.1 := by
    unfold DistinctUuids
    decide +kernel
  have hbad : ¬ (overtook.2.received 1).Pairwise fun x y => x.ExitOf 0 → ¬ y.Updates 0 := by
    decide +kernel
  exact hbad (h _ _ exec_overtook hd 0 1)

/-- A position of `0` is handed to `1`, then the connection of `0` is closed by its peer, and its
reader gives notice of the exit. -/
def leaving : List Act := inTurn ++
  [.readFrame 0 "\x7b\"Type\":0\x7d".toList [], .pick (.read 0) 1, .handoff (.read 0) 1, .wrote 1,
    .endRange (.read 0), .readStop 0, .lockRemove (.read 0), .check (.read 0), .close (.read 0),
    .delete (.read 0) [], .pick (.read 0) 1, .handoff (.read 0) 1]

lemma leaving_runs : (manager.run manager.init leaving).isSome := by
  decide +kernel

def gone : List (Server × Act) × Server :=
  (manager.run manager.init leaving).get leaving_runs

/-- A test for settled steps: who reads a frame is registered. -/
def settledStep (s : Server) : Act → Bool
  | .handoff t b =>
    match s.pc t with
    | .send l _ => decide (l.packet.cause = .exit → ¬ (s.pc (.read l.packet.src)).Owes b)
    | _ => true
  | .readFrame c _ _ => c ∈ s.clients
  | _ => true

lemma settled_of_settledStep {s : Server} {a : Act} (hd : Departed s) (h : settledStep s a) :
    Settled s a := by
  cases a with
  | handoff t b =>
    simp only [settledStep] at h
    simp only [Settled]
    split at h
    · exact of_decide_eq_true h
    · trivial
  | readFrame c frame now =>
    intro peers k _ _ hn
    exact (hd c hn).2 (of_decide_eq_true h)
  | _ => trivial

lemma gone_check : gone.1.all (fun x => settledStep x.1 x.2) = true ∧
    (gone.2.received 1).length = 2 := by
  decide +kernel

theorem nothing_follows_exit_gone : Always NothingAfterExit gone.1 gone.2 := by
  have hexec : manager.Exec gone.1 gone.2 := exec_get_run leaving_runs
  refine nothing_follows_exit hexec fun x hx => ?_
  obtain ⟨l, hl, -⟩ := hexec.of_mem hx
  exact settled_of_settledStep (departed_of_exec l x.1 hl).2
    (List.all_eq_true.mp gone_check.1 x hx)

end MultiplayerCars.GoServer
