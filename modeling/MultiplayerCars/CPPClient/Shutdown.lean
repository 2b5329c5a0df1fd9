import MultiplayerCars.Lib.Halting
import MultiplayerCars.CPPClient.App
import MultiplayerCars.CPPClient.Relay

/-!
# The end of the game

When the window is closed, `main` calls `closeConnection`, which clears the flag of the session,
pushes an empty message so that the writer does not wait for ever, and joins the two workers; then
it does the same with the relay, whose flag is `g_gameRunning`.  A thread looks at its flag once in
an iteration only, so it has to be seen that none of the four goes round for ever, that none sleeps
for ever at the front of an empty queue, and that the joins do not wait for each other.

One thing can go wrong.  `workerRead` raises the flag of the session when its handshake is done,
whether or not `closeConnection` has taken it down by then; and nobody takes it down again.
-/

namespace MultiplayerCars.CPPClient

open Lib Lib.Json Lib.Machine

/-! ### The session after its flag was cleared -/

/-- The flag is up, or `workerRead` is about to raise it. -/
def Connection.Doomed (s : Connection) : Prop := s.isConnected = true ∨ s.reader = .setFlag

/-- The empty message has been pushed. -/
def CallerPc.Pushed : CallerPc → Prop
  | .join _ | .closed | .destroyed => True
  | _ => False

/-- `workerWrite` has yet to take a message before it looks at the flag. -/
def WriterPc.Takes : WriterPc → Prop
  | .test | .exited => False
  | _ => True

/-- The writer does not wait for ever, and no thread is joined that was never started. -/
structure Roused (s : Connection) : Prop where
  begun : s.reader = .notStarted → s.caller = .connect
  listed : .workerWrite ∈ s.threadList → s.writer ≠ .notStarted
  joining : ∀ ts, s.caller = .join ts → .workerWrite ∈ ts → s.writer ≠ .notStarted
  fed : s.caller.Pushed → s.isConnected = false → s.writer.Takes → s.asyncWriteQueue ≠ []

/-- The step is one that `workerRead` waits for: the end of its handshake, or of a read. -/
def ConnAct.awaited : ConnAct → Bool
  | .handshake _ | .read _ => true
  | _ => false

section Session

variable {s s' : Connection} {a : ConnAct}

/-- `workerWrite` moves on. -/
lemma Roused.write (h : Roused s) {p : WriterPc} (hp : p ≠ .notStarted)
    (hfed : s.caller.Pushed → s.isConnected = false → p.Takes → s.writer.Takes) :
    Roused { s with writer := p } :=
  ⟨h.begun, fun _ => hp, fun _ _ _ => hp, fun hc hf ht => h.fed hc hf (hfed hc hf ht)⟩

/-- `workerRead` moves on. -/
lemma Roused.read (h : Roused s) {p : ReaderPc} (hp : p ≠ .notStarted) {failed handshaken : Bool}
    {n : ℕ} : Roused { s with
      reader := p, failed := failed, handshaken := handshaken, readsSince := n } :=
  ⟨fun hr => absurd hr hp, h.listed, h.joining, h.fed⟩

theorem Roused.step (h : Roused s) (hi : ConnectionInv s) (hs : ConnStep s a s') : Roused s' := by
  cases hs with
  | connectWebSocket hc =>
    exact ⟨fun hr => (by cases hr), by simp, by simp, fun hp => hp.elim⟩
  | @send _ _ p hc hp =>
    have hbegun : s.reader = .notStarted → p = .connect := fun hr => by
      rw [h.begun hr] at hc
      cases hc
    rcases hp with rfl | ⟨f, rfl⟩
    · exact ⟨hbegun, h.listed, by simp, fun hp => hp.elim⟩
    · exact ⟨hbegun, h.listed, by simp, fun hp => hp.elim⟩
  | push hc =>
    refine ⟨fun hr => ?_, h.listed, by simp, fun hp => hp.elim⟩
    rw [h.begun hr] at hc
    cases hc
  | closeConnection hc =>
    refine ⟨fun hr => ?_, h.listed, by simp, fun hp => hp.elim⟩
    rw [h.begun hr] at hc
    cases hc
  | pushEmpty hc =>
    refine ⟨fun hr => ?_, h.listed, fun ts hts => ?_, fun _ _ _ => by simp⟩
    · rw [h.begun hr] at hc
      cases hc
    · cases hts
      exact h.listed
  | joinRead hc hr =>
    refine ⟨fun hn => (by rw [hr] at hn; cases hn), h.listed, fun ts hts hmem => ?_,
      fun _ => h.fed (by rw [hc]; trivial)⟩
    cases hts
    exact h.joining _ hc (List.mem_cons_of_mem _ hmem)
  | joinWrite hc hw =>
    refine ⟨fun hr => ?_, h.listed, fun ts hts hmem => ?_, fun _ => h.fed (by rw [hc]; trivial)⟩
    · rw [h.begun hr] at hc
      cases hc
    · cases hts
      exact h.joining _ hc (List.mem_cons_of_mem _ hmem)
  | cancel hc =>
    refine ⟨fun hr => ?_, h.listed, by simp, fun _ => h.fed (by rw [hc]; trivial)⟩
    rw [h.begun hr] at hc
    cases hc
  | destroy hc =>
    refine ⟨fun hr => ?_, h.listed, by simp, fun _ _ => ?_⟩
    · rw [h.begun hr] at hc
      cases hc
    · have hexit := hi.closing.joined (by rw [hc]; trivial)
      exact h.fed (by rw [hc]; trivial) (hi.raised.exited hexit)
  | handshake hr => exact h.read (by simp)
  | throws hr => exact h.read (by simp)
  | setConnected hr => exact ⟨fun hr => (by cases hr), h.listed, h.joining, fun _ hf => by cases hf⟩
  | spawnWrite hr =>
    have hw := hi.counted.unstarted (by rw [hr]; trivial)
    exact ⟨fun hr => (by cases hr), by simp, by simp,
      fun hp hf _ => h.fed hp hf (by rw [hw]; trivial)⟩
  | startRead hr => exact h.read (by simp)
  | read hr hf => exact h.read (by simp)
  | testRead hr => exact h.read (by split_ifs <;> simp)
  | startWrite hw =>
    have hw' := h.write (p := .front) (by simp) fun _ _ _ => by rw [hw]; trivial
    exact ⟨hw'.begun, hw'.listed, hw'.joining, hw'.fed⟩
  | front hw hq => exact h.write (by simp) fun _ _ _ => by rw [hw]; trivial
  | write hw => exact h.write (by simp) fun _ _ _ => by rw [hw]; trivial
  | pop hw =>
    exact ⟨h.begun, fun _ => by simp, fun _ _ _ => by simp, fun _ _ ht => ht.elim⟩
  | testWrite hw =>
    refine h.write (by split_ifs <;> simp) fun hp hf ht => ?_
    rw [if_neg (by rw [hf]; simp)] at ht
    exact ht.elim

/-- The flag is not taken down a second time. -/
lemma ConnStep.doomed_stays (hs : ConnStep s a s') (hi : ConnectionInv s) (hc : s.cleared)
    (h : s.Doomed) : s'.Doomed := by
  rcases h with hf | hr
  · exact Or.inl (hs.up_stays hi hc hf)
  · cases hs with
    | connectWebSocket hcall =>
      rw [hi.raised.fresh hcall] at hr
      cases hr
    | setConnected => exact Or.inl rfl
    | handshake hr' | throws hr' | spawnWrite hr' | startRead hr' | read hr' _ | testRead hr' =>
      rw [hr'] at hr
      cases hr
    | _ => exact Or.inr hr

/-- Only a handshake that succeeds dooms a session whose flag was cleared. -/
lemma ConnStep.doomed_cases (hs : ConnStep s a s') (h : ¬ s.Doomed) (ha : a ≠ .handshake true) :
    ¬ s'.Doomed := by
  obtain ⟨hf, hr⟩ := not_or.mp h
  cases hs with
  | handshake => exact absurd rfl ha
  | setConnected hr' => exact absurd hr' hr
  | destroy => exact not_or.mpr ⟨by simp, hr⟩
  | closeConnection => exact not_or.mpr ⟨by simp, hr⟩
  | testRead => exact not_or.mpr ⟨hf, by split_ifs; simp⟩
  | connectWebSocket | throws | spawnWrite | startRead | read => exact not_or.mpr ⟨hf, by simp⟩
  | _ => exact not_or.mpr ⟨hf, hr⟩

/-- `workerRead` has returned, or it takes a step; while it waits for the end of its handshake or of
a read, it can fail to get it. -/
lemma Roused.reader_goes (h : Roused s) (hd : ¬ s.Doomed) (hp : s.caller.Pushed)
    (hexit : s.reader ≠ .exited) : ∃ a, a.ofWorker ∧ (s.step a).isSome ∧ a ≠ .handshake true ∧
      a ≠ .read .message ∧ (a.awaited → s.reader = .handshake ∨ s.reader = .read) := by
  have hgo : ∀ {a : ConnAct}, a.ofWorker → a.awaited = false → (s.step a).isSome →
      ∃ a, a.ofWorker ∧ (s.step a).isSome ∧ a ≠ .handshake true ∧ a ≠ .read .message ∧
        (a.awaited → s.reader = .handshake ∨ s.reader = .read) := by
    intro a ha hwait hs
    refine ⟨a, ha, hs, ?_, ?_, fun hx => by rw [hwait] at hx; cases hx⟩ <;> rintro rfl <;>
      cases hwait
  cases hr : s.reader with
  | notStarted =>
    rw [h.begun hr] at hp
    exact hp.elim
  | handshake =>
    exact ⟨.handshake false, rfl, by simp [Connection.step, hr], by simp, by simp,
      fun _ => Or.inl rfl⟩
  | setFlag => exact absurd (Or.inr hr) hd
  | spawn => simpa [hr] using hgo (a := .spawnWrite) rfl rfl (by simp [Connection.step, hr])
  | loop => simpa [hr] using hgo (a := .startRead) rfl rfl (by simp [Connection.step, hr])
  | read =>
    exact ⟨.read .fatal, rfl, by simp [Connection.step, hr], by simp, by simp,
      fun _ => Or.inr rfl⟩
  | test => simpa [hr] using hgo (a := .testRead) rfl rfl (by simp [Connection.step, hr])
  | exited => exact absurd hr hexit

/-- `workerWrite` has returned, or it takes a step: the empty message is still there for it. -/
lemma Roused.writer_goes (h : Roused s) (hd : ¬ s.Doomed) (hp : s.caller.Pushed)
    (hstarted : s.writer ≠ .notStarted) (hexit : s.writer ≠ .exited) :
    ∃ a, a.ofWorker ∧ (s.step a).isSome ∧ a.awaited = false := by
  have hflag : s.isConnected = false := Bool.not_eq_true _ ▸ (not_or.mp hd).1
  cases hw : s.writer with
  | notStarted => exact absurd hw hstarted
  | loop => exact ⟨.startWrite, rfl, by simp [Connection.step, hw], rfl⟩
  | front =>
    obtain ⟨tmp, q, hq⟩ := List.exists_cons_of_ne_nil (h.fed hp hflag (by rw [hw]; trivial))
    exact ⟨.front, rfl, by simp [Connection.step, hw, hq], rfl⟩
  | write tmp => exact ⟨.write, rfl, by simp [Connection.step, hw], rfl⟩
  | pop => exact ⟨.pop, rfl, by simp [Connection.step, hw], rfl⟩
  | test => exact ⟨.testWrite, rfl, by simp [Connection.step, hw], rfl⟩
  | exited => exact absurd hw hexit

end Session

/-! ### One step of the process -/

/-- What a step of the process needs, and what it makes of the state. -/
inductive AppMove (s : App) : AppAct → App → Prop
  | connectWebSocket {k : Connection} (hpc : s.pc = .connect)
      (hk : ConnStep s.conn .connectWebSocket k) :
      AppMove s .connectWebSocket { s with conn := k, gameRunning := true, pc := .loop }
  | main {a : ClientAct} {c : Client} (hpc : s.pc = .loop) (hs : ClientStep s.client a c) :
      AppMove s (.main a) { s with client := c }
  | sendPosition {done : Bool} {f : Option Text} {c : Client} {k : Connection} (hpc : s.pc = .loop)
      (hs : ClientStep s.client (.move false) c) (hk : ConnStep s.conn (.send done f) k) :
      AppMove s (.sendPosition done) { s with client := c, conn := k }
  | push {k : Connection} (hpc : s.pc = .loop) (hk : ConnStep s.conn .push k) :
      AppMove s .push { s with conn := k }
  | escape (hpc : s.pc = .loop) : AppMove s .escape { s with gameRunning := false }
  | leave (hpc : s.pc = .loop) (hm : s.client.mainPc = .posEmpty) (hc : s.conn.caller = .running) :
      AppMove s .leave { s with pc := .closeConnection }
  | close {a : ConnAct} {k : Connection} (hpc : s.pc = .closeConnection) (ha : a.ofClose)
      (hk : ConnStep s.conn a k) : AppMove s (.close a) { s with conn := k }
  | stop (hpc : s.pc = .closeConnection) (hc : s.conn.caller = .closed) :
      AppMove s .stop { s with gameRunning := false, pc := .push }
  | pushEmpty (hpc : s.pc = .push) : AppMove s .pushEmpty { s with
      client := { s.client with wsUpdatedJsonQueue := s.client.wsUpdatedJsonQueue ++ [[]] }
      pc := .join }
  | join (hpc : s.pc = .join) (hr : s.relay = .exited) : AppMove s .join { s with pc := .ended }
  | relay {a : ClientAct} {c : Client} (ha : a.ofRelay) (hr : s.relay = .iteration)
      (hs : ClientStep s.client a c) : AppMove s (.relay a)
        { s with client := c, relay := if a = .relayPop then .test else .iteration }
  | testRelay (hr : s.relay = .test) :
      AppMove s .testRelay { s with relay := if s.gameRunning then .iteration else .exited }
  | wakeBatchHandler {c : Client} (hs : ClientStep s.client .wakeBatchHandler c) :
      AppMove s .wakeBatchHandler { s with client := c }
  | receive {msg : Text} {c : Client} {k : Connection} (hs : ClientStep s.client (.onMessage msg) c)
      (hk : ConnStep s.conn (.read .message) k) :
      AppMove s (.receive msg) { s with client := c, conn := k }
  | worker {a : ConnAct} {k : Connection} (ha : a.ofWorker) (hk : ConnStep s.conn a k) :
      AppMove s (.worker a) { s with conn := k }

theorem appMove_of_step {uuid : UuidV4} {s s' : App} {a : AppAct}
    (h : (app uuid).step s a = some s') : AppMove s a s' := by
  obtain ⟨-, h⟩ := Option.ite_none_left_eq_some.mp h
  cases a <;> simp only [Option.ite_none_right_eq_some, Option.some.injEq,
    Option.map_eq_some_iff, Option.bind_eq_some_iff] at h
  case connectWebSocket =>
    obtain ⟨hpc, k, hk, rfl⟩ := h
    exact .connectWebSocket hpc (connStep_cases hk)
  case main a =>
    obtain ⟨⟨-, hpc, -⟩, c, hs, rfl⟩ := h
    exact .main hpc (clientStep_of_step hs)
  case sendPosition done =>
    obtain ⟨⟨hpc, -⟩, c, hs, k, hk, rfl⟩ := h
    exact .sendPosition hpc (clientStep_of_step hs) (connStep_cases hk)
  case push =>
    obtain ⟨hpc, k, hk, rfl⟩ := h
    exact .push hpc (connStep_cases hk)
  case escape =>
    obtain ⟨⟨hpc, -⟩, rfl⟩ := h
    exact .escape hpc
  case leave =>
    obtain ⟨⟨hpc, hm, hc⟩, rfl⟩ := h
    exact .leave hpc hm hc
  case close a =>
    obtain ⟨⟨ha, hpc⟩, k, hk, rfl⟩ := h
    exact .close hpc ha (connStep_cases hk)
  case stop =>
    obtain ⟨⟨hpc, hc⟩, rfl⟩ := h
    exact .stop hpc hc
  case pushEmpty =>
    obtain ⟨hpc, rfl⟩ := h
    exact .pushEmpty hpc
  case join =>
    obtain ⟨⟨hpc, hr, -⟩, rfl⟩ := h
    exact .join hpc hr
  case relay a =>
    obtain ⟨⟨ha, -, hr⟩, c, hs, rfl⟩ := h
    exact .relay ha hr (clientStep_of_step hs)
  case testRelay =>
    obtain ⟨hr, rfl⟩ := h
    exact .testRelay hr
  case wakeBatchHandler =>
    obtain ⟨-, c, hs, rfl⟩ := h
    exact .wakeBatchHandler (clientStep_of_step hs)
  case receive msg =>
    obtain ⟨c, hs, k, hk, rfl⟩ := h
    exact .receive (clientStep_of_step hs) (connStep_cases hk)
  case worker a =>
    obtain ⟨⟨ha, -⟩, k, hk, rfl⟩ := h
    exact .worker ha (connStep_cases hk)

/-! ### What holds in every state -/

/-- `main` has left its loop. -/
def AppPc.Over : AppPc → Prop
  | .connect | .loop => False
  | _ => True

/-- `main` is past `closeConnection`. -/
def AppPc.Past : AppPc → Prop
  | .push | .join | .ended => True
  | _ => False

/-- `main` goes through its shutdown in order, and the relay does not wait for ever. -/
structure Unwinding (s : App) : Prop where
  conn : ConnectionInv s.conn
  roused : Roused s.conn
  fronted : Fronted s.client
  leaving : s.conn.caller.Closing → s.pc.Over
  closing : s.pc = .closeConnection → s.conn.caller = .running ∨ s.conn.caller.Closing
  standing : s.conn.caller ≠ .destroyed
  closed : s.pc.Past → s.conn.caller = .closed
  parked : s.pc.Over → s.client.mainPc = .posEmpty
  stopped : s.pc.Past → s.gameRunning = false
  woken : s.pc = .join → s.relay = .iteration → s.client.wsUpdatedJsonQueue ≠ []
  joined : s.pc = .ended → s.relay = .exited

/-- A step of the relay leaves the main loop where it is, and what it takes from its queue was at
the front. -/
lemma ClientStep.of_ofRelay {c c' : Client} {a : ClientAct} (hs : ClientStep c a c')
    (ha : a.ofRelay) : c'.mainPc = c.mainPc ∧ c'.batchPending = c.batchPending ∧
      (a ≠ .relayPop → c'.wsUpdatedJsonQueue = c.wsUpdatedJsonQueue) := by
  cases hs with
  | relayPop => exact ⟨rfl, rfl, fun h => absurd rfl h⟩
  | relayFront | movePosition | moveGui | moveDropped => exact ⟨rfl, rfl, fun _ => rfl⟩
  | _ => cases ha

section Run

variable {uuid : UuidV4} {s s' : App} {a : AppAct}

/-- A step of the session that is not one of `main` leaves `main` where it stands. -/
lemma ConnStep.caller_of_ofWorker {k k' : Connection} {a : ConnAct} (hk : ConnStep k a k')
    (ha : a.ofWorker) : k'.caller = k.caller := by
  cases hk with
  | connectWebSocket | send | push | closeConnection | pushEmpty | joinRead | joinWrite | cancel
  | destroy => cases ha
  | _ => rfl

/-- A step of one of the workers of the session. -/
lemma Unwinding.work (h : Unwinding s) {k : Connection} {a : ConnAct} (ha : a.ofWorker)
    (hk : ConnStep s.conn a k) : Unwinding { s with conn := k } where
  conn := h.conn.step hk
  roused := h.roused.step h.conn hk
  fronted := h.fronted
  leaving := fun hc => h.leaving (hk.caller_of_ofWorker ha ▸ hc)
  closing := fun hp => by
    rw [hk.caller_of_ofWorker ha]
    exact h.closing hp
  standing := by
    rw [hk.caller_of_ofWorker ha]
    exact h.standing
  closed := fun hp => (hk.caller_of_ofWorker ha).trans (h.closed hp)
  parked := h.parked
  stopped := h.stopped
  woken := h.woken
  joined := h.joined

/-- A step of the main loop. -/
lemma unwinding_of_loop (hpc : s.pc = .loop) {c : Client} {k : Connection}
    (hk : ConnectionInv k) (hr : Roused k) (hc : Fronted c) (hcall : ¬ k.caller.Closing)
    {b : Bool} : Unwinding { s with client := c, conn := k, gameRunning := b } where
  conn := hk
  roused := hr
  fronted := hc
  leaving := fun hcl => absurd hcl hcall
  closing := fun hp => by cases hpc.symm.trans hp
  standing := fun hd => hcall (by rw [hd]; trivial)
  closed := fun hp => by
    rw [hpc] at hp
    exact hp.elim
  parked := fun hp => by
    rw [hpc] at hp
    exact hp.elim
  stopped := fun hp => by
    rw [hpc] at hp
    exact hp.elim
  woken := fun hp => by cases hpc.symm.trans hp
  joined := fun hp => by cases hpc.symm.trans hp

/-- In the main loop nobody has called `closeConnection`. -/
lemma Unwinding.open_of_loop (h : Unwinding s) (hpc : s.pc = .loop) :
    ¬ s.conn.caller.Closing := by
  intro hc
  have hover := h.leaving hc
  rw [hpc] at hover
  exact hover

/-- A step of another thread than `main` that leaves the session alone. -/
lemma Unwinding.aside (h : Unwinding s) {c : Client} (hm : c.mainPc = s.client.mainPc)
    (hc : Fronted c) {r : RelayLoop}
    (hw : s.pc = .join → r = .iteration → c.wsUpdatedJsonQueue ≠ [])
    (hj : s.relay = .exited → r = .exited) : Unwinding { s with client := c, relay := r } where
  conn := h.conn
  roused := h.roused
  fronted := hc
  leaving := h.leaving
  closing := h.closing
  standing := h.standing
  closed := h.closed
  parked := fun hp => hm.trans (h.parked hp)
  stopped := h.stopped
  woken := hw
  joined := fun hp => hj (h.joined hp)

theorem Unwinding.step (h : Unwinding s) (hs : AppMove s a s') : Unwinding s' := by
  cases hs with
  | @connectWebSocket k hpc hk =>
    have hno : ¬ k.caller.Closing := by
      cases hk
      exact id
    refine ⟨h.conn.step hk, h.roused.step h.conn hk, h.fronted, fun hc => absurd hc hno,
      fun hp => (by cases hp), fun hd => hno (by rw [hd]; trivial), fun hp => hp.elim,
      fun hp => hp.elim, fun hp => hp.elim, fun hp => (by cases hp), fun hp => (by cases hp)⟩
  | main hpc hs =>
    exact unwinding_of_loop hpc h.conn h.roused (h.fronted.step hs.relays) (h.open_of_loop hpc)
  | @sendPosition done f c k hpc hs hk =>
    refine unwinding_of_loop hpc (h.conn.step hk) (h.roused.step h.conn hk)
      (h.fronted.step hs.relays) ?_
    cases hk with
    | send hc hp =>
      rcases hp with rfl | ⟨f, rfl⟩
      · exact id
      · exact id
  | push hpc hk =>
    refine unwinding_of_loop hpc (h.conn.step hk) (h.roused.step h.conn hk) h.fronted ?_
    cases hk
    exact id
  | escape hpc => exact unwinding_of_loop hpc h.conn h.roused h.fronted (h.open_of_loop hpc)
  | leave hpc hm hc =>
    exact ⟨h.conn, h.roused, h.fronted, fun _ => trivial, fun _ => Or.inl hc, h.standing,
      fun hp => hp.elim, fun _ => hm, fun hp => hp.elim, fun hp => (by cases hp),
      fun hp => (by cases hp)⟩
  | @close a k hpc ha hk =>
    have hclosing : k.caller.Closing ∧ k.caller ≠ .destroyed := by
      cases hk with
      | closeConnection | pushEmpty | joinRead | joinWrite | cancel => exact ⟨trivial, by simp⟩
      | _ => cases ha
    have hpast : ¬ s.pc.Past := by
      rw [hpc]
      exact id
    exact ⟨h.conn.step hk, h.roused.step h.conn hk, h.fronted, fun _ => by rw [hpc]; trivial,
      fun _ => Or.inr hclosing.1, hclosing.2, fun hp => absurd hp hpast, h.parked,
      fun hp => absurd hp hpast, h.woken, h.joined⟩
  | stop hpc hc =>
    have hover : s.pc.Over := by
      rw [hpc]
      trivial
    exact ⟨h.conn, h.roused, h.fronted, fun _ => trivial, fun hp => (by cases hp), h.standing,
      fun _ => hc, fun _ => h.parked hover, fun _ => rfl, fun hp => (by cases hp),
      fun hp => (by cases hp)⟩
  | pushEmpty hpc =>
    have hpast : s.pc.Past := by
      rw [hpc]
      trivial
    have hover : s.pc.Over := by
      rw [hpc]
      trivial
    have hfronted := h.fronted.step (ClientStep.onMessage []).relays
    exact ⟨h.conn, h.roused, hfronted.of_eq rfl rfl, fun _ => trivial, fun hp => (by cases hp),
      h.standing, fun _ => h.closed hpast, fun _ => h.parked hover, fun _ => h.stopped hpast,
      fun _ _ => by simp, fun hp => (by cases hp)⟩
  | join hpc hr =>
    have hpast : s.pc.Past := by
      rw [hpc]
      trivial
    have hover : s.pc.Over := by
      rw [hpc]
      trivial
    exact ⟨h.conn, h.roused, h.fronted, fun _ => trivial, fun hp => (by cases hp), h.standing,
      fun _ => h.closed hpast, fun _ => h.parked hover, fun _ => h.stopped hpast,
      fun hp => (by cases hp), fun _ => hr⟩
  | @relay a c ha hr hs =>
    obtain ⟨hm, -, hq⟩ := hs.of_ofRelay ha
    refine h.aside hm (h.fronted.step hs.relays) (fun hp hit => ?_) fun hx => ?_
    · have hne : a ≠ .relayPop := fun he => by
        rw [if_pos he] at hit
        cases hit
      rw [hq hne]
      exact h.woken hp hr
    · cases hr.symm.trans hx
  | testRelay hr =>
    refine h.aside rfl h.fronted (fun hp hit => ?_) fun hx => (by cases hr.symm.trans hx)
    have hstop := h.stopped (by rw [hp]; trivial)
    rw [hstop] at hit
    cases hit
  | @wakeBatchHandler c hs =>
    have hsame : c.mainPc = s.client.mainPc ∧
        c.wsUpdatedJsonQueue = s.client.wsUpdatedJsonQueue := by
      cases hs
      exact ⟨rfl, rfl⟩
    refine h.aside hsame.1 (h.fronted.step hs.relays) (fun hp hit => ?_) id
    rw [hsame.2]
    exact h.woken hp hit
  | @receive msg c k hs hk =>
    have hsame : c.mainPc = s.client.mainPc ∧
        c.wsUpdatedJsonQueue = s.client.wsUpdatedJsonQueue ++ [msg] := by
      cases hs
      exact ⟨rfl, rfl⟩
    refine (h.work rfl hk).aside hsame.1 (h.fronted.step hs.relays) (fun _ _ => ?_) id
    simp [hsame.2]
  | worker ha hk => exact h.work ha hk

lemma unwinding_of_exec (l : List (App × AppAct)) (s : App) (h : (app uuid).Exec l s) :
    Unwinding s := by
  refine h.invariant ?_ fun _ _ _ hi hs => hi.step (appMove_of_step hs)
  refine ⟨ConnectionInv.init, ⟨fun _ => rfl, by simp [app, App.start, Connection.init],
    by simp [app, App.start, Connection.init], fun hp => hp.elim⟩,
    ⟨by simp [app, App.start, Client.start], by simp [app, App.start, Client.start]⟩,
    fun hc => hc.elim, fun hp => (by cases hp), by simp [app, App.start, Connection.init],
    fun hp => hp.elim, fun hp => hp.elim, fun hp => hp.elim, fun hp => (by cases hp),
    fun hp => (by cases hp)⟩

/-! ### The steps that are left -/

/-- What the relay has left to do before it looks at its queue again. -/
def App.relaySteps (s : App) : ℕ :=
  match s.relay, s.client.relayPc with
  | .test, _ => 4
  | .exited, _ => 0
  | .iteration, .front => 3
  | .iteration, .move _ _ => 2
  | .iteration, .pop => 1

/-- What `main` has left to do of `closeConnection`, with so many threads to join. -/
def CallerPc.steps (threads : ℕ) : CallerPc → ℕ
  | .pushEmpty => threads + 3
  | .join ts => ts.length + 2
  | _ => 0

/-- What `main` has left to do outside `closeConnection`; the push of the empty message counts for
the steps of the relay that it brings about. -/
def AppPc.steps : AppPc → ℕ
  | .closeConnection => 8
  | .push => 7
  | .join => 1
  | _ => 0

/-- A bound on the steps that are left.  A worker may start another one, or leave a message for the
relay, so each of its steps counts for eight. -/
def App.remaining (s : App) : ℕ :=
  8 * s.conn.work + s.conn.caller.steps s.conn.threadList.length + s.pc.steps
    + 4 * s.client.wsUpdatedJsonQueue.length + s.relaySteps
    + (if s.client.batchPending then 1 else 0)

/-- A step of a worker counts for more than what it brings about. -/
lemma ConnStep.remaining_le {k k' : Connection} {a : ConnAct} (hk : ConnStep k a k')
    (ha : a.ofWorker) (hi : ConnectionInv k) (hf : k.isConnected = false) :
    8 * k'.work + k'.caller.steps k'.threadList.length + 7
      ≤ 8 * k.work + k.caller.steps k.threadList.length := by
  have hwork := hk.work hi hf
  rw [if_pos ha] at hwork
  have hcall : k'.caller.steps k'.threadList.length
      ≤ k.caller.steps k.threadList.length + 1 := by
    rw [hk.caller_of_ofWorker ha]
    have hthreads : k'.threadList.length ≤ k.threadList.length + 1 := by
      cases hk with
      | spawnWrite => simp
      | connectWebSocket => cases ha
      | _ => exact Nat.le_succ _
    cases k.caller <;> simp only [CallerPc.steps] <;> omega
  omega

/-- Every step that is taken while the flag is down for good brings the end nearer. -/
theorem AppMove.remaining_lt (hs : AppMove s a s') (h : Unwinding s) (hc : s.conn.cleared)
    (hd : ¬ s.conn.Doomed) : s'.remaining < s.remaining := by
  have hf : s.conn.isConnected = false := Bool.not_eq_true _ ▸ (not_or.mp hd).1
  have hclosing := h.conn.closing.cleared.mp hc
  have hover : s.pc.Over := h.leaving hclosing
  have hno : ∀ {pc : AppPc}, s.pc = pc → ¬ pc.Over → s'.remaining < s.remaining := by
    rintro pc rfl hp
    exact absurd hover hp
  cases hs with
  | connectWebSocket hpc | main hpc | sendPosition hpc | push hpc | escape hpc | leave hpc =>
    exact hno hpc id
  | @close a k hpc ha hk =>
    have hsteps : k.work = s.conn.work ∧
        k.caller.steps k.threadList.length < s.conn.caller.steps s.conn.threadList.length := by
      cases hk with
      | closeConnection hcall =>
        rw [hcall] at hclosing
        exact hclosing.elim
      | pushEmpty hcall => exact ⟨rfl, by simp [hcall, CallerPc.steps]⟩
      | joinRead hcall | joinWrite hcall => exact ⟨rfl, by simp [hcall, CallerPc.steps]⟩
      | cancel hcall => exact ⟨rfl, by simp [hcall, CallerPc.steps]⟩
      | _ => cases ha
    simp only [App.remaining, App.relaySteps, hsteps.1]
    omega
  | stop hpc hcall =>
    simp only [App.remaining, App.relaySteps, hpc, AppPc.steps]
    omega
  | pushEmpty hpc =>
    simp only [App.remaining, App.relaySteps, hpc, AppPc.steps, List.length_append,
      List.length_singleton]
    omega
  | join hpc =>
    simp only [App.remaining, App.relaySteps, hpc, AppPc.steps]
    omega
  | @relay a c ha hr hs =>
    have hb : c.batchPending = s.client.batchPending := (hs.of_ofRelay ha).2.1
    simp only [App.remaining, App.relaySteps, hr, hb]
    cases hs with
    | relayFront hpc | movePosition hpc | moveGui hpc | moveDropped hpc => simp [hpc]
    | relayPop hpc =>
      have hlen := List.length_pos_iff.mpr (h.fronted.pop hpc)
      simp only [hpc, if_true, List.length_tail]
      omega
    | _ => cases ha
  | testRelay hr =>
    simp only [App.remaining, App.relaySteps, hr]
    cases s.gameRunning <;> cases s.client.relayPc <;> simp
  | wakeBatchHandler hs =>
    cases hs with
    | wakeBatchHandler hb => simp [App.remaining, App.relaySteps, hb]
  | receive hs hk =>
    have hwork := hk.remaining_le rfl h.conn hf
    cases hs with
    | onMessage =>
      simp only [App.remaining, App.relaySteps, List.length_append, List.length_singleton]
      omega
  | worker ha hk =>
    have hwork := hk.remaining_le ha h.conn hf
    simp only [App.remaining, App.relaySteps]
    omega

/-! ### Some step is possible -/

/-- A step that the process takes by itself: neither the network nor the timer of the batch handler
has a part in it. -/
def AppAct.ofProgram : AppAct → Bool
  | .receive _ | .wakeBatchHandler => false
  | .worker a => !a.awaited
  | _ => true

/-- `workerRead` waits for the network, or the batch handler still sleeps. -/
def App.Waits (s : App) : Prop :=
  s.conn.reader = .handshake ∨ s.conn.reader = .read ∨ s.client.batchPending

/-- A step that is possible, that does not doom the session, and that the process takes by itself
or waits for. -/
def App.CanGo (uuid : UuidV4) (s : App) : Prop :=
  ∃ a, ((app uuid).step s a).isSome ∧ a ≠ .worker (.handshake true) ∧ (a.ofProgram ∨ s.Waits)

lemma canGo_close (hm : s.client.mainPc = .posEmpty) (hpc : s.pc = .closeConnection) {b : ConnAct}
    (hb : b.ofClose) (hk : (s.conn.step b).isSome) : s.CanGo uuid := by
  refine ⟨.close b, ?_, by simp, Or.inl rfl⟩
  simp [app, App.step, hm, hpc, hb, hk]

lemma canGo_worker (hm : s.client.mainPc = .posEmpty) {b : ConnAct} (hb : b.ofWorker)
    (hok : b ≠ .handshake true) (hmsg : b ≠ .read .message) (hk : (s.conn.step b).isSome)
    (hwait : b.awaited → s.conn.reader = .handshake ∨ s.conn.reader = .read) : s.CanGo uuid := by
  refine ⟨.worker b, by simp [app, App.step, hm, hb, hmsg, hk], by simpa using hok, ?_⟩
  cases hba : b.awaited with
  | false => exact Or.inl (by simp [AppAct.ofProgram, hba])
  | true => exact Or.inr ((hwait hba).imp id Or.inl)

lemma canGo_relay (hm : s.client.mainPc = .posEmpty) (hpc : s.pc = .join)
    (hr : s.relay = .iteration) {b : ClientAct} (hb : b.ofRelay) (hs : (s.client.step b).isSome) :
    s.CanGo uuid := by
  refine ⟨.relay b, ?_, by simp, Or.inl rfl⟩
  simp [app, App.step, hm, hpc, hr, hb, hs]

/-- In `closeConnection`, `main` goes on, or a worker does that it waits for. -/
lemma Unwinding.session_goes (uuid : UuidV4) (h : Unwinding s) (hc : s.conn.cleared)
    (hd : ¬ s.conn.Doomed) (hpc : s.pc = .closeConnection) : s.CanGo uuid := by
  have hm := h.parked (by rw [hpc]; trivial)
  have hclosing := h.conn.closing.cleared.mp hc
  cases hcall : s.conn.caller with
  | connect | running | push f =>
    rw [hcall] at hclosing
    exact hclosing.elim
  | destroyed => exact absurd hcall h.standing
  | closed => exact ⟨.stop, by simp [app, App.step, hm, hpc, hcall], by simp, Or.inl rfl⟩
  | pushEmpty => exact canGo_close hm hpc (b := .pushEmpty) rfl (by simp [Connection.step, hcall])
  | join ts =>
    have hp : s.conn.caller.Pushed := by
      rw [hcall]
      trivial
    cases ts with
    | nil => exact canGo_close hm hpc (b := .cancel) rfl (by simp [Connection.step, hcall])
    | cons t ts =>
      cases t with
      | workerRead =>
        by_cases hexit : s.conn.reader = .exited
        · exact canGo_close hm hpc (b := .join) rfl (by simp [Connection.step, hcall, hexit])
        · obtain ⟨b, hb, hk, hok, hmsg, hwait⟩ := h.roused.reader_goes hd hp hexit
          exact canGo_worker hm hb hok hmsg hk hwait
      | workerWrite =>
        by_cases hexit : s.conn.writer = .exited
        · exact canGo_close hm hpc (b := .join) rfl (by simp [Connection.step, hcall, hexit])
        · have hstarted := h.roused.joining _ hcall (by simp)
          obtain ⟨b, hb, hk, hba⟩ := h.roused.writer_goes hd hp hstarted hexit
          refine canGo_worker hm hb ?_ ?_ hk fun ha => by rw [hba] at ha; cases ha
          · rintro rfl
            cases hba
          · rintro rfl
            cases hba

/-- At the joins, `main` goes on, or the relay does, which has the empty message before it. -/
lemma Unwinding.relay_goes (uuid : UuidV4) (h : Unwinding s) (hpc : s.pc = .join) :
    s.CanGo uuid := by
  have hm := h.parked (by rw [hpc]; trivial)
  cases hr : s.relay with
  | exited =>
    cases hb : s.client.batchPending with
    | false => exact ⟨.join, by simp [app, App.step, hm, hpc, hr, hb], by simp, Or.inl rfl⟩
    | true =>
      exact ⟨.wakeBatchHandler, by simp [app, App.step, Client.step, hm, hpc, hb], by simp,
        Or.inr (Or.inr (Or.inr hb))⟩
  | test => exact ⟨.testRelay, by simp [app, App.step, hm, hr], by simp, Or.inl rfl⟩
  | iteration =>
    cases hfront : s.client.relayPc with
    | front =>
      obtain ⟨jsondata, q, hq⟩ := List.exists_cons_of_ne_nil (h.woken hpc hr)
      exact canGo_relay hm hpc hr (b := .relayFront) rfl (by simp [Client.step, hfront, hq])
    | move jsondata route =>
      cases route <;>
        exact canGo_relay hm hpc hr (b := .relayMove) rfl (by simp [Client.step, hfront])
    | pop => exact canGo_relay hm hpc hr (b := .relayPop) rfl (by simp [Client.step, hfront])

/-- As long as the process has not ended, it can take a step; or it waits for something outside. -/
theorem Unwinding.goes (uuid : UuidV4) (h : Unwinding s) (hc : s.conn.cleared)
    (hd : ¬ s.conn.Doomed) (hend : s.pc ≠ .ended) : s.CanGo uuid := by
  have hover := h.leaving (h.conn.closing.cleared.mp hc)
  cases hpc : s.pc with
  | connect | loop =>
    rw [hpc] at hover
    exact hover.elim
  | closeConnection => exact h.session_goes uuid hc hd hpc
  | push =>
    have hm := h.parked hover
    exact ⟨.pushEmpty, by simp [app, App.step, hm, hpc], by simp, Or.inl rfl⟩
  | join => exact h.relay_goes uuid hpc
  | ended => exact absurd hpc hend

/-! ### The end -/

/-- What a step does to the session is a step of the session. -/
lemma AppMove.conn_cases (hs : AppMove s a s') : s'.conn = s.conn ∨
    ∃ b, ConnStep s.conn b s'.conn ∧ (b = .handshake true → a = .worker (.handshake true)) := by
  cases hs with
  | connectWebSocket _ hk | sendPosition _ _ hk | push _ hk | receive _ hk =>
    exact Or.inr ⟨_, hk, by simp⟩
  | close _ ha hk =>
    refine Or.inr ⟨_, hk, ?_⟩
    rintro rfl
    cases ha
  | worker _ hk =>
    refine Or.inr ⟨_, hk, ?_⟩
    rintro rfl
    rfl
  | _ => exact Or.inl rfl

lemma AppMove.cleared_stays (hs : AppMove s a s') (hc : s.conn.cleared) : s'.conn.cleared := by
  rcases hs.conn_cases with he | ⟨b, hk, -⟩
  · rwa [he]
  · exact hk.cleared_stays hc

lemma AppMove.doomed_stays (hs : AppMove s a s') (h : Unwinding s) (hc : s.conn.cleared)
    (hd : s.conn.Doomed) : s'.conn.Doomed := by
  rcases hs.conn_cases with he | ⟨b, hk, -⟩
  · rwa [he]
  · exact hk.doomed_stays h.conn hc hd

/-- A process that has ended was not doomed: it has joined `workerRead`. -/
lemma Unwinding.not_doomed (h : Unwinding s) (hpc : s.pc = .ended) : ¬ s.conn.Doomed := by
  have hclosed := h.closed (by rw [hpc]; trivial)
  have hexit := h.conn.closing.joined (by rw [hclosed]; trivial)
  rintro (hf | hr)
  · rw [h.conn.raised.exited hexit] at hf
    cases hf
  · rw [hexit] at hr
    cases hr

/-- **The end of the game.**  Once `closeConnection` has cleared the flag, the process can come to
its end if and only if `workerRead` has not raised the flag again, and is not about to.  While that
is so, all the threads together take no more than a bounded number of steps, in whatever order; and
when none of them can take another one, the process has ended, or it waits for the network or for
the batch handler to wake up. -/
theorem shutdown_ends_iff {l : List (App × AppAct)} (h : (app uuid).Exec l s)
    (hc : s.conn.cleared) :
    ((∃ s', (app uuid).Leads s s' ∧ s'.pc = .ended) ↔ ¬ s.conn.Doomed) ∧
      ∀ as r, (app uuid).run s as = some r → ¬ r.2.conn.Doomed →
        as.length ≤ s.remaining ∧
          ((∀ a, a.ofProgram → (app uuid).step r.2 a = none) → r.2.pc = .ended ∨ r.2.Waits) := by
  have hinv : Unwinding s ∧ s.conn.cleared := ⟨unwinding_of_exec l s h, hc⟩
  have hI : ∀ s a s', Unwinding s ∧ s.conn.cleared → (app uuid).step s a = some s' →
      Unwinding s' ∧ s'.conn.cleared := fun s a s' hi hs =>
    ⟨hi.1.step (appMove_of_step hs), (appMove_of_step hs).cleared_stays hi.2⟩
  have hdown : ∀ s a s', Unwinding s ∧ s.conn.cleared → (app uuid).step s a = some s' →
      ¬ s'.conn.Doomed → ¬ s.conn.Doomed ∧ s'.remaining < s.remaining := by
    intro s a s' hi hs hd'
    have hmove := appMove_of_step hs
    have hd : ¬ s.conn.Doomed := fun hd => hd' (hmove.doomed_stays hi.1 hi.2 hd)
    exact ⟨hd, hmove.remaining_lt hi.1 hi.2 hd⟩
  refine ⟨⟨?_, fun hd => ?_⟩, fun as r hr hd => ?_⟩
  · rintro ⟨s', hleads, hpc⟩ hd
    have hend : (Unwinding s' ∧ s'.conn.cleared) ∧ s'.conn.Doomed := by
      refine hleads.stable (P := fun s => (Unwinding s ∧ s.conn.cleared) ∧ s.conn.Doomed) ?_
        ⟨hinv, hd⟩
      exact fun s a s' hi hs =>
        ⟨hI s a s' hi.1 hs, (appMove_of_step hs).doomed_stays hi.1.1 hi.1.2 hi.2⟩
    exact hend.1.1.not_doomed hpc hend.2
  · refine leads_of_progress (F := fun s => s.pc = .ended) hI hdown ?_ hinv hd
    intro s hi hd hend
    obtain ⟨a, hgo, hok, -⟩ := hi.1.goes uuid hi.2 hd hend
    obtain ⟨s', hs⟩ := Option.isSome_iff_exists.mp hgo
    refine ⟨a, s', hs, ?_⟩
    rcases (appMove_of_step hs).conn_cases with he | ⟨b, hk, hb⟩
    · rwa [he]
    · exact hk.doomed_cases hd fun hb' => hok (hb hb')
  · have hlength := (length_run_le hI hdown hr hinv hd).2
    refine ⟨Nat.le_of_add_right_le hlength, fun hstuck => ?_⟩
    have hend : Unwinding r.2 ∧ r.2.conn.cleared := by
      have hany : ∀ a ∈ as, (fun _ : AppAct => True) a := fun _ _ => trivial
      exact run_invariant (fun s a s' _ hi hs => hI s a s' hi hs) hr hany hinv
    by_contra hno
    obtain ⟨hne, hnw⟩ := not_or.mp hno
    obtain ⟨a, hgo, -, ha⟩ := hend.1.goes uuid hend.2 hd hne
    rw [hstuck a (ha.resolve_right hnw)] at hgo
    cases hgo

end Run

/-- The short game up to the call of `closeConnection`, which comes while a read is pending. -/
def closedGame : List (App × AppAct) × App :=
  ((app someUuid).run (app someUuid).init (shortGame.take 56)).get (by decide +kernel)

theorem shutdown_ends_iff_closedGame :
    ∃ s', (app someUuid).Leads closedGame.2 s' ∧ s'.pc = .ended := by
  have hexec : (app someUuid).Exec closedGame.1 closedGame.2 := exec_get_run _
  have hcleared : closedGame.2.conn.cleared := by decide +kernel
  refine (shutdown_ends_iff hexec hcleared).1.mpr ?_
  rintro (hf | hr)
  · exact absurd hf (by decide +kernel)
  · exact absurd hr (by decide +kernel)

end MultiplayerCars.CPPClient
