import MultiplayerCars.GoServer.Process

/-!
# Accesses to the two maps

Every insert into `m.clients` and every delete from it is made with the mutex held, and so is the
exit broadcast; the other broadcasts and `/debug` go over the map without it, and the map of
passwords has no mutex.  A map is mutated while another goroutine uses it exactly when an
unlocked access to `m.clients` and a mutation of it, or two accesses to the passwords of which one
mutates, come to overlap.
-/

namespace MultiplayerCars.GoServer

open Lib Lib.Json Lib.Machine

/-! ### What one step of the process does -/

/-- What one step does, as far as the accesses go. -/
inductive ProcessStep (s : GoProcess) : ProcessAct → GoProcess → Prop
  | login {i : RequestId} {req : Option (Text × Text)} {key : Text} {now : ℕ} {p : Login}
      (hi : s.login i = .idle) :
      ProcessStep s (.login i req key now) { s with login := Function.update s.login i p }
  | debug {i : RequestId} (hi : s.debug i = .idle) :
      ProcessStep s (.debug i) { s with debug := Function.update s.debug i .len }
  | present {c : ClientId} {otp uuid color : Text} {p : Call} {q : ClientId → Client}
      (hc : s.otp.call c = .idle) :
      ProcessStep s (.present c otp uuid color) { s with otp := s.otp.goto c p, query := q }
  | upgrade {c : ClientId} {ok : Bool} {otp : Text} {p : Call} (hc : s.otp.call c = .upgrade otp) :
      ProcessStep s (.upgrade c ok) { s with otp := s.otp.goto c p }
  | addClient {c : ClientId} {otp uuid color : Text} {v : Server} (hc : s.otp.call c = .add otp)
      (hv : Step s.server (.connect c uuid color) v) :
      ProcessStep s (.addClient c) { s with otp := s.otp.goto c (.added otp), server := v }
  | tick {r : Retention} (hr : s.otp.retention = .waiting) (hr' : r.looping) :
      ProcessStep s .tick { s with otp := { s.otp with retention := r } }
  | range {key : Text} {now : ℕ} {r : Retention} (ha : s.otp.retention.access = none)
      (hl : s.otp.retention.looping) (hr : r.looping) :
      ProcessStep s (.range key now) { s with otp := { s.otp with retention := r } }
  | endTick (ha : s.otp.retention.access = none) :
      ProcessStep s .endTick { s with otp := { s.otp with retention := .waiting } }
  | server {a : Act} {v : Server} (ha : a.plain) (hv : Step s.server a v) :
      ProcessStep s (.server a) { s with server := v }
  | begin {g : Goroutine} (hg : (s.access g).isSome) (hi : s.inside g = false) :
      ProcessStep s (.begin g) { s with inside := Function.update s.inside g true }
  | finishThread {t : Thread} {now : Text} {a : Act} {v : Server} (hi : s.inside (.thread t))
      (ha : (s.server.pc t).finish t now = some a) (hv : Step s.server a v) :
      ProcessStep s (.finish (.thread t) now)
        { s with server := v, inside := Function.update s.inside (.thread t) false }
  | finishCall {c : ClientId} {now : Text} {o : OtpState} {p : Call}
      (hi : s.inside (.thread (.serve c))) (hp : (s.server.pc (.serve c)).access = none)
      (hc : (s.otp.call c).access.isSome) (ho : o.call = Function.update s.otp.call c p)
      (hr : o.retention = s.otp.retention) :
      ProcessStep s (.finish (.thread (.serve c)) now)
        { s with otp := o, inside := Function.update s.inside (.thread (.serve c)) false }
  | finishLogin {i : RequestId} {now : Text} {o : OTP} (hi : s.inside (.loginHandler i)) :
      ProcessStep s (.finish (.loginHandler i) now) { s with
        otp := s.otp.newOTP o.key o.created, login := Function.update s.login i .answered
        inside := Function.update s.inside (.loginHandler i) false }
  | finishDebug {i : RequestId} {now : Text} (hi : s.inside (.debug i)) :
      ProcessStep s (.finish (.debug i) now) { s with
        debug := Function.update s.debug i .answered
        inside := Function.update s.inside (.debug i) false }
  | finishRetention {now : Text} {o : OtpState} (hi : s.inside .retention)
      (hl : s.otp.retention.looping) (ho : o.call = s.otp.call) (hr : o.retention.looping) :
      ProcessStep s (.finish .retention now)
        { s with otp := o, inside := Function.update s.inside .retention false }

lemma access_of_finish {p : Pc} {t : Thread} {now : Text} (h : p.finish t now = none) :
    p.access = none := by
  cases p <;> first | rfl | cases h

/-- The end of a look-up or a delete of `VerifyOTP` moves its call and nothing else. -/
lemma callStep_cases {o o' : OtpState} {c : CallId} {a : OtpAct} (ha : (o.call c).finish c = some a)
    (h : otpServer.step o a = some o') : (o.call c).access.isSome ∧
      (∃ p, o'.call = Function.update o.call c p) ∧ o'.retention = o.retention := by
  cases hc : o.call c with
  | lookup otp =>
    rw [hc] at ha
    cases ha
    simp only [otpServer, OtpState.step, hc, Option.some.injEq] at h
    subst h
    exact ⟨rfl, ⟨_, rfl⟩, rfl⟩
  | delete otp =>
    rw [hc] at ha
    cases ha
    simp only [otpServer, OtpState.step, hc, Option.some.injEq] at h
    subst h
    exact ⟨rfl, ⟨_, rfl⟩, rfl⟩
  | _ =>
    rw [hc] at ha
    cases ha

theorem processStep_cases {s s' : GoProcess} {a : ProcessAct}
    (h : goProcess.step s a = some s') : ProcessStep s a s' := by
  cases a with
  | login i req key now =>
    simp only [goProcess, GoProcess.step, Option.ite_none_right_eq_some, Option.some.injEq] at h
    obtain ⟨hi, rfl⟩ := h
    exact .login hi
  | debug i =>
    simp only [goProcess, GoProcess.step, Option.ite_none_right_eq_some, Option.some.injEq] at h
    obtain ⟨hi, rfl⟩ := h
    exact .debug hi
  | present c otp uuid color =>
    simp only [goProcess, GoProcess.step, GoProcess.withOtp, otpServer, OtpState.step,
      Option.map_eq_some_iff, Option.ite_none_right_eq_some, Option.some.injEq] at h
    obtain ⟨_, ⟨_, ⟨hc, rfl⟩, rfl⟩, rfl⟩ := h
    exact .present hc
  | upgrade c ok =>
    simp only [goProcess, GoProcess.step, GoProcess.withOtp, otpServer, OtpState.step,
      Option.map_eq_some_iff] at h
    obtain ⟨o, ho, rfl⟩ := h
    split at ho
    · rename_i otp hc
      cases ho
      exact .upgrade hc
    · cases ho
  | addClient c =>
    simp only [goProcess, GoProcess.step, GoProcess.withOtp, GoProcess.withServer, otpServer,
      OtpState.step, Option.map_eq_some_iff, Option.bind_eq_some_iff] at h
    obtain ⟨_, ⟨o, ho, rfl⟩, v, hv, rfl⟩ := h
    split at ho
    · rename_i otp hc
      cases ho
      exact .addClient hc (step_cases hv)
    · cases ho
  | tick =>
    simp only [goProcess, GoProcess.step, GoProcess.withOtp, otpServer, OtpState.step,
      Option.map_eq_some_iff] at h
    obtain ⟨o, ho, rfl⟩ := h
    split at ho
    · rename_i hr
      cases ho
      exact .tick hr rfl
    · cases ho
  | range key now =>
    simp only [goProcess, GoProcess.step, GoProcess.withOtp, otpServer, OtpState.step,
      Option.map_eq_some_iff] at h
    obtain ⟨o, ho, rfl⟩ := h
    split at ho
    · rename_i present seen hr
      split at ho
      · split_ifs at ho
        · cases ho
          exact .range (by rw [hr]; rfl) (by rw [hr]; rfl) rfl
        · cases ho
          exact .range (by rw [hr]; rfl) (by rw [hr]; rfl) rfl
      · cases ho
    · cases ho
  | endTick =>
    simp only [goProcess, GoProcess.step, GoProcess.withOtp, otpServer, OtpState.step,
      Option.map_eq_some_iff] at h
    obtain ⟨o, ho, rfl⟩ := h
    split at ho
    · rename_i present seen hr
      split_ifs at ho
      · cases ho
        exact .endTick (by rw [hr]; rfl)
    · cases ho
  | server a =>
    simp only [goProcess, GoProcess.step, GoProcess.withServer, Option.ite_none_right_eq_some,
      Option.map_eq_some_iff] at h
    obtain ⟨ha, v, hv, rfl⟩ := h
    exact .server ha (step_cases hv)
  | begin g =>
    simp only [goProcess, GoProcess.step, Option.ite_none_right_eq_some, Option.some.injEq] at h
    obtain ⟨⟨hg, hi⟩, rfl⟩ := h
    exact .begin hg hi
  | finish g now =>
    simp only [goProcess, GoProcess.step, Option.ite_none_right_eq_some,
      Option.map_eq_some_iff] at h
    obtain ⟨hi, s₁, hs₁, rfl⟩ := h
    cases g with
    | thread t =>
      simp only [GoProcess.perform] at hs₁
      split at hs₁
      · rename_i a ha
        obtain ⟨v, hv, rfl⟩ := Option.map_eq_some_iff.mp hs₁
        exact .finishThread hi ha (step_cases hv)
      · rename_i hf
        split at hs₁
        · rename_i c
          obtain ⟨a, ha, hs₁⟩ := Option.bind_eq_some_iff.mp hs₁
          obtain ⟨o, ho, rfl⟩ := Option.map_eq_some_iff.mp hs₁
          obtain ⟨hc, ⟨p, hp⟩, hr⟩ := callStep_cases ha ho
          exact .finishCall hi (access_of_finish hf) hc hp hr
        · cases hs₁
    | loginHandler i =>
      simp only [GoProcess.perform] at hs₁
      split at hs₁
      · cases hs₁
        exact .finishLogin hi
      · cases hs₁
    | debug i =>
      simp only [GoProcess.perform] at hs₁
      split at hs₁
      · cases hs₁
        exact .finishDebug hi
      · cases hs₁
    | retention =>
      simp only [GoProcess.perform, GoProcess.withOtp, otpServer, OtpState.step,
        Option.map_eq_some_iff] at hs₁
      obtain ⟨o, ho, rfl⟩ := hs₁
      split at ho
      · rename_i key present seen hr
        cases ho
        exact .finishRetention hi (by rw [hr]; rfl) rfl rfl
      · cases ho

/-! ### The invariant -/

/-- A goroutine is inside an access only at a place of access, and the goroutines of a client
start when its request has got through. -/
structure ProcessInv (s : GoProcess) : Prop where
  server : Inv s.server
  inside : ∀ g, s.inside g → (s.access g).isSome
  added : ∀ c, s.server.pc (.serve c) ≠ .idle → ∃ otp, s.otp.call c = .added otp

namespace GoProcess

/-- The access that a step begins. -/
def begins (s : GoProcess) : ProcessAct → Option (Goroutine × MapName × Use)
  | .begin g => (s.access g).map fun x => (g, x.1, x.2)
  | .server (.announce c _) => some (.thread (.serve c), .clients, .read)
  | .server (.readFrame c frame now) =>
    if (s.server.handled c frame now).looping then some (.thread (.read c), .clients, .read)
    else none
  | .tick => some (.retention, .otps, .read)
  | _ => none

end GoProcess

/-- What a step does to one goroutine: nothing, or it enters or leaves a range loop, or it begins
or ends an access. -/
inductive Moved (s s' : GoProcess) (b : Option (Goroutine × MapName × Use)) (g : Goroutine) : Prop
  | stays (hb : ∀ m u, b ≠ some (g, m, u)) (hi : s'.inside g = s.inside g)
      (ha : s.inside g → s'.access g = s.access g) (hl : s'.looping g = s.looping g)
  | enters {m : MapName} (hb : b = some (g, m, .read)) (hi : s'.inside g = s.inside g)
      (ha : s.inside g → s'.access g = s.access g) (hl : s.looping g = none)
      (hl' : s'.looping g = some m)
  | leaves (hb : b = none) (hi : s'.inside g = s.inside g)
      (ha : s.inside g → s'.access g = s.access g) (hl : s'.looping g = none)
  | begins {m : MapName} {u : Use} (hb : b = some (g, m, u)) (hi : s.inside g = false)
      (hi' : s'.inside g = true) (hm : s.access g = some (m, u)) (ha : s'.access g = s.access g)
      (hl : s'.looping g = s.looping g)
  | ends (hb : b = none) (hi' : s'.inside g = false)
      (hl : ∀ m, s'.looping g = some m → s.Uses m g)

lemma Moved.isSome {s s' : GoProcess} {b : Option (Goroutine × MapName × Use)} {g : Goroutine}
    (h : Moved s s' b g) (hs : s.inside g → (s.access g).isSome) (hg : s'.inside g) :
    (s'.access g).isSome := by
  cases h with
  | stays _ hi ha _ | enters _ hi ha _ _ | leaves _ hi ha _ =>
    rw [hi] at hg
    rw [ha hg]
    exact hs hg
  | begins _ _ _ hm ha _ =>
    rw [ha, hm]
    rfl
  | ends _ hi' _ =>
    rw [hi'] at hg
    cases hg

/-- Who is inside which access. -/
def GoProcess.occupancy (s : GoProcess) : Occupancy MapName Goroutine where
  uses := s.Uses
  mutates := s.Mutates
  uses_of_mutates h := Or.inl ⟨h.1, _, h.2⟩

lemma Moved.change {s s' : GoProcess} {b : Option (Goroutine × MapName × Use)} {g : Goroutine}
    (h : Moved s s' b g) : Occupancy.Change s.occupancy s'.occupancy b g := by
  cases h with
  | stays hb hi ha hl =>
    refine .same hb (fun m => ?_) fun m => ?_
    · simp only [GoProcess.occupancy, GoProcess.Uses, hi, hl]
      refine or_congr_left (and_congr_right fun hg => ?_)
      rw [ha hg]
    · simp only [GoProcess.occupancy, GoProcess.Mutates, hi]
      refine and_congr_right fun hg => ?_
      rw [ha hg]
  | @enters m hb hi ha hl hl' =>
    refine .begins hb (fun m' => ?_) fun m' => ?_
    · simp only [GoProcess.occupancy, GoProcess.Uses, hi, hl, hl', Option.some.injEq,
        reduceCtorEq, or_false, @eq_comm _ m m']
      refine or_congr_left (and_congr_right fun hg => ?_)
      rw [ha hg]
    · simp only [GoProcess.occupancy, GoProcess.Mutates, hi, reduceCtorEq, and_false, or_false]
      refine and_congr_right fun hg => ?_
      rw [ha hg]
  | leaves hb hi ha hl =>
    refine .leaves hb (fun m => ?_) fun m => ?_
    · simp only [GoProcess.occupancy, GoProcess.Uses, hi, hl, reduceCtorEq, or_false]
      rintro ⟨hg, u, hu⟩
      exact Or.inl ⟨hg, u, ha hg ▸ hu⟩
    · simp only [GoProcess.occupancy, GoProcess.Mutates, hi]
      rintro ⟨hg, hu⟩
      exact ⟨hg, ha hg ▸ hu⟩
  | begins hb hi hi' hm ha hl =>
    refine .begins hb (fun m' => ?_) fun m' => ?_
    · simp [GoProcess.occupancy, GoProcess.Uses, hi, hi', ha, hm, hl, or_comm, eq_comm]
    · simp [GoProcess.occupancy, GoProcess.Mutates, hi, hi', ha, hm, eq_comm]
  | ends hb hi' hl =>
    refine .leaves hb (fun m => ?_) fun m => ?_
    · rintro (⟨hg, -⟩ | hg)
      · rw [hi'] at hg
        cases hg
      · exact hl m hg
    · rintro ⟨hg, -⟩
      rw [hi'] at hg
      cases hg

/-! ### Steps of the server -/

lemma Goes.access_eq_none {v : Server} {a : Act} {t : Thread} {p q : Pc} (h : Goes v a t p q)
    (ha : a.plain) : p.access = none := by
  cases h <;> first | rfl | cases ha

lemma Goes.looping_cases {s : GoProcess} {a : Act} {t : Thread} {p q : Pc}
    (h : Goes s.server a t p q) : (p.looping = false ∧ q.looping = false)
      ∨ (p.looping = true ∧ q.looping = true)
      ∨ (p.looping = true ∧ q.looping = false ∧ s.begins (.server a) = none)
      ∨ (p.looping = false ∧ q.looping = true
        ∧ (s.begins (.server a) = some (.thread t, .clients, .read) ∨ p.access = some .write)) := by
  cases h with
  | announce => exact Or.inr (Or.inr (Or.inr ⟨rfl, rfl, Or.inl rfl⟩))
  | pick => exact Or.inr (Or.inl ⟨rfl, rfl⟩)
  | handoff => exact Or.inr (Or.inl ⟨rfl, rfl⟩)
  | @endRange l =>
    refine Or.inr (Or.inr (Or.inl ⟨rfl, ?_, rfl⟩))
    rw [RangeLoop.next]
    split <;> rfl
  | @readFrame c frame now =>
    cases hl : (s.server.handled c frame now).looping with
    | false => exact Or.inl ⟨rfl, rfl⟩
    | true => exact Or.inr (Or.inr (Or.inr ⟨rfl, rfl, Or.inl (if_pos hl)⟩))
  | @pingDone c ok => cases ok <;> exact Or.inl ⟨rfl, rfl⟩
  | @tickDone c ok => cases ok <;> exact Or.inl ⟨rfl, rfl⟩
  | check => split_ifs <;> exact Or.inl ⟨rfl, rfl⟩
  | delete => exact Or.inr (Or.inr (Or.inr ⟨rfl, rfl, Or.inr rfl⟩))
  | _ => exact Or.inl ⟨rfl, rfl⟩

/-- A goroutine that begins to range over the registry comes to its loop in that step. -/
lemma begins_server {s : GoProcess} {a : Act} {v : Server} (hv : Step s.server a v)
    {g : Goroutine} {m : MapName} {u : Use} (hb : s.begins (.server a) = some (g, m, u)) :
    ∃ t, g = .thread t ∧ (s.server.pc t).looping = false ∧ (v.pc t).looping = true := by
  cases hv with
  | @announce c now hc =>
    cases hb
    exact ⟨.serve c, rfl, by rw [hc]; rfl, by rw [Server.goto_pc_self]; rfl⟩
  | @readFrame c frame now hc =>
    simp only [GoProcess.begins, Option.ite_none_right_eq_some, Option.some.injEq] at hb
    obtain ⟨hl, hb⟩ := hb
    cases hb
    exact ⟨.read c, rfl, by rw [hc]; rfl, by rw [readFrame_pc, if_pos rfl]; exact hl⟩
  | _ => cases hb

/-- A goroutine that moves in a step that is not the end of an access is inside none. -/
lemma ProcessInv.inside_of_goes {s : GoProcess} (h : ProcessInv s) {a : Act} (ha : a.plain)
    {t : Thread} {q : Pc} (hg : Goes s.server a t (s.server.pc t) q) :
    s.inside (.thread t) = false := by
  rw [← Bool.not_eq_true]
  intro hin
  have hsome := h.inside _ hin
  simp only [GoProcess.access, hg.access_eq_none ha] at hsome
  cases t with
  | serve c =>
    have hidle : s.server.pc (.serve c) = .idle := by
      by_contra hne
      obtain ⟨otp, hotp⟩ := h.added c hne
      simp [hotp, Call.access] at hsome
    rw [hidle] at hg
    cases hg
    cases ha
  | read c => cases hsome
  | write c => cases hsome

lemma access_of_pc {s s' : GoProcess} {t : Thread} (hpc : s'.server.pc t = s.server.pc t)
    (ho : s'.otp.call = s.otp.call) : s'.access (.thread t) = s.access (.thread t) := by
  simp only [GoProcess.access, hpc, ho]

lemma looping_of_pc {s s' : GoProcess} {t : Thread} (hpc : s'.server.pc t = s.server.pc t) :
    s'.looping (.thread t) = s.looping (.thread t) := by
  simp only [GoProcess.looping, hpc]

lemma moved_server {s : GoProcess} (h : ProcessInv s) {a : Act} {v : Server} (ha : a.plain)
    (hv : Step s.server a v) (g : Goroutine) :
    Moved s { s with server := v } (s.begins (.server a)) g := by
  cases g with
  | thread t =>
    have hacc : s.inside (.thread t) →
        GoProcess.access { s with server := v } (.thread t) = s.access (.thread t) := by
      intro hin
      rcases hv.goes h.server.started t with he | hg
      · exact access_of_pc he rfl
      · rw [h.inside_of_goes ha hg] at hin
        cases hin
    have hnb : (s.server.pc t).looping = (v.pc t).looping →
        ∀ m u, s.begins (.server a) ≠ some (.thread t, m, u) := by
      rintro he m u hb
      obtain ⟨t', ht', hl, hl'⟩ := begins_server hv hb
      cases ht'
      rw [hl, hl'] at he
      cases he
    rcases hv.goes h.server.started t with he | hg
    · exact .stays (hnb (by rw [he])) rfl hacc (looping_of_pc he)
    · rcases hg.looping_cases (s := s) with
        ⟨hl, hl'⟩ | ⟨hl, hl'⟩ | ⟨hl, hl', hb⟩ | ⟨hl, hl', hb | hw⟩
      · exact .stays (hnb (by rw [hl, hl'])) rfl hacc (by simp [GoProcess.looping, hl, hl'])
      · exact .stays (hnb (by rw [hl, hl'])) rfl hacc (by simp [GoProcess.looping, hl, hl'])
      · exact .leaves hb rfl hacc (by simp [GoProcess.looping, hl'])
      · exact .enters hb rfl hacc (by simp [GoProcess.looping, hl])
          (by simp [GoProcess.looping, hl'])
      · rw [hg.access_eq_none ha] at hw
        cases hw
  | _ =>
    refine .stays (fun m u hb => ?_) rfl (fun _ => rfl) rfl
    obtain ⟨t, ht, -⟩ := begins_server hv hb
    cases ht

/-! ### The end of an access to the registry -/

/-- The end of an access moves only the goroutine whose access it was. -/
lemma finish_pc {v v' : Server} (hi : Inv v) {t t' : Thread} {now : Text} {a : Act}
    (ha : (v.pc t).finish t now = some a) (hv : Step v a v') (hne : t' ≠ t) :
    v'.pc t' = v.pc t' := by
  rcases hv.goes hi.started t' with he | hg
  · exact he
  · exfalso
    have hp := hi.placed t
    generalize v.pc t = p at ha hp
    cases p <;> simp only [Pc.finish, Option.some.injEq, reduceCtorEq] at ha
    · subst ha
      generalize v.pc t' = p' at hg
      generalize v'.pc t' = q at hg
      cases t with
      | serve c =>
        cases hg
        exact hne rfl
      | read c => exact hp
      | write c => exact hp
    · subst ha
      generalize v.pc t' = p' at hg
      generalize v'.pc t' = q at hg
      cases hg
      exact hne rfl
    · subst ha
      generalize v.pc t' = p' at hg
      generalize v'.pc t' = q at hg
      cases hg
      exact hne rfl

/-- A goroutine that is in a range loop when its access has ended has deleted. -/
lemma finish_looping {v v' : Server} {t : Thread} {now : Text} {a : Act}
    (ha : (v.pc t).finish t now = some a) (hv : Step v a v') (hl : (v'.pc t).looping) :
    (v.pc t).access = some .write := by
  generalize hp : v.pc t = p at ha
  cases p <;> simp only [Pc.finish, Option.some.injEq, reduceCtorEq] at ha
  · rfl
  · subst ha
    cases hv
    rw [Server.goto_pc_self] at hl
    split_ifs at hl <;> cases hl
  · rfl

/-! ### Every step moves each goroutine in one of those ways -/

/-- A change of where one call stands leaves alone who is inside an access, unless the call is. -/
lemma access_goto {s : GoProcess} {c : ClientId} {p : Call} {g : Goroutine}
    (h : s.inside g → (s.access g).isSome) (hc : (s.otp.call c).access = none)
    (hg : s.inside g) :
    GoProcess.access { s with otp := s.otp.goto c p } g = s.access g := by
  have hsome := h hg
  cases g with
  | thread t =>
    cases t with
    | serve c' =>
      simp only [GoProcess.access, OtpState.goto_call] at hsome ⊢
      split
      · rfl
      · rename_i hn
        by_cases he : c' = c
        · subst he
          simp [hn, hc] at hsome
        · rw [if_neg he]
    | read c' => rfl
    | write c' => rfl
  | _ => rfl

/-- The retention loop, when it is not about to delete, moves on. -/
lemma moved_retention {s : GoProcess} {r : Retention} {b : Option (Goroutine × MapName × Use)}
    {g : Goroutine}
    (hg : g = .retention → Moved s { s with otp := { s.otp with retention := r } } b g)
    (hb : ∀ m u, g ≠ .retention → b ≠ some (g, m, u)) :
    Moved s { s with otp := { s.otp with retention := r } } b g := by
  by_cases he : g = .retention
  · exact hg he
  · refine .stays (fun m u => hb m u he) rfl (fun _ => ?_) ?_
    · cases g <;> first | rfl | exact absurd rfl he
    · cases g <;> first | rfl | exact absurd rfl he

lemma ProcessInv.not_inside {s : GoProcess} (h : ProcessInv s) {g : Goroutine}
    (ha : s.access g = none) : s.inside g = false := by
  rw [← Bool.not_eq_true]
  intro hin
  have hsome := h.inside g hin
  rw [ha] at hsome
  cases hsome

/-- The end of an access moves no goroutine but the one that ends it. -/
lemma moved_finish {s s' : GoProcess} {b : Option (Goroutine × MapName × Use)} {q : Goroutine}
    (hb : b = none) (hin : s'.inside = Function.update s.inside q false)
    (hself : ∀ m, s'.looping q = some m → s.Uses m q)
    (hother : ∀ g, g ≠ q → s'.access g = s.access g ∧ s'.looping g = s.looping g)
    (g : Goroutine) : Moved s s' b g := by
  by_cases he : g = q
  · subst he
    exact .ends hb (by simp [hin]) hself
  · obtain ⟨ha, hl⟩ := hother g he
    exact .stays (by simp [hb]) (by simp [hin, he]) (fun _ => ha) hl

theorem ProcessStep.moved {s s' : GoProcess} {a : ProcessAct} (hs : ProcessStep s a s')
    (h : ProcessInv s) (g : Goroutine) : Moved s s' (s.begins a) g := by
  cases hs with
  | @login i req key now p hi =>
    refine .stays (by simp [GoProcess.begins]) rfl (fun hg => ?_) ?_
    · cases g with
      | loginHandler j =>
        by_cases he : j = i
        · subst he
          rw [h.not_inside (by simp [GoProcess.access, hi, Login.access])] at hg
          cases hg
        · simp [GoProcess.access, Function.update_of_ne he]
      | _ => rfl
    · cases g <;> rfl
  | @debug i hi =>
    refine .stays (by simp [GoProcess.begins]) rfl (fun hg => ?_) ?_
    · cases g with
      | debug j =>
        by_cases he : j = i
        · subst he
          rw [h.not_inside (by simp [GoProcess.access, hi, Debug.access])] at hg
          cases hg
        · simp [GoProcess.access, Function.update_of_ne he]
      | _ => rfl
    · cases g <;> rfl
  | present hc =>
    refine .stays (by simp [GoProcess.begins]) rfl (fun hg => ?_) (by cases g <;> rfl)
    exact access_goto (h.inside g) (by rw [hc]; rfl) hg
  | upgrade hc =>
    refine .stays (by simp [GoProcess.begins]) rfl (fun hg => ?_) (by cases g <;> rfl)
    exact access_goto (h.inside g) (by rw [hc]; rfl) hg
  | @addClient c otp uuid color v hc hv =>
    cases hv with
    | connect hidle hu hk =>
      refine .stays (by simp [GoProcess.begins]) rfl (fun hg => ?_) ?_
      · rw [← access_goto (p := .added otp) (h.inside g) (by rw [hc]; rfl) hg]
        cases g with
        | thread t =>
          by_cases he : t = .serve c
          · subst he
            rw [h.not_inside (by simp [GoProcess.access, hidle, hc, Pc.access, Call.access])] at hg
            cases hg
          · exact access_of_pc (Server.goto_pc_of_ne he) rfl
        | _ => rfl
      · cases g with
        | thread t =>
          by_cases he : t = .serve c
          · subst he
            simp [GoProcess.looping, hidle, Pc.looping]
          · exact looping_of_pc (Server.goto_pc_of_ne he)
        | _ => rfl
  | @tick r hr hr' =>
    refine moved_retention ?_ (by simp +contextual [GoProcess.begins, eq_comm])
    rintro rfl
    refine .enters (m := .otps) rfl rfl (fun hg => ?_) ?_ ?_
    · rw [h.not_inside (by simp [GoProcess.access, hr, Retention.access])] at hg
      cases hg
    · simp [GoProcess.looping, hr, Retention.looping]
    · simp [GoProcess.looping, hr']
  | range ha hl hr =>
    refine moved_retention ?_ (by simp [GoProcess.begins])
    rintro rfl
    refine .stays (by simp [GoProcess.begins]) rfl (fun hg => ?_) ?_
    · rw [h.not_inside (by simp [GoProcess.access, ha])] at hg
      cases hg
    · simp [GoProcess.looping, hl, hr]
  | endTick ha =>
    refine moved_retention ?_ (by simp [GoProcess.begins])
    rintro rfl
    refine .leaves rfl rfl (fun hg => ?_) (by simp [GoProcess.looping, Retention.looping])
    rw [h.not_inside (by simp [GoProcess.access, ha])] at hg
    cases hg
  | server ha hv => exact moved_server h ha hv g
  | @begin g' hg' hi =>
    obtain ⟨⟨m, u⟩, hm⟩ := Option.isSome_iff_exists.mp hg'
    by_cases he : g = g'
    · subst he
      exact .begins (by simp [GoProcess.begins, hm]) hi (by simp) hm rfl rfl
    · exact .stays (by simp [GoProcess.begins, hm, Ne.symm he]) (by simp [he]) (fun _ => rfl) rfl
  | @finishThread t now a v hi ha hv =>
    refine moved_finish (q := .thread t) rfl rfl ?_ ?_ g
    · intro m hm
      simp only [GoProcess.looping, Option.ite_none_right_eq_some, Option.some.injEq] at hm
      obtain ⟨hl, rfl⟩ := hm
      refine Or.inl ⟨hi, .write, ?_⟩
      simp [GoProcess.access, finish_looping ha hv hl]
    · intro g' he
      cases g' with
      | thread t' =>
        have hpc := finish_pc h.server ha hv fun hn : t' = t => he (by rw [hn])
        exact ⟨access_of_pc hpc rfl, looping_of_pc hpc⟩
      | _ => exact ⟨rfl, rfl⟩
  | @finishCall c now o p hi hp hc ho hr =>
    refine moved_finish (q := .thread (.serve c)) rfl rfl ?_ ?_ g
    · exact fun m hm => Or.inr hm
    · intro g' he
      cases g' with
      | thread t' =>
        cases t' with
        | serve c' =>
          have hne : c' ≠ c := fun hn => he (by rw [hn])
          exact ⟨by simp [GoProcess.access, ho, Function.update_of_ne hne], rfl⟩
        | _ => exact ⟨rfl, rfl⟩
      | retention => exact ⟨by simp [GoProcess.access, hr], by simp [GoProcess.looping, hr]⟩
      | _ => exact ⟨rfl, rfl⟩
  | @finishLogin i now o hi =>
    refine moved_finish (q := .loginHandler i) rfl rfl ?_ ?_ g
    · exact fun m hm => Or.inr hm
    · intro g' he
      cases g' with
      | loginHandler j =>
        have hne : j ≠ i := fun hn => he (by rw [hn])
        exact ⟨by simp [GoProcess.access, Function.update_of_ne hne], rfl⟩
      | _ => exact ⟨rfl, rfl⟩
  | @finishDebug i now hi =>
    refine moved_finish (q := .debug i) rfl rfl ?_ ?_ g
    · exact fun m hm => Or.inr hm
    · intro g' he
      cases g' with
      | debug j =>
        have hne : j ≠ i := fun hn => he (by rw [hn])
        exact ⟨by simp [GoProcess.access, Function.update_of_ne hne], rfl⟩
      | _ => exact ⟨rfl, rfl⟩
  | @finishRetention now o hi hl ho hr =>
    refine moved_finish (q := .retention) rfl rfl ?_ ?_ g
    · intro m hm
      simp only [GoProcess.looping, hr] at hm
      exact Or.inr (by simp only [GoProcess.looping, hl, hm])
    · intro g' he
      cases g' with
      | thread t => exact ⟨by simp only [GoProcess.access, ho], rfl⟩
      | retention => exact absurd rfl he
      | _ => exact ⟨rfl, rfl⟩

theorem ProcessStep.server_cases {s s' : GoProcess} {a : ProcessAct} (hs : ProcessStep s a s') :
    s'.server = s.server ∨ ∃ b, Step s.server b s'.server := by
  cases hs with
  | addClient _ hv => exact Or.inr ⟨_, hv⟩
  | server _ hv => exact Or.inr ⟨_, hv⟩
  | finishThread _ _ hv => exact Or.inr ⟨_, hv⟩
  | _ => exact Or.inl rfl

lemma added_of_goto {s : GoProcess} (h : ProcessInv s) {c c' : ClientId} {p : Call}
    (hc : ∀ otp, s.otp.call c ≠ .added otp) (hc' : s.server.pc (.serve c') ≠ .idle) :
    ∃ otp, Function.update s.otp.call c p c' = .added otp := by
  obtain ⟨otp, hotp⟩ := h.added c' hc'
  have hne : c' ≠ c := by
    rintro rfl
    exact hc otp hotp
  exact ⟨otp, by rw [Function.update_of_ne hne, hotp]⟩

/-- Once its request has got through, a client has nothing more to do with the passwords. -/
theorem ProcessStep.added {s s' : GoProcess} {a : ProcessAct} (hs : ProcessStep s a s')
    (h : ProcessInv s) (c : ClientId) (hc : s'.server.pc (.serve c) ≠ .idle) :
    ∃ otp, s'.otp.call c = .added otp := by
  cases hs with
  | present hi => exact added_of_goto h (by simp [hi]) hc
  | upgrade hi => exact added_of_goto h (by simp [hi]) hc
  | @addClient c₀ otp uuid color v hi hv =>
    by_cases he : c = c₀
    · subst he
      exact ⟨otp, by simp [OtpState.goto]⟩
    · cases hv with
      | connect hidle hu hk =>
        rw [Server.goto_pc_of_ne (by simpa using he)] at hc
        exact added_of_goto h (by simp [hi]) hc
  | @server a v ha hv =>
    refine h.added c fun hidle => ?_
    rcases hv.goes h.server.started (.serve c) with he | hg
    · exact hc (he.trans hidle)
    · rw [hidle] at hg
      generalize v.pc (.serve c) = q at hg
      cases hg
      cases ha
  | @finishThread t now a v hi ha hv =>
    refine h.added c fun hidle => ?_
    have hne : Thread.serve c ≠ t := by
      rintro rfl
      rw [hidle] at ha
      cases ha
    exact hc ((finish_pc h.server ha hv hne).trans hidle)
  | @finishCall c₀ now o p hi hp hacc ho hr =>
    rw [ho]
    refine added_of_goto h (fun otp hotp => ?_) hc
    rw [hotp] at hacc
    cases hacc
  | finishRetention hi hl ho hr =>
    rw [ho]
    exact h.added c hc
  | _ => exact h.added c hc

theorem ProcessInv.step {s s' : GoProcess} {a : ProcessAct} (h : ProcessInv s)
    (hs : ProcessStep s a s') : ProcessInv s' where
  server := by
    rcases hs.server_cases with he | ⟨b, hb⟩
    · rw [he]
      exact h.server
    · exact h.server.step hb
  inside := fun g => (hs.moved h g).isSome (h.inside g)
  added := hs.added h

theorem ProcessInv.init : ProcessInv GoProcess.init where
  server := Inv.init
  inside := by simp [GoProcess.init]
  added := fun c hc => absurd rfl hc

theorem processInv_of_exec (l : List (GoProcess × ProcessAct)) (s : GoProcess)
    (h : goProcess.Exec l s) : ProcessInv s :=
  h.invariant ProcessInv.init fun _ _ _ hi hs => hi.step (processStep_cases hs)

/-! ### When a map is mutated while it is used -/

/-- No goroutine is inside an insert into a map or a delete from it while a different one is
inside a range loop, a look-up, an insert or a delete of the same map. -/
def GoProcess.Undisturbed (s : GoProcess) : Prop :=
  ∀ m g g', g ≠ g' → s.Mutates m g → ¬ s.Uses m g'

/-- The goroutine holds the mutex of the manager. -/
def GoProcess.Locks (s : GoProcess) (g : Goroutine) : Prop :=
  ∃ t, g = .thread t ∧ s.server.lock = some t

/-- What a step must not do: begin an insert or a delete of `m.clients` while a goroutine without
the mutex goes over it; begin to go over it without the mutex during such an insert or delete;
begin an access to the passwords during another one, if one of the two mutates. -/
structure Quiet (s : GoProcess) (a : ProcessAct) : Prop where
  edit : ∀ g, s.begins a = some (g, .clients, .write) →
    ∀ g', s.Uses .clients g' → s.Locks g'
  read : ∀ g, s.begins a = some (g, .clients, .read) → ¬ s.Locks g →
    ∀ g', ¬ s.Mutates .clients g'
  otps : ∀ g u, s.begins a = some (g, .otps, u) →
    ∀ g', g' ≠ g → ¬ s.Mutates .otps g' ∧ (u = .write → ¬ s.Uses .otps g')

lemma GoProcess.Locks.unique {s : GoProcess} {g g' : Goroutine} (h : s.Locks g) (h' : s.Locks g') :
    g = g' := by
  obtain ⟨t, rfl, ht⟩ := h
  obtain ⟨t', rfl, ht'⟩ := h'
  rw [ht, Option.some.injEq] at ht'
  rw [ht']

/-- `addClient` and `removeClient` have the mutex when they mutate the registry. -/
lemma ProcessInv.locks_of_access {s : GoProcess} (h : ProcessInv s) {g : Goroutine}
    (hg : s.access g = some (.clients, .write)) : s.Locks g := by
  cases g with
  | thread t =>
    refine ⟨t, rfl, (h.server.guarded t).mpr ?_⟩
    simp only [GoProcess.access] at hg
    generalize s.server.pc t = p at hg
    cases p with
    | addInsert => trivial
    | removeDelete => trivial
    | removeCheck => trivial
    | _ =>
      cases t with
      | serve c => simp [Pc.access] at hg
      | _ => cases hg
  | loginHandler i => simp [GoProcess.access] at hg
  | debug i =>
    simp only [GoProcess.access] at hg
    generalize s.debug i = p at hg
    cases p <;> simp [Debug.access] at hg
  | retention => simp [GoProcess.access] at hg

lemma access_of_begins {s : GoProcess} {a : ProcessAct} {g : Goroutine} {m : MapName}
    (hb : s.begins a = some (g, m, .write)) : s.access g = some (m, .write) := by
  cases a with
  | begin g' =>
    obtain ⟨⟨m', u⟩, hx, he⟩ := Option.map_eq_some_iff.mp hb
    cases he
    exact hx
  | tick => simp [GoProcess.begins] at hb
  | server a =>
    cases a with
    | announce c now => simp [GoProcess.begins] at hb
    | readFrame c frame now => simp [GoProcess.begins] at hb
    | _ => cases hb
  | _ => cases hb

/-- What a step must not do comes down to the accesses without the mutex: those with it exclude
each other. -/
lemma quiet_iff_free {s : GoProcess} (h : ProcessInv s) (a : ProcessAct) :
    Quiet s a ↔ s.occupancy.Free (s.begins a) := by
  constructor
  · rintro hq g (_ | _) (_ | _) hb g' hne
    · refine ⟨fun hm => ?_, by simp⟩
      have hg' := h.locks_of_access hm.2
      exact hq.read g hb (fun hg => hne (hg'.unique hg)) g' hm
    · have hg := h.locks_of_access (access_of_begins hb)
      exact ⟨fun hm => hne ((h.locks_of_access hm.2).unique hg),
        fun _ hu => hne ((hq.edit g hb g' hu).unique hg)⟩
    · exact hq.otps g .read hb g' hne
    · exact hq.otps g .write hb g' hne
  · intro hf
    refine ⟨fun g hb g' hu => ?_, fun g hb hg g' hm => ?_, fun g u hb g' hne => hf g _ u hb g' hne⟩
    · by_cases he : g' = g
      · exact he ▸ h.locks_of_access (access_of_begins hb)
      · exact absurd hu ((hf g _ _ hb g' he).2 rfl)
    · have hg' := h.locks_of_access hm.2
      exact (hf g _ _ hb g' fun he => hg (he ▸ hg')).1 hm

/-- **Accesses to the maps, exactly.**  In no state of a run is a map mutated while a different
goroutine uses it if and only if no step of the run begins an access that it must not begin. -/
theorem maps_undisturbed_iff {l : List (GoProcess × ProcessAct)} {s : GoProcess}
    (h : goProcess.Exec l s) : Always GoProcess.Undisturbed l s ↔ Meets Quiet l := by
  have h₀ : GoProcess.Undisturbed goProcess.init := by
    rintro m g g' - ⟨hin, -⟩
    cases hin
  refine h.always_iff_meets processInv_of_exec h₀ fun s a s' hi hu hs => ?_
  rw [quiet_iff_free hi]
  have hstep := processStep_cases hs
  exact Occupancy.undisturbed_iff_free (fun g => (hstep.moved hi g).change) hu

/-! ### A broadcast during a registration -/

/-- The requests of a client up to its call of `addClient`, and its first step there. -/
def admission (c : ClientId) (key : Text) : List ProcessAct :=
  [.login c (some ("hill".toList, "1995".toList)) key 0, .begin (.loginHandler c),
    .finish (.loginHandler c) [], .present c key ['u'] ['c'],
    .begin (.thread (.serve c)), .finish (.thread (.serve c)) [],
    .begin (.thread (.serve c)), .finish (.thread (.serve c)) [],
    .upgrade c true, .addClient c, .server (.lockAdd c)]

/-- Client `0` is set up, and broadcasts its position while `addClient` inserts client `1`. -/
def overlapping : List ProcessAct :=
  admission 0 ['k'] ++
  [.begin (.thread (.serve 0)), .finish (.thread (.serve 0)) [], .server (.unlockAdd 0),
    .server (.announce 0 []), .server (.endRange (.serve 0)), .server (.spawnRead 0),
    .server (.spawnWrite 0)] ++
  admission 1 ['l'] ++
  [.server (.readFrame 0 "\x7b\"Type\":0,\"Payload\":\x7b\x7d\x7d".toList []),
    .begin (.thread (.serve 1))]

lemma overlapping_runs : (goProcess.run goProcess.init overlapping).isSome := by
  decide +kernel

def overlappingRun : List (GoProcess × ProcessAct) × GoProcess :=
  (goProcess.run goProcess.init overlapping).get overlapping_runs

lemma exec_overlapping : goProcess.Exec overlappingRun.1 overlappingRun.2 :=
  exec_get_run overlapping_runs

/-- The registry can be mutated while another goroutine ranges over it. -/
theorem registry_disturbed : ¬ ∀ s, goProcess.Reachable s → s.Undisturbed := by
  intro h
  refine h overlappingRun.2 ⟨_, exec_overlapping⟩ .clients (.thread (.serve 1)) (.thread (.read 0))
    (by simp) ⟨?_, ?_⟩ (Or.inr ?_)
  · decide +kernel
  · decide +kernel
  · decide +kernel

theorem maps_undisturbed_iff_overlapping :
    Always GoProcess.Undisturbed overlappingRun.1 overlappingRun.2
      ↔ Meets Quiet overlappingRun.1 :=
  maps_undisturbed_iff exec_overlapping

end MultiplayerCars.GoServer
