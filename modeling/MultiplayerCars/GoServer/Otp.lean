import Mathlib.Data.Finset.Basic
import Mathlib.Logic.Function.Basic
import MultiplayerCars.Lib.Machine
import MultiplayerCars.Lib.Json.Lexical

/-!
# One-time passwords

`otp.go` and the parts of `loginHandler` and `serveWS` that use it.  The map of passwords is
shared by all the requests and by the retention loop, without a lock: `VerifyOTP` looks its key
up in one step and deletes it in another.  Two requests that present the same key can both look
it up before either deletes it, and both go on to `addClient`.
-/

namespace MultiplayerCars.GoServer

open Lib Lib.Json Lib.Machine

structure OTP where
  key : Text
  created : ℕ
deriving DecidableEq, Repr

/-- A Go map from keys to passwords, as the list of its values. -/
abbrev RetentionMap := List OTP

namespace RetentionMap

def lookup (rm : RetentionMap) (otp : Text) : Option OTP := rm.find? fun o => o.key == otp

def delete (rm : RetentionMap) (otp : Text) : RetentionMap := rm.filter fun o => o.key != otp

def insert (rm : RetentionMap) (o : OTP) : RetentionMap := o :: delete rm o.key

@[simp] lemma lookup_delete (rm : RetentionMap) (k k' : Text) :
    lookup (delete rm k) k' = if k' = k then none else lookup rm k' := by
  induction rm with
  | nil => simp [lookup, delete]
  | cons o rm ih =>
    simp only [lookup, delete] at ih ⊢
    by_cases hk : o.key = k
    · by_cases hk' : k' = k
      · simp [hk']
      · simpa [hk, hk', Ne.symm hk'] using ih
    · by_cases ho : o.key = k'
      · simp [ho, ho ▸ hk]
      · simpa [hk, ho] using ih

@[simp] lemma lookup_insert (rm : RetentionMap) (o : OTP) (k : Text) :
    lookup (insert rm o) k = if k = o.key then some o else lookup rm k := by
  by_cases hk : k = o.key
  · simp [lookup, insert, hk]
  · have hd := lookup_delete rm o.key k
    simp only [lookup, insert] at hd ⊢
    simp [Ne.symm hk, hd, hk]

end RetentionMap

/-- The test of the retention loop. -/
def OTP.expired (o : OTP) (retentionPeriod now : ℕ) : Bool :=
  decide (o.created + retentionPeriod < now)

/-- Five seconds, in milliseconds. -/
def retentionPeriod : ℕ := 5000

/-! ### Requests -/

abbrev CallId := ℕ

/-- Where a call of `serveWS` stands. -/
inductive Call
  | idle
  /-- `VerifyOTP`: about to look the key up, and, once it was found, about to delete it. -/
  | lookup (otp : Text) | delete (otp : Text)
  /-- `VerifyOTP` has returned true: about to upgrade the connection, about to add the client. -/
  | upgrade (otp : Text) | add (otp : Text)
  /-- The client was passed to `addClient`; the request was answered without that. -/
  | added (otp : Text) | rejected
deriving DecidableEq, Repr

/-- Where the retention loop stands: waiting for its ticker, in its range loop, or about to
delete an expired key. -/
inductive Retention
  | waiting
  | ranging (present seen : List Text)
  | deleting (key : Text) (present seen : List Text)
deriving DecidableEq, Repr

structure OtpState where
  otps : RetentionMap
  /-- The keys that `NewOTP` has returned. -/
  issued : List Text
  call : CallId → Call
  retention : Retention

namespace OtpState

def init : OtpState := ⟨[], [], fun _ => .idle, .waiting⟩

def goto (s : OtpState) (i : CallId) (c : Call) : OtpState :=
  { s with call := Function.update s.call i c }

/-- `NewOTP`, with the key and the time it is given. -/
def newOTP (s : OtpState) (key : Text) (now : ℕ) : OtpState :=
  { s with otps := s.otps.insert ⟨key, now⟩, issued := key :: s.issued }

end OtpState

inductive OtpAct
  /-- A login request with the user name and password it decodes to. -/
  | login (req : Option (Text × Text)) (key : Text) (now : ℕ)
  /-- A request for a connection, with the parameters of its query. -/
  | present (i : CallId) (otp uuid color : Text)
  | lookup (i : CallId) | delete (i : CallId)
  | upgrade (i : CallId) (ok : Bool) | add (i : CallId)
  | tick | range (key : Text) (now : ℕ) | expire | endTick
deriving DecidableEq

/-- `loginHandler` issues a password for this request. -/
def authenticates (req : Option (Text × Text)) : Bool :=
  req == some ("hill".toList, "1995".toList)

def OtpState.step (s : OtpState) : OtpAct → Option OtpState
  | .login req key now =>
    if authenticates req then
      -- `uuid.NewString` never repeats a key
      if key ∉ s.issued then some (s.newOTP key now) else none
    else some s
  | .present i otp uuid color =>
    if s.call i = .idle then
      some (s.goto i (if otp = [] ∨ uuid = [] ∨ color = [] then .rejected else .lookup otp))
    else none
  | .lookup i =>
    match s.call i with
    | .lookup otp =>
      some (s.goto i (if (s.otps.lookup otp).isSome then .delete otp else .rejected))
    | _ => none
  | .delete i =>
    match s.call i with
    | .delete otp => some ({ s with otps := s.otps.delete otp }.goto i (.upgrade otp))
    | _ => none
  | .upgrade i ok =>
    match s.call i with
    | .upgrade otp => some (s.goto i (if ok then .add otp else .rejected))
    | _ => none
  | .add i =>
    match s.call i with
    | .add otp => some (s.goto i (.added otp))
    | _ => none
  | .tick =>
    match s.retention with
    | .waiting => some { s with retention := .ranging (s.otps.map OTP.key) [] }
    | _ => none
  | .range key now =>
    match s.retention with
    | .ranging present seen =>
      match s.otps.lookup key with
      | some o =>
        if key ∉ seen then
          some { s with retention :=
            if o.expired retentionPeriod now then .deleting key present (key :: seen)
            else .ranging present (key :: seen) }
        else none
      | none => none
    | _ => none
  | .expire =>
    match s.retention with
    | .deleting key present seen =>
      some { s with otps := s.otps.delete key, retention := .ranging present seen }
    | _ => none
  | .endTick =>
    match s.retention with
    | .ranging present seen =>
      if ∀ k ∈ present, (s.otps.lookup k).isSome → k ∈ seen then
        some { s with retention := .waiting }
      else none
    | _ => none

def otpServer : Machine OtpState OtpAct where
  init := OtpState.init
  step := OtpState.step

/-- What one step does. -/
inductive OtpStep (s : OtpState) : OtpAct → OtpState → Prop
  | login {req : Option (Text × Text)} {key : Text} {now : ℕ} (hk : key ∉ s.issued) :
      OtpStep s (.login req key now) (s.newOTP key now)
  | refuse {req : Option (Text × Text)} {key : Text} {now : ℕ} :
      OtpStep s (.login req key now) s
  | present {i : CallId} {otp uuid color : Text} (hi : s.call i = .idle) :
      OtpStep s (.present i otp uuid color)
        (s.goto i (if otp = [] ∨ uuid = [] ∨ color = [] then .rejected else .lookup otp))
  | found {i : CallId} {otp : Text} (hi : s.call i = .lookup otp)
      (ho : (s.otps.lookup otp).isSome) : OtpStep s (.lookup i) (s.goto i (.delete otp))
  | missing {i : CallId} : OtpStep s (.lookup i) (s.goto i .rejected)
  | delete {i : CallId} {otp : Text} (hi : s.call i = .delete otp) :
      OtpStep s (.delete i) ({ s with otps := s.otps.delete otp }.goto i (.upgrade otp))
  | upgrade {i : CallId} {ok : Bool} {otp : Text} (hi : s.call i = .upgrade otp) :
      OtpStep s (.upgrade i ok) (s.goto i (if ok then .add otp else .rejected))
  | add {i : CallId} {otp : Text} (hi : s.call i = .add otp) :
      OtpStep s (.add i) (s.goto i (.added otp))
  | retain {a : OtpAct} {r : Retention} : OtpStep s a { s with retention := r }
  | expire {key : Text} {r : Retention} :
      OtpStep s .expire { s with otps := s.otps.delete key, retention := r }

theorem otpStep_cases {s s' : OtpState} {a : OtpAct} (h : otpServer.step s a = some s') :
    OtpStep s a s' := by
  cases a <;> simp only [otpServer, OtpState.step] at h
  case login req key now =>
    split_ifs at h with hr hk
    · cases h
      exact .login hk
    · cases h
      exact .refuse
  case present i otp uuid color =>
    obtain ⟨hi, rfl⟩ := by simpa only [Option.ite_none_right_eq_some, Option.some.injEq] using h
    exact .present hi
  case lookup i =>
    split at h
    · rename_i otp hi
      split_ifs at h with ho
      · cases h
        exact .found hi ho
      · cases h
        exact .missing
    · cases h
  case delete i =>
    split at h
    · rename_i otp hi
      cases h
      exact .delete hi
    · cases h
  case upgrade i ok =>
    split at h
    · rename_i otp hi
      cases h
      exact .upgrade hi
    · cases h
  case add i =>
    split at h
    · rename_i otp hi
      cases h
      exact .add hi
    · cases h
  case tick =>
    split at h
    · cases h
      exact .retain
    · cases h
  case range key now =>
    split at h
    · split at h
      · split_ifs at h
        · cases h
          exact .retain
        · cases h
          exact .retain
      · cases h
    · cases h
  case expire =>
    split at h
    · cases h
      exact .expire
    · cases h
  case endTick =>
    split at h
    · split_ifs at h
      · cases h
        exact .retain
    · cases h

/-! ### One client for a password -/

/-- The key that a call was let through with, so far. -/
def Call.holds : Call → Option Text
  | .delete otp | .upgrade otp | .add otp | .added otp => some otp
  | _ => none

/-- The key that a call has deleted. -/
def Call.took : Call → Option Text
  | .upgrade otp | .add otp | .added otp => some otp
  | _ => none

/-- Every client that was passed to `addClient` presented a key that was issued, and no two of
them presented the same. -/
structure OneClientPerOtp (s : OtpState) : Prop where
  issued : ∀ i k, s.call i = .added k → k ∈ s.issued
  unique : ∀ i j k, s.call i = .added k → s.call j = .added k → i = j

/-- No call finds a key in the map while another call has found it and not yet deleted it. -/
def Exclusive (s : OtpState) (a : OtpAct) : Prop :=
  ∀ i k, a = .lookup i → s.call i = .lookup k → (s.otps.lookup k).isSome →
    ∀ j, s.call j ≠ .delete k

/-- The keys in the map, and those that calls hold, were issued. -/
structure Issued (s : OtpState) : Prop where
  stored : ∀ k, (s.otps.lookup k).isSome → k ∈ s.issued
  held : ∀ i k, (s.call i).holds = some k → k ∈ s.issued

/-- A key is held by one call at most, and a call that took it took it out of the map. -/
structure Taken (s : OtpState) : Prop where
  unique : ∀ i j k, (s.call i).holds = some k → (s.call j).holds = some k → i = j
  deleted : ∀ i k, (s.call i).took = some k → s.otps.lookup k = none

lemma OtpState.goto_call (s : OtpState) (i j : CallId) (c : Call) :
    (s.goto i c).call j = if j = i then c else s.call j := by
  simp [OtpState.goto, Function.update_apply]

lemma Issued.goto {s : OtpState} {i : CallId} {c : Call} (h : Issued s)
    (hc : ∀ k, c.holds = some k → k ∈ s.issued) : Issued (s.goto i c) := by
  refine ⟨h.stored, fun j k hj => ?_⟩
  rw [OtpState.goto_call] at hj
  split_ifs at hj
  · exact hc k hj
  · exact h.held j k hj

lemma Issued.delete {s : OtpState} (h : Issued s) (key : Text) (r : Retention) :
    Issued { s with otps := s.otps.delete key, retention := r } := by
  refine ⟨fun k hk => ?_, h.held⟩
  rw [RetentionMap.lookup_delete] at hk
  split_ifs at hk
  · cases hk
  · exact h.stored k hk

theorem Issued.step {s s' : OtpState} {a : OtpAct} (h : Issued s) (hs : OtpStep s a s') :
    Issued s' := by
  cases hs with
  | @login req key now hk =>
    refine ⟨fun k hk' => ?_, fun i k hi => List.mem_cons_of_mem _ (h.held i k hi)⟩
    simp only [OtpState.newOTP, RetentionMap.lookup_insert] at hk' ⊢
    split_ifs at hk' with he
    · exact he ▸ List.mem_cons_self
    · exact List.mem_cons_of_mem _ (h.stored k hk')
  | refuse => exact h
  | present => exact h.goto (by split_ifs <;> simp [Call.holds])
  | @found i otp hi ho =>
    refine h.goto fun k hk => ?_
    cases hk
    exact h.stored otp ho
  | missing => exact h.goto (by simp [Call.holds])
  | @delete i otp hi =>
    have h' : Issued { s with otps := s.otps.delete otp } := h.delete otp s.retention
    refine h'.goto fun k hk => h.held i k ?_
    rw [hi]
    exact hk
  | @upgrade i ok otp hi =>
    refine h.goto fun k hk => h.held i k ?_
    rw [hi]
    cases ok with
    | true => exact hk
    | false => cases hk
  | @add i otp hi =>
    refine h.goto fun k hk => h.held i k ?_
    rw [hi]
    exact hk
  | retain => exact ⟨h.stored, h.held⟩
  | expire => exact h.delete _ _

lemma Taken.goto {s : OtpState} {i : CallId} {c : Call} (h : Taken s)
    (hc : ∀ k, c.holds = some k → ∀ j, j ≠ i → (s.call j).holds ≠ some k)
    (ht : ∀ k, c.took = some k → s.otps.lookup k = none) : Taken (s.goto i c) := by
  refine ⟨fun j j' k hj hj' => ?_, fun j k hj => ?_⟩
  · rw [OtpState.goto_call] at hj hj'
    split_ifs at hj hj' with h₁ h₂ h₂
    · rw [h₁, h₂]
    · exact absurd hj' (hc k hj j' h₂)
    · exact absurd hj (hc k hj' j h₁)
    · exact h.unique j j' k hj hj'
  · rw [OtpState.goto_call] at hj
    split_ifs at hj
    · exact ht k hj
    · exact h.deleted j k hj

/-- A call that goes on with the key it holds. -/
lemma Taken.advance {s : OtpState} {i : CallId} {c : Call} (h : Taken s)
    (hc : ∀ k, c.holds = some k → (s.call i).holds = some k)
    (ht : ∀ k, c.took = some k → s.otps.lookup k = none) : Taken (s.goto i c) :=
  h.goto (fun k hk j hj hjk => hj (h.unique j i k hjk (hc k hk))) ht

lemma Taken.delete {s : OtpState} (h : Taken s) (key : Text) (r : Retention) :
    Taken { s with otps := s.otps.delete key, retention := r } := by
  refine ⟨h.unique, fun i k hi => ?_⟩
  rw [RetentionMap.lookup_delete]
  split_ifs
  · rfl
  · exact h.deleted i k hi

/-- Exclusive look-ups leave a key to one call. -/
theorem Taken.step {s s' : OtpState} {a : OtpAct} (hi : Issued s) (h : Taken s)
    (hok : Exclusive s a) (hs : OtpStep s a s') : Taken s' := by
  cases hs with
  | @login req key now hk =>
    refine ⟨h.unique, fun i k hik => ?_⟩
    -- a new key is none that a call has
    have hne : k ≠ key := by
      rintro rfl
      refine hk (hi.held i k ?_)
      cases hc : s.call i <;> simp_all [Call.took, Call.holds, OtpState.newOTP]
    simp only [OtpState.newOTP, RetentionMap.lookup_insert, if_neg hne]
    exact h.deleted i k hik
  | refuse => exact h
  | present =>
    exact h.goto (by split_ifs <;> simp [Call.holds]) (by split_ifs <;> simp [Call.took])
  | @found i otp hi' ho =>
    refine h.goto (fun k hk j _ hj => ?_) (by simp [Call.took])
    cases hk
    -- a holder is between its look-up and its deletion, or has taken the key out of the map
    have hdel : s.call j ≠ .delete otp := hok i otp rfl hi' ho j
    have htook : (s.call j).took = some otp := by
      cases hc : s.call j <;> simp_all [Call.holds, Call.took]
    rw [h.deleted j otp htook] at ho
    cases ho
  | missing => exact h.goto (by simp [Call.holds]) (by simp [Call.took])
  | @delete i otp hi' =>
    have h' : Taken { s with otps := s.otps.delete otp } := h.delete otp s.retention
    refine h'.advance (fun k hk => ?_) fun k hk => ?_
    · simp only [hi']
      exact hk
    · cases hk
      simp
  | @upgrade i ok otp hi' =>
    cases ok with
    | true =>
      refine h.advance (fun k hk => ?_) fun k hk => h.deleted i k ?_
      · rw [hi']
        exact hk
      · rw [hi']
        exact hk
    | false => exact h.goto (by simp [Call.holds]) (by simp [Call.took])
  | @add i otp hi' =>
    refine h.advance (fun k hk => ?_) fun k hk => h.deleted i k ?_
    · rw [hi']
      exact hk
    · rw [hi']
      exact hk
  | retain => exact ⟨h.unique, h.deleted⟩
  | expire => exact h.delete _ _

lemma Issued.init : Issued OtpState.init := by
  refine ⟨fun k hk => ?_, fun i k hi => ?_⟩
  · cases hk
  · cases hi

lemma Taken.init : Taken OtpState.init := by
  refine ⟨fun i j k hi _ => ?_, fun i k hi => ?_⟩
  · cases hi
  · cases hi

lemma issued_of_exec (l : List (OtpState × OtpAct)) (s : OtpState) (h : otpServer.Exec l s) :
    Issued s :=
  h.invariant Issued.init fun _ _ _ hi hs => hi.step (otpStep_cases hs)

/-- **One password, one client.**  In every state of a run in which no call finds a key that
another call has found and not yet deleted, every client that was added presented a key that was
issued, and no two of them the same. -/
theorem one_client_per_otp {l : List (OtpState × OtpAct)} {s : OtpState}
    (h : otpServer.Exec l s) (hok : Meets Exclusive l) : Always OneClientPerOtp l s := by
  refine Exec.always_of_meets (fun l s h hok => ?_) h hok
  have htaken : Taken s := h.invariant_of_meets issued_of_exec Taken.init
    (fun _ _ _ hi ht hok hs => ht.step hi hok (otpStep_cases hs)) hok
  refine ⟨fun i k hi => ?_, fun i j k hi hj => ?_⟩
  · exact (issued_of_exec l s h).held i k (by rw [hi]; rfl)
  · exact htaken.unique i j k (by rw [hi]; rfl) (by rw [hj]; rfl)

/-- Two calls present the same key and both look it up before either deletes it. -/
def shared : List OtpAct :=
  [.login (some ("hill".toList, "1995".toList)) ['k'] 0,
    .present 0 ['k'] ['a'] ['c'], .present 1 ['k'] ['b'] ['c'], .lookup 0, .lookup 1,
    .delete 0, .delete 1, .upgrade 0 true, .upgrade 1 true, .add 0, .add 1]

lemma shared_runs : (otpServer.run otpServer.init shared).isSome := by
  decide

/-- One password can admit two clients. -/
theorem two_clients_per_otp : ¬ ∀ s, otpServer.Reachable s → OneClientPerOtp s := by
  intro h
  have hs := h _ ⟨_, exec_get_run shared_runs⟩
  exact absurd (hs.unique 0 1 ['k'] (by decide) (by decide)) (by decide)

/-! ### A run with exclusive look-ups -/

/-- A call presents the key that was issued. -/
def presented : OtpState := (OtpState.init.newOTP ['k'] 0).goto 0 (.lookup ['k'])

/-- It has found and deleted the key. -/
def verified : OtpState :=
  { presented.goto 0 (.delete ['k']) with otps := [] }.goto 0 (.upgrade ['k'])

/-- Its client has been added, and a second call presents the key. -/
def reused : OtpState :=
  ((verified.goto 0 (.add ['k'])).goto 0 (.added ['k'])).goto 1 (.lookup ['k'])

/-- The two calls up to the look-up of the second. -/
def reuse : List (OtpState × OtpAct) :=
  [(OtpState.init, .login (some ("hill".toList, "1995".toList)) ['k'] 0),
    (OtpState.init.newOTP ['k'] 0, .present 0 ['k'] ['a'] ['c']),
    (presented, .lookup 0), (presented.goto 0 (.delete ['k']), .delete 0),
    (verified, .upgrade 0 true), (verified.goto 0 (.add ['k']), .add 0),
    ((verified.goto 0 (.add ['k'])).goto 0 (.added ['k']), .present 1 ['k'] ['b'] ['c']),
    (reused, .lookup 1)]

lemma exec_reuse : otpServer.Exec reuse (reused.goto 1 .rejected) :=
  exec_of_run (rfl : otpServer.run otpServer.init
    [.login (some ("hill".toList, "1995".toList)) ['k'] 0, .present 0 ['k'] ['a'] ['c'],
      .lookup 0, .delete 0, .upgrade 0 true, .add 0, .present 1 ['k'] ['b'] ['c'],
      .lookup 1] = some (reuse, _))

lemma meets_reuse : Meets Exclusive reuse := by
  have hfirst : Exclusive presented (.lookup 0) := by
    intro i k _ _ _ j hj
    simp only [presented, OtpState.goto_call] at hj
    split_ifs at hj
    cases hj
  have hsecond : Exclusive reused (.lookup 1) := by
    intro i k _ _ ho
    cases ho
  have hother : ∀ {s : OtpState} {a : OtpAct}, (∀ i, a ≠ .lookup i) → Exclusive s a :=
    fun ha i k he => absurd he (ha i)
  intro x hx
  simp only [reuse, List.mem_cons, List.not_mem_nil, or_false] at hx
  rcases hx with rfl | rfl | rfl | rfl | rfl | rfl | rfl | rfl
  · exact hother (by simp)
  · exact hother (by simp)
  · exact hfirst
  · exact hother (by simp)
  · exact hother (by simp)
  · exact hother (by simp)
  · exact hother (by simp)
  · exact hsecond

/-- The first call adds its client, and the second is refused. -/
theorem one_client_per_otp_reuse : Always OneClientPerOtp reuse (reused.goto 1 .rejected) ∧
    (reused.goto 1 .rejected).call 0 = .added ['k'] :=
  ⟨one_client_per_otp exec_reuse meets_reuse, rfl⟩

end MultiplayerCars.GoServer
