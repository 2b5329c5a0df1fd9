import MultiplayerCars.Lib.Query
import MultiplayerCars.GoServer.Lifetime

/-!
# Who is let in

`loginHandler` and `serveWS` from the side of those who call them.  A player presents a password
in the query of the request that is to become a connection, with a UUID and a colour.  `serveWS`
looks at the three parameters first, then at the password, and at the `Origin` last, when the
password is gone; so a request that names too little costs nothing, and one from elsewhere costs
the password.

The map of passwords is that of `RetentionMap`, at clock values: seen from there, an execution of
the entrance is one of calls of `NewOTP` and `VerifyOTP` and of ticks.
-/

namespace MultiplayerCars.GoServer

open Lib Lib.Json Lib.Machine

/-! ### Requests -/

/-- A request for a connection: its target and its `Origin`, and whether the rest of it is as
`Upgrade` wants it. -/
structure WsRequest where
  target : Text
  origin : Text
  upgradable : Bool
deriving DecidableEq, Repr

/-- `r.URL.Query().Get(key)`. -/
def WsRequest.param (r : WsRequest) (key : Text) : Text :=
  Query.get (Query.parseQuery (Query.cut '?' r.target).2) key

namespace WsRequest

def otp (r : WsRequest) : Text := r.param "otp".toList

def uuidStr (r : WsRequest) : Text := r.param "uuid".toList

def colorStr (r : WsRequest) : Text := r.param "color".toList

/-- None of the three parameters is missing or empty. -/
def Complete (r : WsRequest) : Prop := r.otp ≠ [] ∧ r.uuidStr ≠ [] ∧ r.colorStr ≠ []

instance (r : WsRequest) : Decidable r.Complete :=
  inferInstanceAs (Decidable (r.otp ≠ [] ∧ r.uuidStr ≠ [] ∧ r.colorStr ≠ []))

end WsRequest

def checkOrigin (origin : Text) : Bool := origin == "https://localhost:3000".toList

/-- `websocketUpgrader.Upgrade` returns no error. -/
def WsRequest.upgrades (r : WsRequest) : Bool := checkOrigin r.origin && r.upgradable

/-- How `serveWS` ends: with a status, with an error of `Upgrade`, or with a new client. -/
inductive WsReply
  | unauthorized
  | notUpgraded
  | client (uuid color : Text)
deriving DecidableEq, Repr

/-- `serveWS`, when the clock shows `now`. -/
def serveWS (retentionPeriod : ℕ) (s : OtpClock) (r : WsRequest) (now : ℕ) :
    Option (WsReply × OtpClock) :=
  if r.otp = [] then some (.unauthorized, s)
  else if r.uuidStr = [] then some (.unauthorized, s)
  else if r.colorStr = [] then some (.unauthorized, s)
  else
    (s.step retentionPeriod (.verifyOTP r.otp now)).map fun s' =>
      if !(s.otps.verifyOTP r.otp).1 then (.unauthorized, s')
      else if r.upgrades then (.client r.uuidStr r.colorStr, s')
      else (.notUpgraded, s')

/-! ### The entrance -/

inductive EntranceAct
  /-- A login request with the user name and password it decodes to. -/
  | login (req : Option (Text × Text)) (key : Text) (now : ℕ)
  | serveWS (r : WsRequest) (now : ℕ)
  | tick (order : List OTP) (now : ℕ)
  | done (now : ℕ)
deriving DecidableEq

def entranceStep (retentionPeriod : ℕ) (s : OtpClock) : EntranceAct → Option OtpClock
  | .login req key now =>
    if authenticates req then s.step retentionPeriod (.newOTP key now) else some s
  | .serveWS r now => (serveWS retentionPeriod s r now).map Prod.snd
  | .tick order now => s.step retentionPeriod (.tick order now)
  | .done now => s.step retentionPeriod (.done now)

/-- The two handlers and the retention loop of a manager that is made at `start`. -/
def entrance (retentionPeriod start : ℕ) : Machine OtpClock EntranceAct where
  init := (otpClock retentionPeriod start).init
  step := entranceStep retentionPeriod

/-- What an action does with the map of passwords, if it comes to it. -/
def EntranceAct.op : EntranceAct → Option OtpOp
  | .login req key now => if authenticates req then some (.newOTP key now) else none
  | .serveWS r now => if r.Complete then some (.verifyOTP r.otp now) else none
  | .tick order now => some (.tick order now)
  | .done now => some (.done now)

/-- The calls and ticks of an execution of the entrance. -/
def ops (l : List (OtpClock × EntranceAct)) : List (OtpClock × OtpOp) :=
  l.filterMap fun x => x.2.op.map fun o => (x.1, o)

/-- A login has succeeded at this time, with this password. -/
def LoggedIn (l : List (OtpClock × EntranceAct)) (key : Text) (created : ℕ) : Prop :=
  ∃ x ∈ l, ∃ req, x.2 = .login req key created ∧ authenticates req

/-- A complete request has presented this password while it was good. -/
def Spent (l : List (OtpClock × EntranceAct)) (key : Text) : Prop :=
  ∃ x ∈ l, ∃ r now, x.2 = .serveWS r now ∧ r.Complete ∧ r.otp = key ∧
    (x.1.otps.verifyOTP key).1 = true

/-- The ticker of the retention loop has fired at this time. -/
def SweptAt (l : List (OtpClock × EntranceAct)) (now : ℕ) : Prop :=
  ∃ x ∈ l, ∃ order, x.2 = .tick order now

section

variable {retentionPeriod start : ℕ} {l : List (OtpClock × EntranceAct)} {s s' : OtpClock}

/-- `serveWS` asks for a client exactly of a complete request with a good password that can be
upgraded. -/
lemma serveWS_eq {r : WsRequest} {now : ℕ} {reply : WsReply}
    (h : serveWS retentionPeriod s r now = some (reply, s')) :
    (¬ r.Complete ∧ reply = .unauthorized ∧ s' = s) ∨
      (r.Complete ∧ s.step retentionPeriod (.verifyOTP r.otp now) = some s' ∧
        reply = if !(s.otps.verifyOTP r.otp).1 then .unauthorized
          else if r.upgrades then .client r.uuidStr r.colorStr else .notUpgraded) := by
  rw [serveWS] at h
  by_cases hotp : r.otp = []
  · rw [if_pos hotp] at h
    obtain ⟨rfl, rfl⟩ := Prod.mk.inj (Option.some.inj h)
    exact Or.inl ⟨fun hc => hc.1 hotp, rfl, rfl⟩
  by_cases huuid : r.uuidStr = []
  · rw [if_neg hotp, if_pos huuid] at h
    obtain ⟨rfl, rfl⟩ := Prod.mk.inj (Option.some.inj h)
    exact Or.inl ⟨fun hc => hc.2.1 huuid, rfl, rfl⟩
  by_cases hcolor : r.colorStr = []
  · rw [if_neg hotp, if_neg huuid, if_pos hcolor] at h
    obtain ⟨rfl, rfl⟩ := Prod.mk.inj (Option.some.inj h)
    exact Or.inl ⟨fun hc => hc.2.2 hcolor, rfl, rfl⟩
  rw [if_neg hotp, if_neg huuid, if_neg hcolor] at h
  obtain ⟨t, ht, heq⟩ := Option.map_eq_some_iff.mp h
  refine Or.inr ⟨⟨hotp, huuid, hcolor⟩, ?_, ?_⟩
  · split_ifs at heq <;> rw [ht, (Prod.mk.inj heq).2]
  · split_ifs at heq ⊢ <;> exact (Prod.mk.inj heq).1.symm

/-- A complete request comes to the map. -/
lemma serveWS_of_complete (retentionPeriod : ℕ) {s : OtpClock} {r : WsRequest} {now : ℕ}
    (hc : r.Complete) (hnow : s.now ≤ now) :
    ∃ reply s', serveWS retentionPeriod s r now = some (reply, s') := by
  have hstep : s.step retentionPeriod (.verifyOTP r.otp now)
      = some { s with otps := (s.otps.verifyOTP r.otp).2, now := now } := if_pos hnow
  rw [serveWS, if_neg hc.1, if_neg hc.2.1, if_neg hc.2.2, hstep]
  exact ⟨_, _, rfl⟩

/-- An action is its call of the map, or leaves the map alone. -/
lemma entranceStep_op {a : EntranceAct} (h : (entrance retentionPeriod start).step s a = some s') :
    (∃ o, a.op = some o ∧ s.step retentionPeriod o = some s') ∨ (a.op = none ∧ s' = s) := by
  cases a with
  | login req key now =>
    cases hauth : authenticates req with
    | true => exact Or.inl ⟨.newOTP key now, by simp [EntranceAct.op, hauth], by
        simpa [entrance, entranceStep, hauth] using h⟩
    | false => exact Or.inr ⟨by simp [EntranceAct.op, hauth], by
        simpa [entrance, entranceStep, hauth] using h.symm⟩
  | serveWS r now =>
    obtain ⟨⟨reply, t⟩, hserve, rfl⟩ := Option.map_eq_some_iff.mp h
    rcases serveWS_eq hserve with ⟨hno, -, rfl⟩ | ⟨hc, hs, -⟩
    · exact Or.inr ⟨if_neg hno, rfl⟩
    · exact Or.inl ⟨_, if_pos hc, hs⟩
  | tick order now => exact Or.inl ⟨_, rfl, h⟩
  | done now => exact Or.inl ⟨_, rfl, h⟩

/-- The entrance refines the map of passwords at clock values. -/
theorem ops_exec (h : (entrance retentionPeriod start).Exec l s) :
    (otpClock retentionPeriod start).Exec (ops l) s :=
  h.project id EntranceAct.op rfl fun _ _ _ hs => entranceStep_op hs

lemma mem_ops {s : OtpClock} {o : OtpOp} : (s, o) ∈ ops l ↔ ∃ a, (s, a) ∈ l ∧ a.op = some o := by
  simp only [ops, List.mem_filterMap, Option.map_eq_some_iff, Prod.mk.injEq, Prod.exists]
  constructor
  · rintro ⟨t, a, hmem, o', ho, rfl, rfl⟩
    exact ⟨a, hmem, ho⟩
  · rintro ⟨a, hmem, ho⟩
    exact ⟨s, a, hmem, o, ho, rfl, rfl⟩

lemma issuedAt_ops {key : Text} {created : ℕ} :
    IssuedAt (ops l) key created ↔ LoggedIn l key created := by
  constructor
  · rintro ⟨⟨t, o⟩, hmem, rfl⟩
    obtain ⟨a, ha, hop⟩ := mem_ops.mp hmem
    cases a with
    | login req k now =>
      simp only [EntranceAct.op, Option.ite_none_right_eq_some, Option.some.injEq,
        OtpOp.newOTP.injEq] at hop
      obtain ⟨hauth, rfl, rfl⟩ := hop
      exact ⟨_, ha, req, rfl, hauth⟩
    | serveWS r now =>
      simp only [EntranceAct.op, Option.ite_none_right_eq_some, Option.some.injEq] at hop
      cases hop.2
    | tick | done => cases hop
  · rintro ⟨⟨t, a⟩, hmem, req, rfl, hauth⟩
    exact ⟨(t, .newOTP key created), mem_ops.mpr ⟨_, hmem, if_pos hauth⟩, rfl⟩

lemma accepted_ops {key : Text} : Accepted (ops l) key ↔ Spent l key := by
  constructor
  · rintro ⟨⟨t, o⟩, hmem, now, rfl, hgood⟩
    obtain ⟨a, ha, hop⟩ := mem_ops.mp hmem
    cases a with
    | login req k now =>
      simp only [EntranceAct.op, Option.ite_none_right_eq_some, Option.some.injEq] at hop
      cases hop.2
    | serveWS r now' =>
      simp only [EntranceAct.op, Option.ite_none_right_eq_some, Option.some.injEq,
        OtpOp.verifyOTP.injEq] at hop
      obtain ⟨hc, rfl, rfl⟩ := hop
      exact ⟨_, ha, r, now', rfl, hc, rfl, hgood⟩
    | tick | done => cases hop
  · rintro ⟨⟨t, a⟩, hmem, r, now, rfl, hc, rfl, hgood⟩
    exact ⟨(t, .verifyOTP r.otp now), mem_ops.mpr ⟨_, hmem, if_pos hc⟩, now, rfl, hgood⟩

lemma tickedAt_ops {now : ℕ} : TickedAt (ops l) now ↔ SweptAt l now := by
  constructor
  · rintro ⟨⟨t, o⟩, hmem, order, rfl⟩
    obtain ⟨a, ha, hop⟩ := mem_ops.mp hmem
    cases a with
    | login req k now =>
      simp only [EntranceAct.op, Option.ite_none_right_eq_some, Option.some.injEq] at hop
      cases hop.2
    | serveWS r now' =>
      simp only [EntranceAct.op, Option.ite_none_right_eq_some, Option.some.injEq] at hop
      cases hop.2
    | tick order' now' =>
      obtain ⟨rfl, rfl⟩ := OtpOp.tick.inj (Option.some.inj hop)
      exact ⟨_, ha, order', rfl⟩
    | done => cases hop
  · rintro ⟨⟨t, a⟩, hmem, order, rfl⟩
    exact ⟨(t, .tick order now), mem_ops.mpr ⟨_, hmem, rfl⟩, order, rfl⟩

/-- A password is good after an execution if it comes from a login, has not been spent, and had not
expired when the ticker last fired. -/
lemma verifyOTP_iff (h : (entrance retentionPeriod start).Exec l s) (key : Text) :
    (s.otps.verifyOTP key).1 = true ↔ ∃ created ≤ s.now, LoggedIn l key created ∧ ¬ Spent l key ∧
      ∀ t, SweptAt l t → t ≤ created + retentionPeriod := by
  have hr := recorded_of_exec (ops_exec h)
  rw [RetentionMap.verifyOTP_fst]
  simp only [← issuedAt_ops, ← accepted_ops, ← tickedAt_ops]
  constructor
  · rintro ⟨o, ho, rfl⟩
    obtain ⟨hissued, hrest⟩ := (hr.stored o).mp ho
    exact ⟨o.created, (hr.past _ _ hissued).2, hissued, hrest⟩
  · rintro ⟨created, -, hstored⟩
    exact ⟨⟨key, created⟩, (hr.stored ⟨key, created⟩).mpr hstored, rfl⟩

/-! ### Admission -/

/-- What a request for a connection comes to after a history. -/
structure Admission (retentionPeriod : ℕ) (l : List (OtpClock × EntranceAct)) (s : OtpClock)
    (r : WsRequest) (now : ℕ) : Prop where
  /-- It makes a client exactly if it is complete and can be upgraded, and its password comes from a
  login, was not presented in a complete request before, and had not expired at any tick; and then
  a client of its own UUID and colour. -/
  admits : ∀ uuid color, (∃ s', serveWS retentionPeriod s r now = some (.client uuid color, s')) ↔
    (uuid = r.uuidStr ∧ color = r.colorStr) ∧ s.now ≤ now ∧ r.Complete ∧ r.upgrades ∧
      ∃ created ≤ s.now, LoggedIn l r.otp created ∧ ¬ Spent l r.otp ∧
        ∀ t, SweptAt l t → t ≤ created + retentionPeriod
  /-- Afterwards the password of a complete request is of no use any more, whether the request made
  a client or not. -/
  spends : ∀ reply s', serveWS retentionPeriod s r now = some (reply, s') → r.Complete →
    (s'.otps.verifyOTP r.otp).1 = false
  /-- Every other password is as good as before, and so is that of a request that is not
  complete. -/
  spares : ∀ reply s' key, serveWS retentionPeriod s r now = some (reply, s') →
    ¬ r.Complete ∨ key ≠ r.otp → (s'.otps.verifyOTP key).1 = (s.otps.verifyOTP key).1

/-- What the look-up of the password decides, once everything else is in order. -/
lemma client_iff {r : WsRequest} {now : ℕ} {good : Prop}
    (hgood : (s.otps.verifyOTP r.otp).1 = true ↔ good) (uuid color : Text) :
    (∃ s', serveWS retentionPeriod s r now = some (.client uuid color, s')) ↔
      (uuid = r.uuidStr ∧ color = r.colorStr) ∧ s.now ≤ now ∧ r.Complete ∧ r.upgrades ∧ good := by
  rw [← hgood]
  constructor
  · rintro ⟨s', hserve⟩
    rcases serveWS_eq hserve with ⟨-, hreply, -⟩ | ⟨hc, hs, hreply⟩
    · cases hreply
    · split_ifs at hreply with hbad hup
      obtain ⟨rfl, rfl⟩ := WsReply.client.inj hreply
      exact ⟨⟨rfl, rfl⟩, (Option.ite_none_right_eq_some.mp hs).1, hc, hup, by simpa using hbad⟩
  · rintro ⟨⟨rfl, rfl⟩, hnow, hc, hup, hok⟩
    obtain ⟨reply, s', hserve⟩ := serveWS_of_complete retentionPeriod hc hnow
    rcases serveWS_eq hserve with ⟨hno, -, -⟩ | ⟨-, -, hreply⟩
    · exact absurd hc hno
    · obtain rfl : reply = .client r.uuidStr r.colorStr := by simpa [hok, hup] using hreply
      exact ⟨s', hserve⟩

/-- **Admission.**  After every execution of logins, requests for connections and ticks of the
retention loop, a request makes a client if and only if it names a password, a UUID and a colour,
can be upgraded, and the password was issued to a login, has not been presented in a complete
request, and had not expired at the last tick.  A complete request costs the password; one that is
not costs nothing. -/
theorem admission_of_exec (h : (entrance retentionPeriod start).Exec l s) (r : WsRequest)
    (now : ℕ) :
    Admission retentionPeriod l s r now where
  admits := client_iff (verifyOTP_iff h r.otp)
  spends := by
    intro reply s' hserve hc
    rcases serveWS_eq hserve with ⟨hno, -, -⟩ | ⟨-, hs, -⟩
    · exact absurd hc hno
    · obtain ⟨-, hs⟩ := Option.ite_none_right_eq_some.mp hs
      rw [← Bool.not_eq_true, RetentionMap.verifyOTP_fst, ← Option.some.inj hs]
      rintro ⟨o, ho, hkey⟩
      exact (RetentionMap.mem_verifyOTP.mp ho).2 hkey
  spares := by
    intro reply s' key hserve hother
    rcases serveWS_eq hserve with ⟨-, -, rfl⟩ | ⟨hc, hs, -⟩
    · rfl
    · obtain ⟨-, hs⟩ := Option.ite_none_right_eq_some.mp hs
      have hne : key ≠ r.otp := hother.resolve_left fun hno => hno hc
      rw [Bool.eq_iff_iff, RetentionMap.verifyOTP_fst, RetentionMap.verifyOTP_fst,
        ← Option.some.inj hs]
      constructor
      · rintro ⟨o, ho, hkey⟩
        exact ⟨o, (RetentionMap.mem_verifyOTP.mp ho).1, hkey⟩
      · rintro ⟨o, ho, hkey⟩
        exact ⟨o, RetentionMap.mem_verifyOTP.mpr ⟨ho, hkey ▸ hne⟩, hkey⟩

end

/-! ### A password that is lost -/

/-- A player logs in, and the ticker fires once. -/
def loggedInOnce : List EntranceAct :=
  [.login (some ("hill".toList, "1995".toList)) ['k'] 0, .tick [⟨['k'], 0⟩] 400]

lemma loggedInOnce_runs :
    ((entrance retentionPeriod 0).run (entrance retentionPeriod 0).init loggedInOnce).isSome := by
  decide

def issuedOnce : List (OtpClock × EntranceAct) × OtpClock :=
  ((entrance retentionPeriod 0).run (entrance retentionPeriod 0).init loggedInOnce).get
    loggedInOnce_runs

/-- A request for a connection from a page of another origin. -/
def elsewhere : WsRequest :=
  ⟨"/ws?otp=k&uuid=u&color=c".toList, "https://elsewhere".toList, true⟩

theorem admission_elsewhere : ∃ s', serveWS retentionPeriod issuedOnce.2 elsewhere 500
    = some (.notUpgraded, s') ∧ (s'.otps.verifyOTP ['k']).1 = false := by
  have hadmission := admission_of_exec (exec_get_run loggedInOnce_runs) elsewhere 500
  have hcomplete : elsewhere.Complete := by decide
  obtain ⟨s', hserve⟩ : ∃ s', serveWS retentionPeriod issuedOnce.2 elsewhere 500
      = some (.notUpgraded, s') := ⟨_, rfl⟩
  exact ⟨s', hserve, hadmission.spends _ s' hserve hcomplete⟩

end MultiplayerCars.GoServer
