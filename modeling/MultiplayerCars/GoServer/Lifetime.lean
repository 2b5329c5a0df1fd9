import MultiplayerCars.GoServer.Otp

/-!
# The lifetime of a password

The same map as the requests see it when no two of them overlap: `NewOTP`, `VerifyOTP` and the
ticks of `Retention`, one after the other, each at one value of a clock that never goes back.
`VerifyOTP` looks at the presence of its key only, and the key stays present until a tick finds it
expired.  So a password lives until the first tick after the end of its period: it is accepted once
up to that end, rejected one interval of the ticker later, and in between the ticker decides.  When
the context is done no tick comes any more, and what is there stays.
-/

namespace MultiplayerCars.GoServer

open Lib Lib.Json Lib.Machine

namespace RetentionMap

def newOTP (rm : RetentionMap) (key : Text) (now : ℕ) : RetentionMap := rm.insert ⟨key, now⟩

/-- `VerifyOTP`: the result, and the map without the key. -/
def verifyOTP (rm : RetentionMap) (otp : Text) : Bool × RetentionMap :=
  match rm.lookup otp with
  | none => (false, rm)
  | some _ => (true, rm.delete otp)

/-- The range loop of `Retention`, which produces the entries in some `order`. -/
def sweep (rm : RetentionMap) (order : List OTP) (retentionPeriod now : ℕ) : RetentionMap :=
  order.foldl (fun rm o => if o.expired retentionPeriod now then rm.delete o.key else rm) rm

/-- A Go map has one entry for a key. -/
def Keyed (rm : RetentionMap) : Prop := (rm.map OTP.key).Nodup

end RetentionMap

/-! ### Calls at clock values -/

/-- The map, the keys that `NewOTP` has returned, the clock, and of the retention loop whether its
context is live and when its ticker last fired. -/
structure OtpClock where
  otps : RetentionMap
  issued : List Text
  now : ℕ
  live : Bool
  lastTick : ℕ

/-- A call, or a tick with the order in which it ranges over the map, at a value of the clock. -/
inductive OtpOp
  | newOTP (key : Text) (now : ℕ)
  | verifyOTP (otp : Text) (now : ℕ)
  | tick (order : List OTP) (now : ℕ)
  | done (now : ℕ)
deriving DecidableEq

def OtpOp.now : OtpOp → ℕ
  | newOTP _ now | verifyOTP _ now | tick _ now | done now => now

def OtpClock.op (retentionPeriod : ℕ) (s : OtpClock) : OtpOp → Option OtpClock
  | .newOTP key now =>
    -- `uuid.NewString` never repeats a key
    if s.issued.contains key then none
    else some { s with otps := s.otps.newOTP key now, issued := key :: s.issued, now := now }
  | .verifyOTP otp now => some { s with otps := (s.otps.verifyOTP otp).2, now := now }
  | .tick order now =>
    if s.live ∧ order.Perm s.otps then
      some { s with otps := s.otps.sweep order retentionPeriod now, now := now, lastTick := now }
    else none
  | .done now => if s.live then some { s with live := false, now := now } else none

/-- The clock does not go back. -/
def OtpClock.step (retentionPeriod : ℕ) (s : OtpClock) (a : OtpOp) : Option OtpClock :=
  if s.now ≤ a.now then s.op retentionPeriod a else none

/-- `NewRetentionMap`, called when the clock shows `start`. -/
def otpClock (retentionPeriod start : ℕ) : Machine OtpClock OtpOp where
  init := ⟨[], [], start, true, start⟩
  step := OtpClock.step retentionPeriod

/-- While the context is live, the last tick is never more than `interval` ago. -/
def Prompt (interval : ℕ) (s : OtpClock) (a : OtpOp) : Prop :=
  s.live → a.now ≤ s.lastTick + interval

/-- The interval of the ticker, in milliseconds. -/
def tickInterval : ℕ := 400

/-- `NewOTP` has returned this key at this time. -/
def IssuedAt (l : List (OtpClock × OtpOp)) (key : Text) (created : ℕ) : Prop :=
  ∃ x ∈ l, x.2 = .newOTP key created

/-- `VerifyOTP` has returned true for this key. -/
def Accepted (l : List (OtpClock × OtpOp)) (otp : Text) : Prop :=
  ∃ x ∈ l, ∃ now, x.2 = .verifyOTP otp now ∧ (x.1.otps.verifyOTP otp).1 = true

/-- The ticker has fired at this time. -/
def TickedAt (l : List (OtpClock × OtpOp)) (now : ℕ) : Prop :=
  ∃ x ∈ l, ∃ order, x.2 = .tick order now

/-! ### The map -/

namespace RetentionMap

lemma mem_delete {rm : RetentionMap} {key : Text} {o : OTP} :
    o ∈ rm.delete key ↔ o ∈ rm ∧ o.key ≠ key := by
  simp [delete]

lemma mem_newOTP {rm : RetentionMap} {key : Text} {now : ℕ} {o : OTP} :
    o ∈ rm.newOTP key now ↔ o = ⟨key, now⟩ ∨ (o ∈ rm ∧ o.key ≠ key) := by
  rw [newOTP, insert, List.mem_cons, mem_delete]

lemma isSome_lookup {rm : RetentionMap} {otp : Text} :
    (rm.lookup otp).isSome ↔ ∃ o ∈ rm, o.key = otp := by
  simp [lookup, List.find?_isSome]

/-- `VerifyOTP` looks at the presence of the key, and at nothing else. -/
lemma verifyOTP_fst {rm : RetentionMap} {otp : Text} :
    (rm.verifyOTP otp).1 = true ↔ ∃ o ∈ rm, o.key = otp := by
  rw [← isSome_lookup, verifyOTP]
  cases rm.lookup otp <;> simp

lemma mem_verifyOTP {rm : RetentionMap} {otp : Text} {o : OTP} :
    o ∈ (rm.verifyOTP otp).2 ↔ o ∈ rm ∧ o.key ≠ otp := by
  rw [verifyOTP]
  cases hl : rm.lookup otp with
  | some _ => exact mem_delete
  | none =>
    refine ⟨fun ho => ⟨ho, fun hk => ?_⟩, And.left⟩
    have hsome := isSome_lookup.mpr ⟨o, ho, hk⟩
    rw [hl] at hsome
    cases hsome

lemma mem_sweep {order : List OTP} {period now : ℕ} {o : OTP} (rm : RetentionMap) :
    o ∈ rm.sweep order period now ↔
      o ∈ rm ∧ ∀ o' ∈ order, o'.expired period now → o.key ≠ o'.key := by
  induction order generalizing rm with
  | nil => simp [sweep]
  | cons p order ih =>
    have hcons : rm.sweep (p :: order) period now
        = (if p.expired period now then rm.delete p.key else rm).sweep order period now := rfl
    rw [hcons, ih]
    by_cases hp : p.expired period now
    · rw [if_pos hp, mem_delete]
      simp [hp, and_assoc]
    · rw [if_neg hp]
      simp [hp]

/-- **A tick**, in whatever order it ranges over the map, removes the expired keys and no other. -/
theorem mem_sweep_iff {rm : RetentionMap} (hk : rm.Keyed) {order : List OTP}
    (horder : order.Perm rm) {period now : ℕ} {o : OTP} :
    o ∈ rm.sweep order period now ↔ o ∈ rm ∧ ¬ o.expired period now := by
  rw [mem_sweep]
  refine and_congr_right fun ho => ⟨fun h hexp => h o (horder.mem_iff.mpr ho) hexp rfl, ?_⟩
  intro hexp o' ho' hexp' he
  obtain rfl : o = o' := List.inj_on_of_nodup_map hk ho (horder.mem_iff.mp ho') he
  exact hexp hexp'

lemma Keyed.sublist {rm rm' : RetentionMap} (h : rm.Keyed) (hsub : rm'.Sublist rm) : rm'.Keyed :=
  (hsub.map OTP.key).nodup h

lemma Keyed.delete {rm : RetentionMap} (h : rm.Keyed) (key : Text) : (rm.delete key).Keyed :=
  h.sublist List.filter_sublist

lemma Keyed.newOTP {rm : RetentionMap} (h : rm.Keyed) (key : Text) (now : ℕ) :
    (rm.newOTP key now).Keyed := by
  refine List.nodup_cons.mpr ⟨fun hmem => ?_, h.delete key⟩
  obtain ⟨o, ho, hkey⟩ := List.mem_map.mp hmem
  exact (mem_delete.mp ho).2 hkey

lemma Keyed.verifyOTP {rm : RetentionMap} (h : rm.Keyed) (otp : Text) :
    (rm.verifyOTP otp).2.Keyed := by
  rw [RetentionMap.verifyOTP]
  cases rm.lookup otp with
  | none => exact h
  | some _ => exact h.delete otp

lemma Keyed.sweep {rm : RetentionMap} (h : rm.Keyed) (order : List OTP) (period now : ℕ) :
    (rm.sweep order period now).Keyed := by
  induction order generalizing rm with
  | nil => exact h
  | cons p order ih =>
    have hnext : RetentionMap.Keyed (if p.expired period now then rm.delete p.key else rm) := by
      split_ifs
      · exact h.delete p.key
      · exact h
    exact ih hnext

end RetentionMap

/-- A request whose look-up and deletion nothing comes between has called `VerifyOTP`: it goes on
to the upgrade if the result is true, and is rejected otherwise. -/
theorem verifyOTP_of_run {s : OtpState} {i : CallId} {otp : Text} (hi : s.call i = .lookup otp) :
    (otpServer.run s (if (s.otps.verifyOTP otp).1 then [.lookup i, .delete i] else [.lookup i])).map
      Prod.snd = some ({ s with otps := (s.otps.verifyOTP otp).2 }.goto i
        (if (s.otps.verifyOTP otp).1 then .upgrade otp else .rejected)) := by
  cases hl : s.otps.lookup otp with
  | none => simp [RetentionMap.verifyOTP, hl, Machine.run, otpServer, OtpState.step, hi]
  | some o =>
    simp [RetentionMap.verifyOTP, hl, Machine.run, otpServer, OtpState.step, hi, OtpState.goto]

/-! ### What is in the map -/

section

variable {l : List (OtpClock × OtpOp)} {s s' : OtpClock} {a : OtpOp}

lemma issuedAt_snoc {key : Text} {created : ℕ} :
    IssuedAt (l ++ [(s, a)]) key created ↔ IssuedAt l key created ∨ a = .newOTP key created := by
  simp [IssuedAt, or_and_right, exists_or]

lemma accepted_snoc {otp : Text} : Accepted (l ++ [(s, a)]) otp ↔
    Accepted l otp ∨ ∃ now, a = .verifyOTP otp now ∧ (s.otps.verifyOTP otp).1 = true := by
  simp [Accepted, or_and_right, exists_or]

lemma tickedAt_snoc {now : ℕ} :
    TickedAt (l ++ [(s, a)]) now ↔ TickedAt l now ∨ ∃ order, a = .tick order now := by
  simp [TickedAt, or_and_right, exists_or]

/-- What the history says of the state: the map has the keys that were issued, were not accepted,
and had not expired at any tick. -/
structure Recorded (retentionPeriod start : ℕ) (l : List (OtpClock × OtpOp)) (s : OtpClock) :
    Prop where
  keyed : s.otps.Keyed
  stored : ∀ o, o ∈ s.otps ↔ IssuedAt l o.key o.created ∧ ¬ Accepted l o.key ∧
    ∀ now, TickedAt l now → now ≤ o.created + retentionPeriod
  issued : ∀ key created, IssuedAt l key created → key ∈ s.issued
  unique : ∀ key created created', IssuedAt l key created → IssuedAt l key created' →
    created = created'
  past : ∀ key created, IssuedAt l key created → start ≤ created ∧ created ≤ s.now
  accepted : ∀ key, Accepted l key → key ∈ s.issued
  ticked : ∀ now, TickedAt l now → now ≤ s.now
  started : start ≤ s.now
  lastTick : s.lastTick = start ∨ TickedAt l s.lastTick

lemma Recorded.init (retentionPeriod start : ℕ) :
    Recorded retentionPeriod start [] (otpClock retentionPeriod start).init where
  keyed := List.nodup_nil
  stored := fun o => by simp [otpClock, IssuedAt]
  issued := fun _ _ h => by simp [IssuedAt] at h
  unique := fun _ _ _ h => by simp [IssuedAt] at h
  past := fun _ _ h => by simp [IssuedAt] at h
  accepted := fun _ h => by simp [Accepted] at h
  ticked := fun _ h => by simp [TickedAt] at h
  started := le_rfl
  lastTick := Or.inl rfl

variable {retentionPeriod start : ℕ}

/-- A new password is in the map until it is accepted or expires. -/
lemma Recorded.newOTP (h : Recorded retentionPeriod start l s) {key : Text} {now : ℕ}
    (hnow : s.now ≤ now) (hkey : key ∉ s.issued) :
    Recorded retentionPeriod start (l ++ [(s, .newOTP key now)])
      { s with otps := s.otps.newOTP key now, issued := key :: s.issued, now := now } where
  keyed := h.keyed.newOTP key now
  stored := by
    intro o
    rw [RetentionMap.mem_newOTP]
    simp only [issuedAt_snoc, accepted_snoc, tickedAt_snoc, reduceCtorEq, false_and, exists_false,
      or_false, OtpOp.newOTP.injEq]
    constructor
    · rintro (rfl | ⟨ho, -⟩)
      · refine ⟨Or.inr ⟨rfl, rfl⟩, fun hacc => hkey (h.accepted key hacc), fun t ht => ?_⟩
        have hle := h.ticked t ht
        show t ≤ now + retentionPeriod
        omega
      · obtain ⟨hissued, hrest⟩ := (h.stored o).mp ho
        exact ⟨Or.inl hissued, hrest⟩
    · rintro ⟨hissued | ⟨hk, hc⟩, hrest⟩
      · refine Or.inr ⟨(h.stored o).mpr ⟨hissued, hrest⟩, ?_⟩
        rintro rfl
        exact hkey (h.issued _ _ hissued)
      · left
        rw [hk, hc]
  issued := by
    intro k t hk
    rcases issuedAt_snoc.mp hk with hk | he
    · exact List.mem_cons_of_mem _ (h.issued k t hk)
    · cases he
      exact List.mem_cons_self
  unique := by
    intro k t t' hk hk'
    rcases issuedAt_snoc.mp hk with hk | he
    · rcases issuedAt_snoc.mp hk' with hk' | he'
      · exact h.unique k t t' hk hk'
      · cases he'
        exact absurd (h.issued _ _ hk) hkey
    · cases he
      rcases issuedAt_snoc.mp hk' with hk' | he'
      · exact absurd (h.issued _ _ hk') hkey
      · cases he'
        rfl
  past := by
    intro k t hk
    rcases issuedAt_snoc.mp hk with hk | he
    · exact ⟨(h.past k t hk).1, (h.past k t hk).2.trans hnow⟩
    · cases he
      exact ⟨h.started.trans hnow, le_rfl⟩
  accepted := by
    intro k hk
    simp only [accepted_snoc, reduceCtorEq, false_and, exists_false, or_false] at hk
    exact List.mem_cons_of_mem _ (h.accepted k hk)
  ticked := by
    intro t ht
    simp only [tickedAt_snoc, reduceCtorEq, exists_false, or_false] at ht
    exact (h.ticked t ht).trans hnow
  started := h.started.trans hnow
  lastTick := h.lastTick.imp_right fun ht => tickedAt_snoc.mpr (Or.inl ht)

/-- What holds of the passwords that were issued, where none is. -/
lemma Recorded.of_not_issue (h : Recorded retentionPeriod start l s)
    (ha : ∀ key created, a ≠ .newOTP key created) {otps : RetentionMap} {live : Bool}
    {lastTick : ℕ} (hnow : s.now ≤ a.now) (hkeyed : otps.Keyed)
    (hstored : ∀ o, o ∈ otps ↔ o ∈ s.otps ∧
      (∀ now, a = .verifyOTP o.key now → (s.otps.verifyOTP o.key).1 = false) ∧
      ∀ order now, a = .tick order now → now ≤ o.created + retentionPeriod)
    (hacc : ∀ key now, a = .verifyOTP key now → (s.otps.verifyOTP key).1 = true → key ∈ s.issued)
    (hlast : lastTick = s.lastTick ∨ ∃ order, a = .tick order lastTick) :
    Recorded retentionPeriod start (l ++ [(s, a)])
      { otps := otps, issued := s.issued, now := a.now, live := live, lastTick := lastTick } where
  keyed := hkeyed
  stored := by
    intro o
    rw [hstored, h.stored]
    simp only [issuedAt_snoc, accepted_snoc, tickedAt_snoc, ha, or_false]
    constructor
    · rintro ⟨⟨hissued, hna, hticks⟩, hv, ht⟩
      refine ⟨hissued, ?_, ?_⟩
      · rintro (hacc | ⟨now, he, htrue⟩)
        · exact hna hacc
        · rw [hv now he] at htrue
          cases htrue
      · rintro now (htick | ⟨order, he⟩)
        · exact hticks now htick
        · exact ht order now he
    · rintro ⟨hissued, hna, hticks⟩
      refine ⟨⟨hissued, fun hacc => hna (Or.inl hacc), fun now ht => hticks now (Or.inl ht)⟩, ?_,
        fun order now he => hticks now (Or.inr ⟨order, he⟩)⟩
      intro now he
      rw [← Bool.not_eq_true]
      exact fun htrue => hna (Or.inr ⟨now, he, htrue⟩)
  issued := by
    intro k t hk
    simp only [issuedAt_snoc, ha, or_false] at hk
    exact h.issued k t hk
  unique := by
    intro k t t' hk hk'
    simp only [issuedAt_snoc, ha, or_false] at hk hk'
    exact h.unique k t t' hk hk'
  past := by
    intro k t hk
    simp only [issuedAt_snoc, ha, or_false] at hk
    exact ⟨(h.past k t hk).1, (h.past k t hk).2.trans hnow⟩
  accepted := by
    intro k hk
    rcases accepted_snoc.mp hk with hk | ⟨now, he, htrue⟩
    · exact h.accepted k hk
    · exact hacc k now he htrue
  ticked := by
    intro t ht
    rcases tickedAt_snoc.mp ht with ht | ⟨order, he⟩
    · exact (h.ticked t ht).trans hnow
    · subst he
      exact le_rfl
  started := h.started.trans hnow
  lastTick := by
    rcases hlast with he | ht
    · refine h.lastTick.imp (fun hs => he.trans hs) fun ht => tickedAt_snoc.mpr (Or.inl ?_)
      rw [he]
      exact ht
    · exact Or.inr (tickedAt_snoc.mpr (Or.inr ht))

theorem Recorded.step (h : Recorded retentionPeriod start l s)
    (hs : (otpClock retentionPeriod start).step s a = some s') :
    Recorded retentionPeriod start (l ++ [(s, a)]) s' := by
  obtain ⟨hnow, hop⟩ := Option.ite_none_right_eq_some.mp hs
  cases a with
  | newOTP key now =>
    obtain ⟨hkey, he⟩ := Option.ite_none_left_eq_some.mp hop
    cases he
    exact h.newOTP hnow fun hmem => hkey (List.contains_iff_mem.mpr hmem)
  | verifyOTP otp now =>
    cases hop
    refine h.of_not_issue (by simp) hnow (h.keyed.verifyOTP otp) (fun o => ?_) ?_ (Or.inl rfl)
    · rw [RetentionMap.mem_verifyOTP]
      simp only [OtpOp.verifyOTP.injEq, reduceCtorEq, false_imp_iff, implies_true, and_true]
      refine and_congr_right fun ho => ⟨fun hk t he => absurd he.1.symm hk, fun hv hk => ?_⟩
      have hfalse := hv now ⟨hk.symm, rfl⟩
      rw [RetentionMap.verifyOTP_fst.mpr ⟨o, ho, rfl⟩] at hfalse
      cases hfalse
    · rintro key t he htrue
      obtain ⟨o, ho, rfl⟩ := RetentionMap.verifyOTP_fst.mp htrue
      exact h.issued _ _ ((h.stored o).mp ho).1
  | tick order now =>
    obtain ⟨⟨-, horder⟩, he⟩ := Option.ite_none_right_eq_some.mp hop
    cases he
    refine h.of_not_issue (by simp) hnow (h.keyed.sweep order _ now) (fun o => ?_) (by simp)
      (Or.inr ⟨order, rfl⟩)
    rw [RetentionMap.mem_sweep_iff h.keyed horder]
    simp [OTP.expired]
  | done now =>
    obtain ⟨-, he⟩ := Option.ite_none_right_eq_some.mp hop
    cases he
    exact h.of_not_issue (by simp) hnow h.keyed (by simp) (by simp) (Or.inl rfl)

lemma recorded_of_exec (h : (otpClock retentionPeriod start).Exec l s) :
    Recorded retentionPeriod start l s := by
  induction h with
  | nil => exact Recorded.init retentionPeriod start
  | snoc _ hs ih => exact ih.step hs

end

/-! ### Acceptance -/

/-- What `VerifyOTP` returns after a history, and what a tick leaves. -/
structure Lifetime (retentionPeriod interval : ℕ) (l : List (OtpClock × OtpOp)) (s : OtpClock)
    (a : OtpOp) : Prop where
  /-- A key is accepted that was issued, was not accepted before, and had not expired at any
  tick. -/
  accepts : ∀ otp now, a = .verifyOTP otp now → ((s.otps.verifyOTP otp).1 = true ↔
    ∃ created ≤ now, IssuedAt l otp created ∧ ¬ Accepted l otp ∧
      ∀ t, TickedAt l t → t ≤ created + retentionPeriod)
  /-- Up to the end of its period that is every key that was issued and was not accepted. -/
  within : ∀ otp now created, a = .verifyOTP otp now → IssuedAt l otp created → ¬ Accepted l otp →
    now ≤ created + retentionPeriod → (s.otps.verifyOTP otp).1 = true
  /-- One interval of the ticker later it is none, if the context is live. -/
  beyond : ∀ otp now created, a = .verifyOTP otp now → IssuedAt l otp created → s.live →
    created + retentionPeriod + interval < now → (s.otps.verifyOTP otp).1 = false
  /-- A tick removes the expired keys and no other. -/
  sweeps : ∀ order now, a = .tick order now → ∀ o, o ∈ s.otps.sweep order retentionPeriod now ↔
    o ∈ s.otps ∧ now ≤ o.created + retentionPeriod

/-- **The lifetime of a password.**  In every run of calls and prompt ticks, a password is accepted
if and only if it was issued, has not been accepted, and had not expired at the last tick: always
up to the end of its period, and, while the context is live, never more than one interval of the
ticker after it. -/
theorem otp_lifetime {retentionPeriod interval start : ℕ} {l : List (OtpClock × OtpOp)}
    {s : OtpClock} (h : (otpClock retentionPeriod start).Exec l s)
    (hprompt : Meets (Prompt interval) l) : Along (Lifetime retentionPeriod interval) l := by
  refine h.along_of_meets (fun l s a s' hl hprompt hs => ?_) hprompt
  have hr := recorded_of_exec hl
  obtain ⟨hnow, hop⟩ := Option.ite_none_right_eq_some.mp hs
  have haccepts : ∀ otp, (s.otps.verifyOTP otp).1 = true ↔ ∃ created, IssuedAt l otp created ∧
      ¬ Accepted l otp ∧ ∀ t, TickedAt l t → t ≤ created + retentionPeriod := by
    intro otp
    rw [RetentionMap.verifyOTP_fst]
    constructor
    · rintro ⟨o, ho, rfl⟩
      exact ⟨o.created, (hr.stored o).mp ho⟩
    · rintro ⟨created, hstored⟩
      exact ⟨⟨otp, created⟩, (hr.stored ⟨otp, created⟩).mpr hstored, rfl⟩
  refine ⟨fun otp now ha => ?_, fun otp now created ha hissued hacc hle => ?_,
    fun otp now created ha hissued hlive hlt => ?_, fun order now ha o => ?_⟩
  · subst ha
    rw [haccepts]
    constructor
    · rintro ⟨created, hissued, hrest⟩
      exact ⟨created, (hr.past otp created hissued).2.trans hnow, hissued, hrest⟩
    · rintro ⟨created, -, hrest⟩
      exact ⟨created, hrest⟩
  · subst ha
    refine (haccepts otp).mpr ⟨created, hissued, hacc, fun t ht => ?_⟩
    exact ((hr.ticked t ht).trans hnow).trans hle
  · subst ha
    rw [← Bool.not_eq_true, haccepts]
    rintro ⟨created', hissued', -, hticks⟩
    obtain rfl := hr.unique otp created created' hissued hissued'
    have hlast : now ≤ s.lastTick + interval := hprompt hlive
    rcases hr.lastTick with he | ht
    · have hstart := (hr.past otp created hissued).1
      omega
    · have hle := hticks _ ht
      omega
  · subst ha
    obtain ⟨⟨-, horder⟩, -⟩ := Option.ite_none_right_eq_some.mp hop
    rw [RetentionMap.mem_sweep_iff hr.keyed horder]
    simp [OTP.expired]

/-! ### A password between the end of its period and the next tick -/

/-- A password is issued at once, the ticker fires every 400 ms, and the password is presented one
millisecond after its five seconds, 200 ms after the last tick. -/
def lingering : List OtpOp :=
  .newOTP ['k'] 0 ::
    (List.range 12).map (fun i => .tick [⟨['k'], 0⟩] (tickInterval * (i + 1))) ++
      [.verifyOTP ['k'] 5001]

lemma lingering_runs :
    ((otpClock retentionPeriod 0).run (otpClock retentionPeriod 0).init lingering).isSome := by
  decide

def lingered : List (OtpClock × OtpOp) × OtpClock :=
  ((otpClock retentionPeriod 0).run (otpClock retentionPeriod 0).init lingering).get
    lingering_runs

lemma exec_lingered : (otpClock retentionPeriod 0).Exec lingered.1 lingered.2 :=
  exec_get_run lingering_runs

lemma prompt_lingered : Meets (Prompt tickInterval) lingered.1 := by
  unfold Meets Prompt
  decide

/-- A password can be accepted after its period. -/
theorem accepted_late : ¬ ∀ l s, (otpClock retentionPeriod 0).Exec l s →
    Meets (Prompt tickInterval) l → Along (fun l s a => ∀ otp now, a = .verifyOTP otp now →
      ((s.otps.verifyOTP otp).1 = true ↔ ∃ created ≤ now, IssuedAt l otp created ∧
        ¬ Accepted l otp ∧ now ≤ created + retentionPeriod)) l := by
  intro h
  have hlast := (h _ _ exec_lingered prompt_lingered).getLast (by decide) ['k'] 5001 (by decide)
  obtain ⟨created, -, ⟨x, hx, he⟩, -, hle⟩ := hlast.mp (by decide)
  obtain rfl : created = 0 := (recorded_of_exec exec_lingered).unique ['k'] created 0
    ⟨x, List.mem_of_mem_dropLast hx, he⟩ (by unfold IssuedAt; decide)
  exact absurd hle (by decide)

theorem otp_lifetime_lingered : Along (Lifetime retentionPeriod tickInterval) lingered.1 :=
  otp_lifetime exec_lingered prompt_lingered

end MultiplayerCars.GoServer
