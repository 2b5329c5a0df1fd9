import MultiplayerCars.GoServer.Goroutine

/-!
# Pings, pongs and the read deadline

`readMessages` sets a deadline for its reads, and the handler for pongs sets it anew; nothing else
does, no frame either.  `writeMessages` sends a ping whenever its ticker has fired, if it is at its
`select`.  So the server hangs up on a client that does not answer in time, and the question is how
late everybody may be before it hangs up on one that does: the writer, when it starts and when it
takes the tick, and the client, until its pong is read.  Together they have the difference of the
two constants, and not more.
-/

namespace MultiplayerCars.GoServer

open Lib Lib.Machine

/-- `time.Second`, in nanoseconds. -/
def second : ℕ := 1000000000

def pongWait : ℕ := 10 * second

def pingInterval : ℕ := (pongWait * 9) / 10

/-- What is timed for one client. -/
structure Clock where
  /-- When the reader set its first deadline. -/
  started : Option ℕ
  /-- What `SetReadDeadline` was called with. -/
  deadline : ℕ
  /-- When the ticker of the writer fires next. -/
  next : Option ℕ
  /-- The tick in the channel of the ticker, which has room for one. -/
  tick : Option ℕ
  /-- When the pings were sent that have not been answered, oldest first. -/
  pings : List ℕ
deriving DecidableEq

/-- The server, and the time. -/
structure Timed where
  server : Server
  now : ℕ
  clock : ClientId → Clock

inductive TimedAct
  | act (a : Act)
  | elapse (d : ℕ)
  /-- The ticker for pings fires. -/
  | fire (c : ClientId)
  /-- `ReadMessage` meets a pong, and calls `pongHandler`. -/
  | pong (c : ClientId)
  /-- `ReadMessage` fails because of the deadline. -/
  | expire (c : ClientId)
deriving DecidableEq

namespace Timed

def init : Timed := ⟨Server.init, 0, fun _ => ⟨none, 0, none, none, []⟩⟩

def setClock (s : Timed) (c : ClientId) (k : Clock) : Timed :=
  { s with clock := Function.update s.clock c k }

/-- What a step of the server does to the clocks. -/
def react (s : Timed) : Act → Timed
  | .spawnRead c =>
    s.setClock c { s.clock c with started := some s.now, deadline := s.now + pongWait }
  | .spawnWrite c => s.setClock c { s.clock c with next := some (s.now + pingInterval) }
  | .ping c => s.setClock c { s.clock c with tick := none, pings := (s.clock c).pings ++ [s.now] }
  | _ => s

/-- A ping is sent when there is a tick. -/
def lets (s : Timed) : Act → Bool
  | .ping c => (s.clock c).tick.isSome
  | _ => true

def step (s : Timed) : TimedAct → Option Timed
  | .act a =>
    if s.lets a then (s.server.step a).map fun server => { s.react a with server := server }
    else none
  | .elapse d => some { s with now := s.now + d }
  | .fire c =>
    match (s.clock c).next with
    | some t =>
      if t ≤ s.now then
        -- a tick that finds the channel full is dropped
        some (s.setClock c { s.clock c with
          next := some (t + pingInterval), tick := (s.clock c).tick.or (some t) })
      else none
    | none => none
  | .pong c =>
    match (s.clock c).pings with
    | _ :: rest =>
      -- a pong may still be in the buffer of the connection when its deadline has passed
      if s.server.pc (.read c) = .reading then
        some (s.setClock c { s.clock c with deadline := s.now + pongWait, pings := rest })
      else none
    | [] => none
  | .expire c =>
    if (s.clock c).deadline ≤ s.now then
      (s.server.step (.readStop c)).map fun server => { s with server := server }
    else none

end Timed

def timed : Machine Timed TimedAct where
  init := Timed.init
  step := Timed.step

/-- What one step does. -/
inductive TimedStep (s : Timed) : TimedAct → Timed → Prop
  | act {a : Act} {server : Server} (ha : s.lets a) (hs : Step s.server a server) :
      TimedStep s (.act a) { s.react a with server := server }
  | elapse (d : ℕ) : TimedStep s (.elapse d) { s with now := s.now + d }
  | fire {c : ClientId} {t : ℕ} (hc : (s.clock c).next = some t) (ht : t ≤ s.now) :
      TimedStep s (.fire c) (s.setClock c { s.clock c with
        next := some (t + pingInterval), tick := (s.clock c).tick.or (some t) })
  | pong {c : ClientId} {t : ℕ} {rest : List ℕ} (hp : (s.clock c).pings = t :: rest)
      (hr : s.server.pc (.read c) = .reading) : TimedStep s (.pong c)
        (s.setClock c { s.clock c with deadline := s.now + pongWait, pings := rest })
  | expire {c : ClientId} {server : Server} (hd : (s.clock c).deadline ≤ s.now)
      (hs : Step s.server (.readStop c) server) :
      TimedStep s (.expire c) { s with server := server }

lemma timedStep_of_step {s s' : Timed} {a : TimedAct} (h : timed.step s a = some s') :
    TimedStep s a s' := by
  cases a with
  | act a =>
    simp only [timed, Timed.step, Option.ite_none_right_eq_some, Option.map_eq_some_iff] at h
    obtain ⟨ha, server, hs, rfl⟩ := h
    exact .act ha (step_cases hs)
  | elapse d =>
    obtain rfl := Option.some.inj h
    exact .elapse d
  | fire c =>
    simp only [timed, Timed.step] at h
    split at h
    · rename_i t hc
      obtain ⟨ht, h⟩ := Option.ite_none_right_eq_some.mp h
      obtain rfl := Option.some.inj h
      exact .fire hc ht
    · cases h
  | pong c =>
    simp only [timed, Timed.step] at h
    split at h
    · rename_i t rest hp
      obtain ⟨hr, h⟩ := Option.ite_none_right_eq_some.mp h
      obtain rfl := Option.some.inj h
      exact .pong hp hr
    · cases h
  | expire c =>
    simp only [timed, Timed.step, Option.ite_none_right_eq_some, Option.map_eq_some_iff] at h
    obtain ⟨hd, server, hs, rfl⟩ := h
    exact .expire hd (step_cases hs)

/-- Nobody is late by more than this: the writer of the client begins within `o` of its reader, its
ticker fires on time, a tick is taken within `w`, and a pong is read within `r` of its ping. -/
def OnTime (c : ClientId) (o w r : ℕ) (s : Timed) : TimedAct → Prop
  | .elapse d =>
    (∀ t, (s.clock c).started = some t → (s.clock c).next = none → s.now + d ≤ t + o) ∧
    (∀ t, (s.clock c).next = some t → s.now + d ≤ t) ∧
    (∀ t, (s.clock c).tick = some t → s.now + d ≤ t + w) ∧
    ∀ t ∈ (s.clock c).pings, s.now + d ≤ t + r
  | _ => True

/-- How things stand between the server and a client that is on time: not begun, reading but not
writing, at rest, about to send a ping, and waiting for the pong. -/
inductive Kept (s : Timed) (c : ClientId) (o w r : ℕ) : Prop
  | fresh (hread : s.server.pc (.read c) = .idle) (hclock : s.clock c = ⟨none, 0, none, none, []⟩)
  | begun {t : ℕ} (hread : s.server.pc (.read c) ≠ .idle) (hwrite : s.server.pc (.write c) = .idle)
      (hclock : s.clock c = ⟨some t, t + pongWait, none, none, []⟩) (hnow : s.now ≤ t + o)
  | resting {b t d : ℕ} (hwrite : s.server.pc (.write c) ≠ .idle)
      (hclock : s.clock c = ⟨some b, d, some t, none, []⟩) (hnow : s.now ≤ t)
      (hd : t + w + r < d)
  | ticked {b t d : ℕ} (hwrite : s.server.pc (.write c) ≠ .idle)
      (hclock : s.clock c = ⟨some b, d, some (t + pingInterval), some t, []⟩) (ht : t ≤ s.now)
      (hnow : s.now ≤ t + w) (hd : t + w + r < d)
  | pinged {b t d p : ℕ} (hwrite : s.server.pc (.write c) ≠ .idle)
      (hclock : s.clock c = ⟨some b, d, some (t + pingInterval), none, [p]⟩) (ht : t ≤ p)
      (hp : p ≤ t + w) (hnow : s.now ≤ p + r) (hle : p ≤ s.now) (hd : t + w + r < d)

section

variable {s s' : Timed} {l : List (Timed × TimedAct)} {a : TimedAct} {c : ClientId} {o w r : ℕ}

/-- Without the time it is the server as before. -/
lemma TimedStep.server (h : TimedStep s a s') :
    s'.server = s.server ∨ ∃ b, Step s.server b s'.server := by
  cases h with
  | act ha hs => exact Or.inr ⟨_, hs⟩
  | expire hd hs => exact Or.inr ⟨_, hs⟩
  | _ => exact Or.inl rfl

lemma inv_of_timed (h : timed.Exec l s) : Inv s.server := by
  induction h with
  | nil => exact Inv.init
  | snoc hl hs ih =>
    rcases (timedStep_of_step hs).server with he | ⟨b, hb⟩
    · rw [he]
      exact ih
    · exact ih.step hb

/-- The loops of a client are started once, and by steps of their own. -/
lemma idle_iff_of_goes {s : Server} {b : Act} {t : Thread} {p q : Pc} (hg : Goes s b t p q)
    (hread : b ≠ .spawnRead c) (hwrite : b ≠ .spawnWrite c) (ht : t = .read c ∨ t = .write c) :
    q = .idle ↔ p = .idle := by
  cases hg with
  | startRead =>
    rcases ht with ht | ht
    · exact absurd (by rw [Thread.read.inj ht]) hread
    · cases ht
  | startWrite =>
    rcases ht with ht | ht
    · cases ht
    · exact absurd (by rw [Thread.write.inj ht]) hwrite
  | @endRange _ l =>
    rw [RangeLoop.next]
    split <;> simp
  | @readFrame c frame now =>
    rw [Server.handled]
    split
    · simp
    · split <;> simp [Server.loop]
  | check => split <;> simp
  | pingDone => split <;> simp
  | tickDone => split <;> simp
  | connect => rcases ht with ht | ht <;> cases ht
  | _ => simp [Server.loop]

lemma idle_iff {s s' : Server} {b : Act} (hs : Step s b s') (hst : Started s)
    (hread : b ≠ .spawnRead c) (hwrite : b ≠ .spawnWrite c) {t : Thread}
    (ht : t = .read c ∨ t = .write c) : s'.pc t = .idle ↔ s.pc t = .idle := by
  rcases hs.goes hst t with he | hg
  · rw [he]
  · exact idle_iff_of_goes hg hread hwrite ht

/-! ### A client that is on time -/

lemma pongWait_eq : pongWait = 10000000000 := rfl

lemma pingInterval_eq : pingInterval = 9000000000 := rfl

/-- Nothing has happened to the client. -/
lemma Kept.congr (h : Kept s c o w r) (hclock : s'.clock c = s.clock c) (hnow : s'.now = s.now)
    (hidle : ∀ t, t = .read c ∨ t = .write c → (s'.server.pc t = .idle ↔ s.server.pc t = .idle)) :
    Kept s' c o w r := by
  have hread := hidle (.read c) (Or.inl rfl)
  have hwrite := hidle (.write c) (Or.inr rfl)
  cases h with
  | fresh h₁ h₂ => exact .fresh (hread.mpr h₁) (hclock.trans h₂)
  | begun h₁ h₂ h₃ h₄ =>
    exact .begun (mt hread.mp h₁) (hwrite.mpr h₂) (hclock.trans h₃) (hnow.le.trans h₄)
  | resting h₁ h₂ h₃ h₄ => exact .resting (mt hwrite.mp h₁) (hclock.trans h₂) (hnow.le.trans h₃) h₄
  | ticked h₁ h₂ h₃ h₄ h₅ =>
    exact .ticked (mt hwrite.mp h₁) (hclock.trans h₂) (h₃.trans hnow.ge) (hnow.le.trans h₄) h₅
  | pinged h₁ h₂ h₃ h₄ h₅ h₆ h₇ =>
    exact .pinged (mt hwrite.mp h₁) (hclock.trans h₂) h₃ h₄ (hnow.le.trans h₅) (h₆.trans hnow.ge) h₇

/-- A step of the server that is none of the three that touch the clock of the client. -/
lemma react_clock {b : Act} (hread : b ≠ .spawnRead c) (hwrite : b ≠ .spawnWrite c)
    (hping : b ≠ .ping c) : (s.react b).clock c = s.clock c := by
  have hne : ∀ {c' : ClientId} {k : Clock}, c' ≠ c → (s.setClock c' k).clock c = s.clock c :=
    fun hc => Function.update_of_ne (Ne.symm hc) _ _
  cases b with
  | spawnRead c' => exact hne fun hc => hread (by rw [hc])
  | spawnWrite c' => exact hne fun hc => hwrite (by rw [hc])
  | ping c' => exact hne fun hc => hping (by rw [hc])
  | _ => rfl

lemma react_now (b : Act) : (s.react b).now = s.now := by
  cases b <;> rfl

/-- A reader that has begun reads, whatever its writer does. -/
lemma read_ne_idle {s : Server} (hst : Started s) (hwrite : s.pc (.write c) ≠ .idle) :
    s.pc (.read c) ≠ .idle := by
  intro hread
  have hserve : s.pc (.serve c) = .done := by
    by_contra hserve
    exact hwrite ((hst c).2.mpr hserve)
  refine (hst c).1.mp hread ?_
  rw [hserve]
  trivial

lemma Kept.act (h : Kept s c o w r) (hi : Inv s.server)
    (hbound : o + w + r < pongWait - pingInterval) {b : Act} (ha : s.lets b) {server : Server}
    (hs : Step s.server b server) :
    Kept { s.react b with server := server } c o w r := by
  have hwait := pongWait_eq
  have hinterval := pingInterval_eq
  by_cases hread : b = .spawnRead c
  · subst hread
    have hst := (hi.step hs).started
    cases hs with
    | spawnRead hserve =>
      have hidle : s.server.pc (.read c) = .idle :=
        (hi.started c).1.mpr (by simp [hserve, Pc.ReadStarted])
      have hclock : s.clock c = ⟨none, 0, none, none, []⟩ := by
        cases h with
        | fresh _ hclock => exact hclock
        | begun hread => exact absurd hidle hread
        | resting hwrite | ticked hwrite | pinged hwrite =>
          exact absurd hidle (read_ne_idle hi.started hwrite)
      refine .begun (t := s.now) (by simp) ((hst c).2.mpr ?_) ?_ (Nat.le_add_right _ _)
      · rw [Server.goto_pc_of_ne (by simp), Server.goto_pc_self]
        simp
      · rw [Timed.react, Timed.setClock]
        dsimp only
        rw [Function.update_self, hclock]
  by_cases hwrite : b = .spawnWrite c
  · subst hwrite
    cases hs with
    | spawnWrite hserve =>
      have hidle : s.server.pc (.write c) = .idle := (hi.started c).2.mpr (by simp [hserve])
      cases h with
      | fresh hread =>
        exact absurd (by rw [hserve]; trivial) ((hi.started c).1.mp hread)
      | @begun t hread' _ hclock hnow =>
        refine .resting (b := t) (t := s.now + pingInterval) (d := t + pongWait) (by simp) ?_
          (Nat.le_add_right _ _) (by omega)
        rw [Timed.react, Timed.setClock]
        dsimp only
        rw [Function.update_self, hclock]
      | resting hwrite | ticked hwrite | pinged hwrite => exact absurd hidle hwrite
  by_cases hping : b = .ping c
  · subst hping
    cases hs with
    | ping hselect =>
      rw [Timed.lets] at ha
      cases h with
      | fresh _ hclock | begun _ _ hclock | resting _ hclock | pinged _ hclock =>
        rw [hclock] at ha
        cases ha
      | @ticked b t d hwrite' hclock ht hnow hd =>
        refine .pinged (b := b) (t := t) (d := d) (p := s.now) (by simp) ?_ ht hnow
          (Nat.le_add_right _ _) le_rfl hd
        rw [Timed.react, Timed.setClock]
        dsimp only
        rw [Function.update_self, hclock]
        rfl
  · exact h.congr (react_clock hread hwrite hping) (react_now b)
      fun t ht => idle_iff hs hi.started hread hwrite ht

/-- **A client that is on time is kept**, and its deadline does not pass. -/
theorem Kept.step (h : Kept s c o w r) (hi : Inv s.server)
    (hbound : o + w + r < pongWait - pingInterval) (ha : OnTime c o w r s a)
    (hs : TimedStep s a s') : Kept s' c o w r ∧ a ≠ .expire c := by
  have hwait := pongWait_eq
  have hinterval := pingInterval_eq
  cases hs with
  | act hb hs => exact ⟨h.act hi hbound hb hs, by simp⟩
  | elapse d =>
    refine ⟨?_, by simp⟩
    obtain ⟨hstarted, hnext, htick, hpings⟩ := ha
    cases h with
    | fresh h₁ h₂ => exact .fresh h₁ h₂
    | @begun t h₁ h₂ h₃ h₄ =>
      exact .begun h₁ h₂ h₃ (hstarted t (by rw [h₃]) (by rw [h₃]))
    | @resting b t d h₁ h₂ h₃ h₄ => exact .resting h₁ h₂ (hnext t (by rw [h₂])) h₄
    | @ticked b t d h₁ h₂ h₃ h₄ h₅ =>
      exact .ticked h₁ h₂ (h₃.trans (Nat.le_add_right _ _)) (htick t (by rw [h₂])) h₅
    | @pinged b t d p h₁ h₂ h₃ h₄ h₅ h₆ h₇ =>
      exact .pinged h₁ h₂ h₃ h₄ (hpings p (by rw [h₂]; simp)) (h₆.trans (Nat.le_add_right _ _)) h₇
  | @fire c' t hc ht =>
    refine ⟨?_, by simp⟩
    by_cases he : c' = c
    · subst he
      cases h with
      | fresh _ h₂ | begun _ _ h₂ =>
        rw [h₂] at hc
        cases hc
      | @resting b _ d h₁ h₂ h₃ h₄ =>
        rw [h₂] at hc
        obtain rfl := Option.some.inj hc
        refine .ticked (b := b) (d := d) h₁ ?_ ht (h₃.trans (Nat.le_add_right _ _)) h₄
        rw [Timed.setClock, h₂]
        exact Function.update_self ..
      | ticked h₁ h₂ h₃ h₄ | pinged h₁ h₂ h₃ h₄ h₅ =>
        -- the ticker does not fire again before the client has been pinged and has answered
        rw [h₂] at hc
        obtain rfl := Option.some.inj hc
        omega
    · exact h.congr (Function.update_of_ne (Ne.symm he) _ _) rfl fun t _ => Iff.rfl
  | @pong c' t rest hp hr =>
    refine ⟨?_, by simp⟩
    by_cases he : c' = c
    · subst he
      cases h with
      | fresh _ h₂ | begun _ _ h₂ | resting _ h₂ | ticked _ h₂ =>
        rw [h₂] at hp
        cases hp
      | @pinged b t d p h₁ h₂ h₃ h₄ h₅ h₆ h₇ =>
        rw [h₂] at hp
        obtain ⟨-, rfl⟩ := List.cons.inj hp
        refine .resting (b := b) (t := t + pingInterval) (d := s.now + pongWait) h₁ ?_
          (by dsimp only [Timed.setClock]; omega) (by omega)
        rw [Timed.setClock, h₂]
        exact Function.update_self ..
    · exact h.congr (Function.update_of_ne (Ne.symm he) _ _) rfl fun t _ => Iff.rfl
  | @expire c' server hd hs =>
    have hne : c' ≠ c := by
      rintro rfl
      cases hs with
      | readStop hread =>
        cases h with
        | fresh h₁ h₂ =>
          rw [h₁] at hread
          cases hread
        | begun _ _ h₂ | resting _ h₂ | ticked _ h₂ | pinged _ h₂ =>
          rw [h₂] at hd
          dsimp only at hd
          omega
    refine ⟨?_, by simpa using hne⟩
    exact h.congr rfl rfl fun t ht => idle_iff hs hi.started (by simp) (by simp) ht

/-! ### A client that is later -/

/-- Some run in which everybody is on time ends in this state. -/
def Punctual (c : ClientId) (o w r : ℕ) (s : Timed) : Prop :=
  ∃ l, timed.Exec l s ∧ Meets (OnTime c o w r) l

lemma Punctual.step (h : Punctual c o w r s) (ha : OnTime c o w r s a)
    (hs : timed.step s a = some s') : Punctual c o w r s' := by
  obtain ⟨l, hexec, hmeets⟩ := h
  exact ⟨l ++ [(s, a)], hexec.snoc hs, meets_snoc.mpr ⟨hmeets, ha⟩⟩

/-- Three delays that make up the difference can let the deadline pass. -/
lemma Punctual.expires {S : Server} {K : ClientId → Clock} {t : ℕ}
    (h : Punctual c o w r ⟨S, t, K⟩) (hserve : S.pc (.serve c) = .spawnWrite)
    (hread : S.pc (.read c) = .reading)
    (hclock : K c = ⟨some t, t + pongWait, none, none, []⟩) {o' w' r' : ℕ} (ho : o' ≤ o)
    (hw : w' ≤ w) (hr : r' ≤ r) (hsum : o' + w' + r' = pongWait - pingInterval) :
    ∃ s s', Punctual c o w r s ∧ timed.step s (.expire c) = some s' := by
  have hwait := pongWait_eq
  have hinterval := pingInterval_eq
  -- the writer begins late
  have h₁ : Punctual c o w r ⟨S, t + o', K⟩ := by
    refine h.step (a := .elapse o') ?_ rfl
    simp [OnTime, hclock, ho]
  let S₂ := (S.goto (.serve c) .done).goto (.write c) .select
  let k₂ : Clock := ⟨some t, t + pongWait, some (t + o' + pingInterval), none, []⟩
  have h₂ : Punctual c o w r ⟨S₂, t + o', Function.update K c k₂⟩ := by
    refine h₁.step (a := .act (.spawnWrite c)) trivial ?_
    simp [timed, Timed.step, Timed.lets, Server.step, hserve, Timed.react, Timed.setClock, hclock,
      S₂, k₂]
  -- the ticker fires, and the tick waits
  have h₃ : Punctual c o w r ⟨S₂, t + o' + pingInterval, Function.update K c k₂⟩ := by
    refine h₂.step (a := .elapse pingInterval) ?_ rfl
    simp [OnTime, k₂]
  let k₄ : Clock := ⟨some t, t + pongWait, some (t + o' + pingInterval + pingInterval),
    some (t + o' + pingInterval), []⟩
  have h₄ : Punctual c o w r ⟨S₂, t + o' + pingInterval, Function.update K c k₄⟩ := by
    refine h₃.step (a := .fire c) trivial ?_
    simp [timed, Timed.step, Timed.setClock, k₂, k₄]
  have h₅ : Punctual c o w r ⟨S₂, t + o' + pingInterval + w', Function.update K c k₄⟩ := by
    refine h₄.step (a := .elapse w') ?_ rfl
    simp only [OnTime, Function.update_self, k₄]
    refine ⟨by simp, ?_, ?_, by simp⟩ <;>
      · rintro t' ht
        obtain rfl := Option.some.inj ht
        omega
  -- the ping is sent, and its pong is late
  let k₆ : Clock := ⟨some t, t + pongWait, some (t + o' + pingInterval + pingInterval), none,
    [t + o' + pingInterval + w']⟩
  let S₆ := S₂.goto (.write c) .writePing
  have h₆ : Punctual c o w r ⟨S₆, t + o' + pingInterval + w', Function.update K c k₆⟩ := by
    refine h₅.step (a := .act (.ping c)) trivial ?_
    simp [timed, Timed.step, Timed.lets, Server.step, Timed.react, Timed.setClock, S₂, S₆, k₄, k₆]
  have h₇ : Punctual c o w r
      ⟨S₆, t + o' + pingInterval + w' + r', Function.update K c k₆⟩ := by
    refine h₆.step (a := .elapse r') ?_ rfl
    simp only [OnTime, Function.update_self, k₆]
    refine ⟨by simp, ?_, by simp, ?_⟩
    · rintro t' ht
      obtain rfl := Option.some.inj ht
      omega
    · rintro t' ht
      obtain rfl := List.mem_singleton.mp ht
      omega
  have hreading : S₆.pc (.read c) = .reading := by
    simp [S₆, S₂, Server.goto_pc, hread]
  have hdeadline : t + pongWait ≤ t + o' + pingInterval + w' + r' := by omega
  have hstop : S₆.step (.readStop c) = some (S₆.goto (.read c) .removeLock) := if_pos hreading
  let S₈ : Timed := ⟨S₆.goto (.read c) .removeLock, t + o' + pingInterval + w' + r',
    Function.update K c k₆⟩
  refine ⟨_, S₈, h₇, ?_⟩
  simp [timed, Timed.step, k₆, hdeadline, hstop, S₈]

/-- A client joins, and its reader is started. -/
def joining : List TimedAct :=
  ([.connect 0 ['u'] ['k'], .lockAdd 0, .insert 0, .unlockAdd 0, .announce 0 [],
    .endRange (.serve 0), .spawnRead 0] : List Act).map .act

lemma joining_runs : (timed.run timed.init joining).isSome := by
  decide +kernel

@[irreducible] def joinedTimed : List (Timed × TimedAct) × Timed :=
  (timed.run timed.init joining).get joining_runs

lemma joined_check : joinedTimed.2.server.pc (.serve 0) = .spawnWrite ∧
    joinedTimed.2.server.pc (.read 0) = .reading ∧ joinedTimed.2.now = 0 ∧
      joinedTimed.2.clock 0 = ⟨some 0, pongWait, none, none, []⟩ ∧
        joinedTimed.1.map Prod.snd = joining := by
  decide +kernel

lemma punctual_joined : Punctual 0 o w r joinedTimed.2 := by
  refine ⟨joinedTimed.1, ?_, fun x hx => ?_⟩
  · unfold joinedTimed
    exact exec_get_run joining_runs
  · have hjoining : x.2 ∈ joining := by
      rw [← joined_check.2.2.2.2]
      exact List.mem_map_of_mem hx
    obtain ⟨b, -, hb⟩ := List.mem_map.mp hjoining
    rw [← hb]
    trivial

/-- **How late a client may be.**  Whatever bounds there are on the delay of the writer when it
starts, on that of a tick until it is taken, and on that of a pong until it is read: the server
never hangs up on a client within these bounds because of its deadline, in any run, exactly if they
are less than the difference of `pongWait` and `pingInterval` together. -/
theorem kept_alive_iff (o w r : ℕ) :
    (∀ c l s, timed.Exec l s → Meets (OnTime c o w r) l → ∀ x ∈ l, x.2 ≠ .expire c) ↔
      o + w + r < pongWait - pingInterval := by
  constructor
  · intro h
    by_contra hbound
    obtain ⟨hserve, hread, hnow, hclock, -⟩ := joined_check
    obtain ⟨o', w', r', ho, hw, hr, hsum⟩ : ∃ o' w' r', o' ≤ o ∧ w' ≤ w ∧ r' ≤ r ∧
        o' + w' + r' = pongWait - pingInterval := by
      generalize pongWait - pingInterval = d at hbound
      exact ⟨min o d, min w (d - min o d), d - min o d - min w (d - min o d), by omega, by omega,
        by omega, by omega⟩
    obtain ⟨s, s', ⟨l, hexec, hmeets⟩, hs⟩ :=
      Punctual.expires (S := joinedTimed.2.server) (K := joinedTimed.2.clock)
        (t := joinedTimed.2.now) (punctual_joined (o := o) (w := w) (r := r)) hserve hread
        (by rw [hclock, hnow, Nat.zero_add]) ho hw hr hsum
    exact h 0 _ _ (hexec.snoc hs) (meets_snoc.mpr ⟨hmeets, trivial⟩) (s, .expire 0) (by simp) rfl
  · intro hbound c l s h hmeets
    suffices hkept : Kept s c o w r ∧ ∀ x ∈ l, x.2 ≠ .expire c from hkept.2
    induction h with
    | nil => exact ⟨.fresh rfl rfl, by simp⟩
    | @snoc l s s' a hl hs ih =>
      obtain ⟨hmeets, ha⟩ := meets_snoc.mp hmeets
      obtain ⟨hkept, hno⟩ := ih hmeets
      obtain ⟨hkept', hne⟩ := hkept.step (inv_of_timed hl) hbound ha (timedStep_of_step hs)
      refine ⟨hkept', fun x hx => ?_⟩
      rcases List.mem_append.mp hx with hx | hx
      · exact hno x hx
      · rw [List.mem_singleton.mp hx]
        exact hne

end

end MultiplayerCars.GoServer
