import MultiplayerCars.Wire.Honest

/-!
# The server and its clients

The server and any number of running clients, connected: what a session writes is read by the
reader of its client, frame by frame, and what a writer of the server writes arrives at its
client, message by message.  A connection neither loses nor reorders anything as long as nobody
leaves.
-/

namespace MultiplayerCars.Wire

open Lib Lib.Json CPPClient
open GoServer (ClientId Act Server Pc Thread Packet Fresh Unbroken Joined)

/-! ### The machine -/

/-- Those who may join, each with a UUID of its own. -/
structure Party where
  members : Finset ClientId
  uuid : ClientId → UuidV4
  distinct : ∀ i ∈ members, ∀ j ∈ members, uuid i = uuid j → i = j

structure World where
  server : Server
  client : ClientId → Client
  /-- What the server has written to a client and the client has still to read. -/
  down : ClientId → List Text

inductive WorldAct
  /-- A step of the server. -/
  | server (a : Act)
  /-- A step of a client, other than the arrival of a message. -/
  | client (i : ClientId) (a : ClientAct)
  /-- A message of the server arrives. -/
  | deliver (i : ClientId)
deriving DecidableEq

/-- Whether the session is ready where an action calls it. -/
def ready : ClientAct → Bool
  | .mouse _ _ ready | .move ready | .text ready => ready
  | _ => false

def isOnMessage : ClientAct → Bool
  | .onMessage _ => true
  | _ => false

namespace World

/-- The server is running, and the clients have entered their main loops. -/
def start (P : Party) : World where
  server := Server.init
  client := fun i => Client.start (P.uuid i)
  down := fun _ => []

/-- What a client has written and the server has still to read. -/
def up (w : World) (i : ClientId) : List Frame :=
  (w.client i).session.written.drop (w.server.frames i)

/-- What the requests and the frames of the clients allow the server to do.  A request carries the
colour that the session has when the server takes it, though the client may have written an older
one into it. -/
def serves (P : Party) (w : World) : Act → Bool
  | .connect c uuid color =>
    decide (c ∈ P.members) && uuid == (w.client c).clientUUID
      && color == (w.client c).session.currColor.text
  | .readFrame c frame _ => (w.up c).head?.map Frame.bytes == some frame
  | _ => true

/-- A session cannot be ready before its client is connected. -/
def lets (P : Party) (w : World) (i : ClientId) (a : ClientAct) : Bool :=
  decide (i ∈ P.members) && !isOnMessage a
    && (!ready a || decide (w.server.pc (.serve i) ≠ .idle))

/-- What is on its way to the clients after a step of the server. -/
def sent (w : World) (a : Act) : ClientId → List Text :=
  match a.finishes with
  | some t => Function.update w.down t.owner (w.down t.owner ++ (w.server.pc t).writes)
  | none => w.down

def step (P : Party) (w : World) : WorldAct → Option World
  | .server a =>
    if w.serves P a then
      (w.server.step a).map fun s => { w with server := s, down := w.sent a }
    else none
  | .client i a =>
    if w.lets P i a then
      ((w.client i).step a).map fun c => { w with client := Function.update w.client i c }
    else none
  | .deliver i =>
    match w.down i with
    | msg :: rest => ((w.client i).step (.onMessage msg)).map fun c =>
      { w with client := Function.update w.client i c, down := Function.update w.down i rest }
    | [] => none

end World

/-- The server and its clients, as one machine. -/
def world (P : Party) : Machine World WorldAct where
  init := World.start P
  step := World.step P

/-! ### The steps -/

/-- What one step does: the server or one client moves. -/
inductive WorldStep (P : Party) (w : World) : WorldAct → World → Prop
  | server {a : Act} {s : Server} (ha : w.serves P a) (hs : GoServer.Step w.server a s) :
      WorldStep P w (.server a) { w with server := s, down := w.sent a }
  | client {i : ClientId} {a : ClientAct} {c : Client} (hm : ∀ msg, a ≠ .onMessage msg)
      (hs : ClientStep (w.client i) a c) :
      WorldStep P w (.client i a) { w with client := Function.update w.client i c }
  | deliver {i : ClientId} {msg : Text} {rest : List Text} {c : Client}
      (hd : w.down i = msg :: rest) (hs : ClientStep (w.client i) (.onMessage msg) c) :
      WorldStep P w (.deliver i) { w with
        client := Function.update w.client i c, down := Function.update w.down i rest }

lemma worldStep_of_step {P : Party} {w w' : World} {a : WorldAct}
    (h : (world P).step w a = some w') : WorldStep P w a w' := by
  cases a with
  | server a =>
    simp only [world, World.step, Option.ite_none_right_eq_some, Option.map_eq_some_iff] at h
    obtain ⟨ha, s, hs, rfl⟩ := h
    exact .server ha (GoServer.step_cases hs)
  | client i a =>
    simp only [world, World.step, Option.ite_none_right_eq_some, Option.map_eq_some_iff] at h
    obtain ⟨ha, c, hc, rfl⟩ := h
    refine .client ?_ (clientStep_of_step hc)
    rintro msg rfl
    simp [World.lets, isOnMessage] at ha
  | deliver i =>
    simp only [world, World.step] at h
    split at h
    · rename_i msg rest hd
      obtain ⟨c, hc, rfl⟩ := Option.map_eq_some_iff.mp h
      exact .deliver hd (clientStep_of_step hc)
    · cases h

/-! ### Runs in which nobody leaves -/

/-- The clients are honest. -/
def Honestly (w : World) : WorldAct → Prop
  | .client i a => Civil (w.client i) a
  | _ => True

/-- The clients are steady. -/
def Steadily (w : World) : WorldAct → Prop
  | .client i a => Steady (w.client i) a
  | _ => True

/-- No text passes for a position. -/
def Innocently (w : World) : WorldAct → Prop
  | .client i a => Innocent (w.client i) a
  | _ => True

lemma honestly_of_steadily {l : List (World × WorldAct)} (h : Machine.Meets Steadily l)
    (h' : Machine.Meets Innocently l) : Machine.Meets Honestly l := by
  rintro ⟨w, a⟩ hx
  cases a with
  | client i a =>
    have hsteady : Steady (w.client i) a := h _ hx
    have hinnocent : Innocent (w.client i) a := h' _ hx
    exact civil_of_steady hsteady hinnocent
  | _ => trivial

/-- Nobody is about to be removed. -/
def Staying (w : World) : Prop := ∀ t, w.server.pc t ≠ .removeLock

/-- The server lets nobody go and knows its clients under their own UUIDs, and what they write for
it is honest. -/
structure Hosted (P : Party) (w : World) : Prop where
  server : GoServer.Inv w.server
  unbroken : Unbroken w.server
  member : ∀ c, w.server.pc (.serve c) ≠ .idle →
    c ∈ P.members ∧ (w.server.client c).uuid = (P.uuid c).text
  owner : ∀ i, (w.client i).session.uuid = P.uuid i
  honest : ∀ i, ∀ f ∈ (w.client i).session.asyncWriteQueue ++ (w.client i).session.written,
    Honest (P.uuid i) f
  frames : ∀ i, w.server.frames i ≤ (w.client i).session.written.length

section Hosted

variable {P : Party} {w : World}

lemma Hosted.start (P : Party) : Hosted P (World.start P) where
  server := GoServer.Inv.init
  unbroken := by
    intro t ht
    exact ht
  member := by
    intro c hc
    exact absurd rfl hc
  owner := fun i => rfl
  honest := by simp [World.start, Client.start, Session.start]
  frames := fun i => Nat.zero_le _

/-- A registered client is a member, and known under its own UUID. -/
lemma Hosted.registered (h : Hosted P w) {c : ClientId} (hc : c ∈ w.server.clients) :
    c ∈ P.members ∧ (w.server.client c).uuid = (P.uuid c).text :=
  h.member c (h.server.serve_ne_idle hc)

/-- The frame that is read next is the oldest that has not been read. -/
lemma up_of_serves {c : ClientId} {frame now : Text}
    (ha : w.serves P (.readFrame c frame now)) :
    ∃ f rest, w.up c = f :: rest ∧ f.bytes = frame := by
  rw [World.serves, beq_iff_eq, Option.map_eq_some_iff] at ha
  obtain ⟨f, hf, hbytes⟩ := ha
  obtain ⟨rest, hrest⟩ := List.head?_eq_some_iff.mp hf
  exact ⟨f, rest, hrest, hbytes⟩

lemma Hosted.honest_up (h : Hosted P w) {c : ClientId} {f : Frame} (hf : f ∈ w.up c) :
    Honest (P.uuid c) f :=
  h.honest c f (List.mem_append_right _ (List.mem_of_mem_drop hf))

/-- A step of the server keeps everybody known under its own UUID. -/
lemma Hosted.member_step (h : Hosted P w) {a : Act} {s : Server} (ha : w.serves P a)
    (hs : GoServer.Step w.server a s) (c : ClientId) (hc : s.pc (.serve c) ≠ .idle) :
    c ∈ P.members ∧ (s.client c).uuid = (P.uuid c).text := by
  by_cases hidle : w.server.pc (.serve c) = .idle
  · rcases hs.goes h.server.started (.serve c) with he | hg
    · exact absurd (he.trans hidle) hc
    · rw [hidle] at hg
      generalize s.pc (.serve c) = q at hg
      cases hg with
      | connect =>
        simp only [World.serves, Bool.and_eq_true, decide_eq_true_eq, beq_iff_eq] at ha
        cases hs with
        | connect =>
          refine ⟨ha.1.1, ?_⟩
          simp only [Server.goto_client, Function.update_self]
          rw [ha.1.2, Client.clientUUID, h.owner]
  · obtain ⟨hm, hu⟩ := h.member c hidle
    refine ⟨hm, ?_⟩
    rcases hs.uuid_cases c with hu' | ⟨uuid, color, rfl, -⟩
    · rw [hu', hu]
    · cases hs with
      | connect hc' => exact absurd hc' hidle

lemma Hosted.server_step (h : Hosted P w) {a : Act} {s : Server} (ha : w.serves P a)
    (hs : GoServer.Step w.server a s) (hno : ∀ t, s.pc t ≠ .removeLock) :
    Hosted P { w with server := s, down := w.sent a } where
  server := h.server.step hs
  unbroken := h.unbroken.step h.server.started hs hno
  member := h.member_step ha hs
  owner := h.owner
  honest := h.honest
  frames := by
    intro i
    rcases hs.frames_cases i with he | ⟨frame, now, rfl, -, he⟩
    · rw [he]
      exact h.frames i
    · -- what the server reads has been written and not read before
      obtain ⟨f, rest, hup, -⟩ := up_of_serves ha
      have hlt : w.server.frames i < (w.client i).session.written.length := by
        have hlen := congrArg List.length hup
        rw [World.up, List.length_drop, List.length_cons] at hlen
        omega
      rw [he]
      exact hlt

/-- A property of a client that the client keeps, and that the others keep since they stay as they
are. -/
lemma forall_update {i : ClientId} {c : Client} {p : ClientId → Client → Prop} {x : ClientId}
    (hx : p x (w.client x)) (hi : p i (w.client i) → p i c) :
    p x (Function.update w.client i c x) := by
  by_cases he : x = i
  · subst he
    rw [Function.update_self]
    exact hi hx
  · rw [Function.update_of_ne he]
    exact hx

/-- One client moves, and goes on being honest. -/
lemma Hosted.client_step (h : Hosted P w) {i : ClientId} {a : ClientAct} {c : Client}
    (hs : ClientStep (w.client i) a c)
    (hc : ∀ f ∈ c.session.asyncWriteQueue ++ c.session.written, Honest (P.uuid i) f)
    {down : ClientId → List Text} :
    Hosted P { w with client := Function.update w.client i c, down := down } where
  server := h.server
  unbroken := h.unbroken
  member := h.member
  owner := fun j => forall_update (p := fun j c => c.session.uuid = P.uuid j) (h.owner j)
    fun hi => hs.sessionStep.uuid.trans hi
  honest := fun j => forall_update (p := fun j c =>
    ∀ f ∈ c.session.asyncWriteQueue ++ c.session.written, Honest (P.uuid j) f) (h.honest j)
    fun _ => hc
  frames := fun j => forall_update (p := fun j c => w.server.frames j ≤ c.session.written.length)
    (h.frames j) fun hi => hi.trans hs.sessionStep.written.length_le

end Hosted

/-- The UUIDs of the registered clients. -/
def World.present (P : Party) (w : World) (v : Text) : Prop :=
  ∃ x ∈ w.server.clients, v = (P.uuid x).text

/-- What holds in every state of a run of honest clients in which nobody leaves. -/
structure Sound (P : Party) (w : World) : Prop where
  server : GoServer.Inv w.server
  unbroken : Unbroken w.server
  joined : Joined w.server
  /-- The server knows a client under its own UUID. -/
  member : ∀ c, w.server.pc (.serve c) ≠ .idle →
    c ∈ P.members ∧ (w.server.client c).uuid = (P.uuid c).text
  player : ∀ i, Player (P.uuid i) (w.present P) (w.client i)
  frames : ∀ i, w.server.frames i ≤ (w.client i).session.written.length
  /-- The messages on their way are welcome. -/
  held : ∀ t, ∀ m ∈ (w.server.pc t).messages, Welcome (w.present P) m
  down : ∀ i, ∀ m ∈ w.down i, Welcome (w.present P) m

lemma Sound.start (P : Party) : Sound P (World.start P) where
  server := GoServer.Inv.init
  unbroken := by
    intro t ht
    exact ht
  joined := by
    intro c hc
    exact absurd trivial hc
  member := by
    intro c hc
    exact absurd rfl hc
  player := fun i => Player.start (P.uuid i) _
  frames := fun i => Nat.zero_le _
  held := by simp [World.start, Server.init, Pc.messages, Pc.writes]
  down := by simp [World.start]

section Sound

variable {P : Party} {w : World}

lemma Sound.hosted (h : Sound P w) : Hosted P w where
  server := h.server
  unbroken := h.unbroken
  member := h.member
  owner := fun i => (h.player i).owner
  honest := fun i => (h.player i).honest
  frames := h.frames

/-- A registered client is a member, and known under its own UUID. -/
lemma Sound.registered (h : Sound P w) {c : ClientId} (hc : c ∈ w.server.clients) :
    c ∈ P.members ∧ (w.server.client c).uuid = (P.uuid c).text :=
  h.hosted.registered hc

lemma Sound.honest_up (h : Sound P w) {c : ClientId} {f : Frame} (hf : f ∈ w.up c) :
    Honest (P.uuid c) f :=
  h.hosted.honest_up hf

lemma present_of_mem {c : ClientId} (hc : c ∈ w.server.clients) :
    w.present P (P.uuid c).text := ⟨c, hc, rfl⟩

/-- Every message that the server makes is welcome. -/
lemma Sound.welcome_fresh (h : Sound P w) {a : Act} (ha : w.serves P a) {m : Text}
    (hm : Fresh w.server a m) : Welcome (w.present P) m := by
  cases hm with
  | @announce c now hc =>
    obtain ⟨car, hwf⟩ := wellFormed_initPosition w.server c now
    refine welcome_position hwf ?_
    have hmem : c ∈ w.server.clients := h.joined c (by rw [hc]; simp [Thread.Absent])
    rw [(h.registered hmem).2]
    exact present_of_mem hmem
  | @reply c frame now e peers msg hc he hr =>
    obtain ⟨f, rest, hup, rfl⟩ := up_of_serves ha
    have hmem : c ∈ w.server.clients := h.joined.of_reading h.server.started (by rw [hc]; simp)
    refine ((welcome_reply (h.honest_up (by rw [hup]; simp)) he _ _).1 peers msg hr).mono ?_
    rintro v ⟨rfl, -⟩
    exact present_of_mem hmem
  | @debug c frame now e payload he hr =>
    obtain ⟨f, rest, hup, rfl⟩ := up_of_serves ha
    exact absurd hr ((welcome_reply (h.honest_up (by rw [hup]; simp)) he _ _).2 m)
  | tick c now => exact welcome_timeStamp _ _ _ _
  | @exit t now ht => exact absurd (by rw [ht]; trivial) (h.unbroken t)

lemma mem_sent {a : Act} {i : ClientId} {m : Text} (hm : m ∈ w.sent a i) :
    m ∈ w.down i ∨ ∃ t, t.owner = i ∧ m ∈ (w.server.pc t).writes := by
  cases hf : a.finishes with
  | none =>
    rw [World.sent, hf] at hm
    exact Or.inl hm
  | some t =>
    rw [World.sent, hf] at hm
    dsimp only at hm
    by_cases hi : i = t.owner
    · subst hi
      rw [Function.update_self] at hm
      rcases List.mem_append.mp hm with hm | hm
      · exact Or.inl hm
      · exact Or.inr ⟨t, rfl, hm⟩
    · rw [Function.update_of_ne hi] at hm
      exact Or.inl hm

lemma present_step {a : Act} {s : Server} (hu : Unbroken w.server)
    (hs : GoServer.Step w.server a s) {v : Text} (hv : w.present P v)
    {down : ClientId → List Text} :
    World.present P { w with server := s, down := down } v := by
  obtain ⟨x, hx, rfl⟩ := hv
  exact ⟨x, hs.clients_subset hu hx, rfl⟩

lemma Sound.server_step (h : Sound P w) {a : Act} {s : Server} (ha : w.serves P a)
    (hs : GoServer.Step w.server a s) (hno : ∀ t, s.pc t ≠ .removeLock) :
    Sound P { w with server := s, down := w.sent a } where
  server := (h.hosted.server_step ha hs hno).server
  unbroken := (h.hosted.server_step ha hs hno).unbroken
  joined := h.joined.step h.server.started h.unbroken hs
  member := (h.hosted.server_step ha hs hno).member
  player := fun i => (h.player i).mono fun _ hv => present_step h.unbroken hs hv
  frames := (h.hosted.server_step ha hs hno).frames
  held := by
    intro t m hm
    rcases hs.messages_cases h.server.started hm with ⟨t', hm'⟩ | hfresh
    · exact (h.held t' m hm').mono fun _ hv => present_step h.unbroken hs hv
    · exact (h.welcome_fresh ha hfresh).mono fun _ hv => present_step h.unbroken hs hv
  down := by
    intro i m hm
    rcases mem_sent hm with hm | ⟨t, -, hm⟩
    · exact (h.down i m hm).mono fun _ hv => present_step h.unbroken hs hv
    · exact (h.held t m (GoServer.writes_subset_messages _ hm)).mono fun _ hv =>
        present_step h.unbroken hs hv

/-- One client moves, and takes a message off its connection if it is handed one. -/
lemma Sound.client_step (h : Sound P w) {i : ClientId} {a : ClientAct} {c : Client}
    (hc : Civil (w.client i) a) (hmsg : ∀ msg, a = .onMessage msg → Welcome (w.present P) msg)
    (hs : ClientStep (w.client i) a c) {down : ClientId → List Text}
    (hdown : ∀ j, down j ⊆ w.down j) :
    Sound P { w with client := Function.update w.client i c, down := down } where
  server := h.server
  unbroken := h.unbroken
  joined := h.joined
  member := h.member
  player := fun j => forall_update (p := fun j c => Player (P.uuid j) (w.present P) c) (h.player j)
    fun hi => hi.step hc hmsg hs
  frames := fun j => forall_update (p := fun j c => w.server.frames j ≤ c.session.written.length)
    (h.frames j) fun hi => hi.trans hs.sessionStep.written.length_le
  held := h.held
  down := fun j m hm => h.down j m (hdown j hm)

theorem Sound.step (h : Sound P w) {a : WorldAct} {w' : World} (ha : Honestly w a)
    (hs : WorldStep P w a w') (hno : Staying w') : Sound P w' := by
  cases hs with
  | server hserves hs => exact h.server_step hserves hs hno
  | client hm hs =>
    exact h.client_step ha (fun msg he => absurd he (hm msg)) hs fun j => List.Subset.refl _
  | @deliver i msg rest c hd hs =>
    have hcivil : Civil (w.client i) (.onMessage msg) := trivial
    refine h.client_step hcivil ?_ hs ?_
    · intro msg' he
      refine h.down i msg' ?_
      rw [hd, ClientAct.onMessage.inj he]
      simp
    · intro j
      by_cases hj : j = i
      · subst hj
        rw [Function.update_self, hd]
        exact List.subset_cons_self _ _
      · rw [Function.update_of_ne hj]
        exact List.Subset.refl _

end Sound

end MultiplayerCars.Wire
