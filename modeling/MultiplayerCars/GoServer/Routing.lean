import Mathlib.Data.Finset.Card
import MultiplayerCars.GoServer.PairOrder

/-!
# The routing of one frame

What becomes of one frame that a reader has read, whoever is in the registry.  The type of the
event, and what the payload decodes to, decide who receives what; the range loop that follows
delivers it to exactly these clients, once to each, when the registry does not change under it.
Bytes that are no event end the reader, and its deferred `removeClient` takes the client out of
the registry.
-/

namespace MultiplayerCars.GoServer

open Lib Lib.Json Lib.Machine

/-- The action changes `m.clients`. -/
def Act.changesClients : Act → Bool
  | .insert _ | .delete _ _ => true
  | _ => false

/-- The registered clients that a handler addresses. -/
def Server.recipients (s : Server) (peers : Peers) : Finset ClientId :=
  s.clients.filter fun b => peers.admits (s.client b).uuid

/-- What `b` has received that follows from the `n`-th frame of `a`. -/
def Server.copies (s : Server) (a : ClientId) (n : ℕ) (b : ClientId) : List Packet :=
  (s.received b).filter fun k => k.frameOf a = some n

lemma mem_recipients {s : Server} {peers : Peers} {b : ClientId} :
    b ∈ s.recipients peers ↔ b ∈ s.clients ∧ peers.admits (s.client b).uuid :=
  Finset.mem_filter

lemma Step.clients_of_not_changes {s s' : Server} {x : Act} (hs : Step s x s')
    (hx : x.changesClients = false) : s'.clients = s.clients := by
  cases hs with
  | insert => cases hx
  | delete => cases hx
  | readFrame =>
    obtain ⟨q, color, -, heq⟩ := readFrame_cases s _ _ _
    rw [heq]
    rfl
  | _ => rfl

/-- A goroutine that is inside `removeClient` stays there until it returns. -/
lemma Goes.leaving {s : Server} {x : Act} {t : Thread} {p q : Pc} (hg : Goes s x t p q)
    (hp : p.Leaving) : q.Leaving ∨ q = .done := by
  cases hg with
  | pick => exact Or.inl hp
  | handoff => exact Or.inl hp
  | @endRange _ l hx =>
    left
    rw [RangeLoop.next, show l.packet.cause = .exit from hp]
    trivial
  | lockRemove => exact Or.inl trivial
  | check => split_ifs <;> exact Or.inl trivial
  | close => exact Or.inl trivial
  | delete => exact Or.inl rfl
  | unlockRemove => exact Or.inr rfl
  | _ => exact hp.elim

/-! ### Before and while a frame is handled -/

/-- Up to the moment at which a reader reads a frame, it does not handle it. -/
lemma not_handles_yet {l : List (Server × Act)} {s : Server} (h : manager.Exec l s)
    (a : ClientId) : Always (fun s' => ¬ (s'.pc (.read a)).Handles (s.frames a)) l s := by
  have hle : ∀ s₀, manager.Leads s₀ s → s₀.frames a ≤ s.frames a := by
    intro s₀ hleads
    refine Leads.stable (P := fun s' => s₀.frames a ≤ s'.frames a) ?_ hleads le_rfl
    intro s₁ x s₂ hs₁ hs
    rcases (step_cases hs).frames_cases a with he | ⟨-, -, -, -, he⟩ <;> omega
  refine ⟨?_, fun hn => ?_⟩
  · intro x hx hn
    obtain ⟨l₁, h₁, -⟩ := h.of_mem hx
    obtain ⟨s₂, hs, hleads⟩ := h.leads_of_mem hx
    have hlast := (inOrder_of_exec h₁ a a).current _ hn
    have := hle x.1 (hleads.head ⟨x.2, hs⟩)
    omega
  · have := (inOrder_of_exec h a a).current _ hn
    omega

/-- From the moment at which the reader of `a` reads the frame in `s₁` on: the registry is that of
`s₁` while the frame is handled, the loop that handles the frame is the one that its handler began,
and nothing that follows from the frame goes to anybody else than that handler's recipients. -/
structure Confined (s₁ : Server) (a : ClientId) (frame now : Text) (s : Server) : Prop where
  counted : s₁.frames a < s.frames a
  clients : (s.pc (.read a)).Handles (s₁.frames a) → s.clients = s₁.clients
  begun : ∀ r, (s.pc (.read a)).loop? = some r → (s.pc (.read a)).Handles (s₁.frames a) →
    Begins s₁ (.readFrame a frame now) (.read a) r.peers r.packet
  target : ∀ r p, s.pc (.read a) = .send r p → (s.pc (.read a)).Handles (s₁.frames a) →
    p ∈ s₁.recipients r.peers
  received : ∀ b, ∀ k ∈ s.received b, k.frameOf a = some (s₁.frames a) →
    ∃ peers, Begins s₁ (.readFrame a frame now) (.read a) peers k ∧ b ∈ s₁.recipients peers

lemma Confined.start {l : List (Server × Act)} {s₁ s₂ : Server} {a : ClientId} {frame now : Text}
    (h : manager.Exec l s₁) (hs : Step s₁ (.readFrame a frame now) s₂) :
    Confined s₁ a frame now s₂ := by
  cases hs with
  | readFrame =>
    obtain ⟨q, color, hq, heq⟩ := readFrame_cases s₁ a frame now
    have hpc : (s₁.readFrame a frame now).pc (.read a) = s₁.handled a frame now := by
      rw [readFrame_pc, if_pos rfl]
    refine ⟨?_, fun _ => ?_, ?_, ?_, ?_⟩
    · rw [heq]
      simp
    · rw [heq]
      rfl
    · intro r hr _
      rw [hpc] at hr
      exact begins_of_handled hr
    · intro r p hp _
      have hpc' : (s₁.readFrame a frame now).pc (.read a) = q := by
        rw [heq, Server.goto_pc_self]
      exact absurd (hpc'.symm.trans hp) (hq.not_send r p)
    · intro b k hk hn
      have hk₁ : k ∈ s₁.received b := by
        rw [heq] at hk
        exact hk
      have hlt := (inOrder_of_exec h a b).counted _ (List.mem_filterMap.mpr ⟨k, hk₁, hn⟩)
      exact absurd hlt (lt_irrefl _)

/-- A reader that goes on with a frame that has been counted went on with it before. -/
lemma Step.handles_of_counted {s s' : Server} {x : Act} (hs : Step s x s') (hst : Started s)
    {a : ClientId} {n : ℕ} (hn : n < s.frames a) (h : (s'.pc (.read a)).Handles n) :
    (s.pc (.read a)).Handles n := by
  rcases hs.handles hst h with ⟨hold, -⟩ | ⟨rfl, -⟩
  · exact hold
  · exact absurd hn (lt_irrefl _)

theorem Confined.step {s₁ s s' : Server} {a : ClientId} {frame now : Text} {x : Act}
    (h : Confined s₁ a frame now s) (hi : Inv s)
    (huuid : ∀ p ∈ s₁.clients, (s.client p).uuid = (s₁.client p).uuid)
    (hx : (s.pc (.read a)).Handles (s₁.frames a) → x.changesClients = false) (hs : Step s x s') :
    Confined s₁ a frame now s' := by
  have hold : (s'.pc (.read a)).Handles (s₁.frames a) → (s.pc (.read a)).Handles (s₁.frames a) :=
    hs.handles_of_counted hi.started h.counted
  refine ⟨?_, ?_, ?_, ?_, ?_⟩
  · have := h.counted
    rcases hs.frames_cases a with he | ⟨-, -, -, -, he⟩ <;> omega
  · intro hn
    rw [hs.clients_of_not_changes (hx (hold hn))]
    exact h.clients (hold hn)
  · intro r hr hn
    rcases hs.packet_cases hi.started hr with ⟨r₀, hr₀, hpeers, hpacket⟩ | hbeg
    · rw [hpeers, hpacket]
      exact h.begun r₀ hr₀ (hold hn)
    · -- the reader was in the loop of this frame before, so it begins none
      exfalso
      have hread := hold hn
      generalize r.peers = peers at hbeg
      generalize r.packet = k at hbeg
      cases hbeg with
      | reply =>
        cases hs with
        | readFrame hc =>
          rw [hc] at hread
          exact hread.elim
      | exit =>
        cases hs with
        | delete ht =>
          rw [ht] at hread
          exact hread.elim
  · intro r p hp hn
    rcases hs.send_cases hp with hp₀ | ⟨-, r₀, hr₀, ⟨hmem, -, hadm⟩, rfl⟩
    · exact h.target r p hp₀ (hold hn)
    · have hmem₁ : p ∈ s₁.clients := by
        rw [← h.clients (hold hn)]
        exact hmem
      refine mem_recipients.mpr ⟨hmem₁, ?_⟩
      rw [← huuid p hmem₁]
      exact hadm
  · intro b k hk hn
    rcases hs.received_cases b with heq | ⟨t, r, -, ht, heq⟩
    · rw [heq] at hk
      exact h.received b k hk hn
    · rw [heq] at hk
      rcases List.mem_append.mp hk with hk | hk
      · exact h.received b k hk hn
      · rw [List.mem_singleton.mp hk] at hn ⊢
        obtain ⟨rfl, hh⟩ := hi.sender_of_frame ht hn
        have hr : (s.pc (.read a)).loop? = some r := by
          rw [ht]
          rfl
        exact ⟨r.peers, h.begun r hr hh, h.target r b ht hh⟩

/-- The frame that the reader of `a` reads in `s₁` is handled with a registry that does not
change. -/
def Undisturbed (s₁ : Server) (a : ClientId) (s : Server) (x : Act) : Prop :=
  (s.pc (.read a)).Handles (s₁.frames a) → x.changesClients = false

lemma confined_of_exec {l : List (Server × Act)} {s s₁ : Server} (h : manager.Exec l s)
    {a : ClientId} {frame now : Text} (hx : (s₁, Act.readFrame a frame now) ∈ l)
    (hquiet : Meets (Undisturbed s₁ a) l) :
    Confined s₁ a frame now s ∧
      Always (fun s' => (s'.pc (.read a)).Handles (s₁.frames a) → s'.clients = s₁.clients) l s := by
  induction h with
  | nil => simp at hx
  | @snoc l s s' x hl hs ih =>
    obtain ⟨hquiet, hlast⟩ := meets_snoc.mp hquiet
    have hstep := step_cases hs
    rcases List.mem_append.mp hx with hx | hx
    · obtain ⟨hc, hal⟩ := ih hx hquiet
      have hc' : Confined s₁ a frame now s' := by
        refine hc.step (inv_of_exec _ _ hl) (fun p hp => ?_) hlast hstep
        obtain ⟨l₁, h₁, -⟩ := hl.of_mem hx
        exact (uuid_of_mem hl hx ((inv_of_exec _ _ h₁).serve_ne_idle hp)).symm
      exact ⟨hc', always_snoc.mpr ⟨hal, hc'.clients⟩⟩
    · obtain ⟨rfl, rfl⟩ := Prod.mk.inj (List.mem_singleton.mp hx)
      have hc' := Confined.start hl hstep
      obtain ⟨hbefore, hnow⟩ := not_handles_yet hl a
      exact ⟨hc', always_snoc.mpr ⟨⟨fun y hy hn => absurd hn (hbefore y hy),
        fun hn => absurd hn hnow⟩, hc'.clients⟩⟩

/-! ### Who receives what -/

lemma begins_unique {s : Server} {a : ClientId} {frame now : Text} {peers peers' : Peers}
    {k k' : Packet} (h : Begins s (.readFrame a frame now) (.read a) peers k)
    (h' : Begins s (.readFrame a frame now) (.read a) peers' k') : peers' = peers ∧ k' = k := by
  cases h with
  | reply he hr =>
    cases h' with
    | reply he' hr' =>
      rw [he] at he'
      cases he'
      rw [hr] at hr'
      cases hr'
      exact ⟨rfl, rfl⟩

section Run

variable {l : List (Server × Act)} {s s₁ : Server} {a : ClientId} {frame now : Text}

/-- What the handler of a frame sends has been received, once the frame is handled, by those whom
the handler addresses: by each of them once, and by nobody else. -/
theorem copies_of_begins (h : manager.Exec l s) (hx : (s₁, Act.readFrame a frame now) ∈ l)
    (hquiet : Meets (Undisturbed s₁ a) l) (hended : ¬ (s.pc (.read a)).Handles (s₁.frames a))
    {peers : Peers} {k : Packet} (hk : Begins s₁ (.readFrame a frame now) (.read a) peers k)
    (b : ClientId) :
    s.copies a (s₁.frames a) b = if b ∈ s₁.recipients peers then [k] else [] := by
  obtain ⟨hconf, hstill, -⟩ := confined_of_exec h hx hquiet
  split_ifs with hb
  · obtain ⟨hmem, hadm⟩ := mem_recipients.mp hb
    obtain ⟨l₁, h₁, -⟩ := h.of_mem hx
    have hu₁ := uuid_of_mem h hx ((inv_of_exec _ _ h₁).serve_ne_idle hmem)
    have hstay : Always (fun s' => (s'.pc (.read a)).Handles (s₁.frames a) →
        b ∈ s'.clients ∧ peers.admits (s'.client b).uuid) l s := by
      refine ⟨fun x hx' hn => ?_, fun hn => absurd hn hended⟩
      have hb' : b ∈ x.1.clients := by
        rw [hstill x hx' hn]
        exact hmem
      obtain ⟨l₂, h₂, -⟩ := h.of_mem hx'
      have hu := uuid_of_mem h hx' ((inv_of_exec _ _ h₂).serve_ne_idle hb')
      refine ⟨hb', ?_⟩
      rw [hu, ← hu₁]
      exact hadm
    cases hk with
    | @reply _ _ _ e peers m he hr =>
      rcases owed_or_received h hx he hr hstay with haims | hrec
      · exact absurd (handles_of_aims haims rfl) hended
      · exact filter_frameOf (inOrder_of_exec h a b).increasing hrec
          (frameOf_eq_some.mpr ⟨rfl, e.type, rfl⟩)
  · refine List.filter_eq_nil_iff.mpr fun k' hk' hn => hb ?_
    obtain ⟨peers', hk₀, hb'⟩ := hconf.received b k' hk' (by simpa using hn)
    rwa [(begins_unique hk hk₀).1] at hb'

/-- A frame whose handler sends nothing is followed by nothing. -/
theorem copies_of_not_begins (h : manager.Exec l s) (hx : (s₁, Act.readFrame a frame now) ∈ l)
    (hquiet : Meets (Undisturbed s₁ a) l)
    (hno : ∀ peers k, ¬ Begins s₁ (.readFrame a frame now) (.read a) peers k) (b : ClientId) :
    s.copies a (s₁.frames a) b = [] := by
  refine List.filter_eq_nil_iff.mpr fun k' hk' hn => ?_
  obtain ⟨peers, hk, -⟩ := (confined_of_exec h hx hquiet).1.received b k' hk' (by simpa using hn)
  exact hno peers k' hk

lemma readFrame_pc_of_none {s : Server} (he : unmarshalEvent frame = none) :
    (s.readFrame a frame now).pc (.read a) = .removeLock := by
  rw [readFrame_pc, if_pos rfl, Server.handled, he]

/-- Bytes that are no event end the reader: from then on it is inside `removeClient`, or has
returned from it. -/
lemma leaving_of_exec (h : manager.Exec l s) (hx : (s₁, Act.readFrame a frame now) ∈ l)
    (he : unmarshalEvent frame = none) :
    (s.pc (.read a)).Leaving ∨ s.pc (.read a) = .done := by
  induction h with
  | nil => simp at hx
  | @snoc l s s' x hl hs ih =>
    have hi := inv_of_exec _ _ hl
    have hstep := step_cases hs
    rcases List.mem_append.mp hx with hx | hx
    · rcases ih hx with hleave | hdone
      · rcases hstep.goes hi.started (.read a) with heq | hg
        · rw [heq]
          exact Or.inl hleave
        · exact hg.leaving hleave
      · rcases hstep.stays hi.started hdone (Or.inl rfl) with heq | ⟨r, p, -, hsend, -⟩
        · exact Or.inr heq
        · cases hsend
    · obtain ⟨rfl, rfl⟩ := Prod.mk.inj (List.mem_singleton.mp hx)
      cases hstep with
      | readFrame =>
        left
        rw [readFrame_pc_of_none he]
        trivial

end Run

/-! ### The table -/

/-- The registered clients whose UUID is not that of `a`. -/
def Server.others (s : Server) (a : ClientId) : Finset ClientId :=
  s.clients.filter fun b => (s.client b).uuid ≠ (s.client a).uuid

/-- The registered clients with the given UUID. -/
def Server.named (s : Server) (uuid : Text) : Finset ClientId :=
  s.clients.filter fun b => (s.client b).uuid = uuid

/-- Of what follows from the frame that `a` read in `s₁`, each of the clients in `bs` has received
the message once and nothing else, and no other client has received anything. -/
def Delivered (s₁ s : Server) (a : ClientId) (m : Message) (bs : Finset ClientId) : Prop :=
  ∀ b, (s.copies a (s₁.frames a) b).map (·.message) = if b ∈ bs then [m] else []

/-- Nobody has received anything that follows from the frame that `a` read in `s₁`. -/
def Undelivered (s₁ s : Server) (a : ClientId) : Prop := ∀ b, s.copies a (s₁.frames a) b = []

/-- The reader of `a` has left its loop for its deferred `removeClient`, and `a` is not registered
when it returns; what it does when the mutex is free is to take `a` out of the registry. -/
structure Removed (s₁ s₂ s : Server) (a : ClientId) : Prop where
  leaving : (s.pc (.read a)).Leaving ∨ s.pc (.read a) = .done
  gone : s.pc (.read a) = .done → a ∉ s.clients
  deletes : a ∈ s₁.clients → s₁.lock = none → ∀ now, ∃ r,
    manager.run s₂ [.lockRemove (.read a), .check (.read a), .close (.read a),
      .delete (.read a) now] = some r ∧ r.2.clients = s₁.clients.erase a

/-- What becomes of the frame that the reader of `a` reads in `s₁`, where reading it leads to `s₂`
and its handling is over in `s`. -/
structure Routed (a : ClientId) (frame now : Text) (s₁ s₂ s : Server) : Prop where
  undecodable : unmarshalEvent frame = none → Removed s₁ s₂ s a ∧ Undelivered s₁ s a
  unhandled : ∀ e, unmarshalEvent frame = some e → e.type ≠ eventPositionMessage →
    e.type ≠ eventColorUpdateMessage → e.type ≠ eventTextUpdateMessage →
    e.type ≠ eventPositionDebugMessage → s₂.client = s₁.client ∧ Undelivered s₁ s a
  position : ∀ e, unmarshalEvent frame = some e → e.type = eventPositionMessage →
    s₂.client = s₁.client ∧ Delivered s₁ s a (.passthrough e.payload) (s₁.others a)
  color : ∀ e colorMsg, unmarshalEvent frame = some e → e.type = eventColorUpdateMessage →
    unmarshalColorUpdateEvent e.payload = some colorMsg →
    s₂.client = Function.update s₁.client a { s₁.client a with color := colorMsg.color } ∧
      Delivered s₁ s a (.event ⟨bEventColorUpdateMessage, (s₁.client a).uuid, now, 0, 0,
        colorMsg.color⟩) (s₁.others a)
  text : ∀ e textMsg, unmarshalEvent frame = some e → e.type = eventTextUpdateMessage →
    unmarshalTextUpdateEvent e.payload = some textMsg →
    s₂.client = s₁.client ∧
      Delivered s₁ s a (.text ⟨bEventTextUpdateMessage, textMsg.fromUUID, textMsg.toUUID,
        textMsg.color, textMsg.text, now, textMsg.global⟩)
        (if textMsg.global then s₁.others a else s₁.named textMsg.toUUID)
  badPayload : ∀ e, unmarshalEvent frame = some e →
    (e.type = eventColorUpdateMessage ∧ unmarshalColorUpdateEvent e.payload = none ∨
      e.type = eventTextUpdateMessage ∧ unmarshalTextUpdateEvent e.payload = none) →
    s₂.client = s₁.client ∧ Undelivered s₁ s a
  debug : ∀ e, unmarshalEvent frame = some e → e.type = eventPositionDebugMessage →
    s₂.pc (.read a) = .debugWrite e.payload ∧ s₂.client = s₁.client ∧ Undelivered s₁ s a
  kept : (unmarshalEvent frame).isSome → s₂.clients = s₁.clients ∧ s₂.closes = s₁.closes ∧
    ¬ (s₂.pc (.read a)).Leaving

lemma recipients_others (s : Server) (a : ClientId) :
    s.recipients (.others (s.client a).uuid) = s.others a := by
  simp [Server.recipients, Server.others, Peers.admits]

lemma recipients_only (s : Server) (uuid : Text) :
    s.recipients (.only uuid) = s.named uuid := by
  simp [Server.recipients, Server.named, Peers.admits]

lemma readFrame_client_of_event {s : Server} {a : ClientId} {frame now : Text} {e : Event}
    (he : unmarshalEvent frame = some e) :
    (s.readFrame a frame now).client
      = Function.update s.client a (routeEvent e (s.client a) now).1 := by
  rw [Server.readFrame, he]
  dsimp only
  cases (routeEvent e (s.client a) now).2 <;> rfl

/-- An event whose handler leaves the client as it is changes no client. -/
lemma readFrame_client_of_reply {s : Server} {a : ClientId} {frame now : Text} {e : Event}
    {r : Reply} (he : unmarshalEvent frame = some e)
    (hr : routeEvent e (s.client a) now = (s.client a, r)) :
    (s.readFrame a frame now).client = s.client := by
  rw [readFrame_client_of_event he, hr]
  exact Function.update_eq_self a s.client

/-- The reader of a registered client that has to remove it, and can have the mutex, does so. -/
lemma run_remove {s : Server} {t : Thread} (ht : s.pc t = .removeLock) (hl : s.lock = none)
    (hmem : t.owner ∈ s.clients) (now : Text) : ∃ r,
      manager.run s [.lockRemove t, .check t, .close t, .delete t now] = some r ∧
        r.2.clients = s.clients.erase t.owner := by
  simp [Machine.run, manager, Server.step, ht, hl, hmem]

section Table

variable {l : List (Server × Act)} {s s₁ : Server} {a : ClientId} {frame now : Text}

lemma removed_of_exec (h : manager.Exec l s) (hx : (s₁, Act.readFrame a frame now) ∈ l)
    (he : unmarshalEvent frame = none) : Removed s₁ (s₁.readFrame a frame now) s a where
  leaving := leaving_of_exec h hx he
  gone := by
    intro hdone
    refine (inv_of_exec _ _ h).registered (.read a) ?_
    rw [hdone]
    trivial
  deletes := by
    intro hmem hlock now'
    obtain ⟨q, color, -, heq⟩ := readFrame_cases s₁ a frame now
    have hclients : (s₁.readFrame a frame now).clients = s₁.clients := by
      rw [heq]
      rfl
    have hfree : (s₁.readFrame a frame now).lock = none := by
      rw [heq]
      exact hlock
    rw [← hclients] at hmem ⊢
    exact run_remove (t := .read a) (readFrame_pc_of_none he) hfree hmem now'

lemma undelivered_of_none (h : manager.Exec l s) (hx : (s₁, Act.readFrame a frame now) ∈ l)
    (hquiet : Meets (Undisturbed s₁ a) l) (he : unmarshalEvent frame = none) :
    Undelivered s₁ s a := by
  refine copies_of_not_begins h hx hquiet fun peers k hk => ?_
  cases hk with
  | reply he' =>
    rw [he] at he'
    cases he'

lemma undelivered_of_reply {e : Event} (h : manager.Exec l s)
    (hx : (s₁, Act.readFrame a frame now) ∈ l) (hquiet : Meets (Undisturbed s₁ a) l)
    (he : unmarshalEvent frame = some e)
    (hr : ∀ peers m, (routeEvent e (s₁.client a) now).2 ≠ .send peers m) :
    Undelivered s₁ s a := by
  refine copies_of_not_begins h hx hquiet fun peers k hk => ?_
  cases hk with
  | reply he' hr' =>
    rw [he] at he'
    cases he'
    exact hr _ _ hr'

/-- An event that its handler ignores has no effect. -/
lemma ignored_of_reply {e : Event} (h : manager.Exec l s)
    (hx : (s₁, Act.readFrame a frame now) ∈ l) (hquiet : Meets (Undisturbed s₁ a) l)
    (he : unmarshalEvent frame = some e)
    (hr : routeEvent e (s₁.client a) now = (s₁.client a, .nothing)) :
    (s₁.readFrame a frame now).client = s₁.client ∧ Undelivered s₁ s a := by
  refine ⟨readFrame_client_of_reply he hr, undelivered_of_reply h hx hquiet he fun peers m hs => ?_⟩
  rw [hr] at hs
  cases hs

lemma delivered_of_reply {e : Event} {peers : Peers} {m : Message} (h : manager.Exec l s)
    (hx : (s₁, Act.readFrame a frame now) ∈ l) (hquiet : Meets (Undisturbed s₁ a) l)
    (hended : ¬ (s.pc (.read a)).Handles (s₁.frames a)) (he : unmarshalEvent frame = some e)
    (hr : (routeEvent e (s₁.client a) now).2 = .send peers m) :
    Delivered s₁ s a m (s₁.recipients peers) := by
  intro b
  rw [copies_of_begins h hx hquiet hended (.reply he hr) b]
  split_ifs <;> rfl

/-- **The routing of one frame.**  A frame that is handled with a registry that does not change,
whoever is in it, has had the effect that the table gives when its handling is over. -/
theorem frame_routed (h : manager.Exec l s) (hx : (s₁, Act.readFrame a frame now) ∈ l)
    (hquiet : Meets (Undisturbed s₁ a) l)
    (hended : ¬ (s.pc (.read a)).Handles (s₁.frames a)) :
    Routed a frame now s₁ (s₁.readFrame a frame now) s ∧
      Always (fun s' => (s'.pc (.read a)).Handles (s₁.frames a) → s'.clients = s₁.clients) l s := by
  refine ⟨?_, (confined_of_exec h hx hquiet).2⟩
  constructor
  case undecodable =>
    intro he
    exact ⟨removed_of_exec h hx he, undelivered_of_none h hx hquiet he⟩
  case unhandled =>
    intro e he h₀ h₁ h₂ h₃
    exact ignored_of_reply h hx hquiet he (routeEvent_unhandled h₀ h₁ h₂ h₃ _ _)
  case position =>
    intro e he htype
    have hr := routeEvent_position htype (s₁.client a) now
    refine ⟨readFrame_client_of_reply he hr, ?_⟩
    rw [← recipients_others]
    refine delivered_of_reply h hx hquiet hended he ?_
    rw [hr]
    rfl
  case color =>
    intro e colorMsg he htype hmsg
    have hr := routeEvent_color htype (s₁.client a) now
    rw [handleColorUpdate, hmsg] at hr
    refine ⟨?_, ?_⟩
    · rw [readFrame_client_of_event he, hr]
    · rw [← recipients_others]
      refine delivered_of_reply h hx hquiet hended he ?_
      rw [hr]
  case text =>
    intro e textMsg he htype hmsg
    have hr := routeEvent_text htype (s₁.client a) now
    rw [handleTextUpdate, hmsg] at hr
    refine ⟨readFrame_client_of_reply he hr, ?_⟩
    have hpeers : s₁.recipients
        (if textMsg.global then .others (s₁.client a).uuid else .only textMsg.toUUID)
          = if textMsg.global then s₁.others a else s₁.named textMsg.toUUID := by
      split_ifs
      · exact recipients_others s₁ a
      · exact recipients_only s₁ textMsg.toUUID
    rw [← hpeers]
    refine delivered_of_reply h hx hquiet hended he ?_
    rw [hr]
  case badPayload =>
    rintro e he (⟨htype, hmsg⟩ | ⟨htype, hmsg⟩)
    · refine ignored_of_reply h hx hquiet he ?_
      rw [routeEvent_color htype, handleColorUpdate, hmsg]
    · refine ignored_of_reply h hx hquiet he ?_
      rw [routeEvent_text htype, handleTextUpdate, hmsg]
  case debug =>
    intro e he htype
    have hr := routeEvent_debug htype (s₁.client a) now
    refine ⟨?_, readFrame_client_of_reply he hr,
      undelivered_of_reply h hx hquiet he fun peers m hs => ?_⟩
    · rw [readFrame_pc, if_pos rfl, Server.handled, he]
      dsimp only
      rw [hr]
      rfl
    · rw [hr] at hs
      cases hs
  case kept =>
    intro hsome
    obtain ⟨e, he⟩ := Option.isSome_iff_exists.mp hsome
    obtain ⟨q, color, -, heq⟩ := readFrame_cases s₁ a frame now
    refine ⟨by rw [heq]; rfl, by rw [heq]; rfl, fun hleave => ?_⟩
    rw [readFrame_pc, if_pos rfl] at hleave
    have hstop := leaving_handled hleave
    rw [Server.handled, he] at hstop
    dsimp only at hstop
    split at hstop <;> cases hstop

end Table

/-! ### A private text, and who does not receive it -/

/-- The text of `0` to the UUID of `1`. -/
def whisper : Text := "\x7b\"Type\":2,\"Payload\":\x7b\"ToUUID\":\"b\"\x7d\x7d".toList

/-- `0` whispers to `1`, in the presence of both. -/
def whispered : List Act := inTurn ++
  [.readFrame 0 whisper [], .pick (.read 0) 1, .handoff (.read 0) 1, .wrote 1, .endRange (.read 0)]

lemma whispered_runs : (manager.run manager.init whispered).isSome := by
  decide +kernel

@[irreducible] def whisperedRun : List (Server × Act) × Server :=
  (manager.run manager.init whispered).get whispered_runs

lemma exec_whisperedRun : manager.Exec whisperedRun.1 whisperedRun.2 := by
  rw [whisperedRun]
  exact exec_get_run whispered_runs

theorem frame_routed_whispered :
    ∃ s₁, Routed 0 whisper [] s₁ (s₁.readFrame 0 whisper []) whisperedRun.2 := by
  have hmem : ∃ x ∈ whisperedRun.1, x.2 = .readFrame 0 whisper [] := by
    rw [whisperedRun]
    decide +kernel
  have hquiet : ∀ x ∈ whisperedRun.1, x.2.changesClients → (x.1.pc (.read 0)).loop? = none := by
    rw [whisperedRun]
    decide +kernel
  have hended : (whisperedRun.2.pc (.read 0)).loop? = none := by
    rw [whisperedRun]
    decide +kernel
  obtain ⟨⟨s₁, x⟩, hx, rfl⟩ := hmem
  refine ⟨s₁, (frame_routed exec_whisperedRun hx (fun y hy hn => ?_)
    (not_handles_of_no_loop hended)).1⟩
  by_contra hx'
  exact not_handles_of_no_loop (hquiet y hy (by simpa using hx')) hn

/-! ### The end of the handling -/

/-- The writer is in its loop. -/
def Pc.Serving : Pc → Prop
  | .select | .writeText _ | .writePing | .writeTime _ => True
  | _ => False

/-- Steps that leave the registry alone lead from one state to the other. -/
def Quietly : Server → Server → Prop :=
  Relation.ReflTransGen fun s s' => ∃ x, x.changesClients = false ∧ manager.step s x = some s'

lemma Quietly.clients {s s' : Server} (h : Quietly s s') : s'.clients = s.clients := by
  induction h with
  | refl => rfl
  | tail _ ht ih =>
    obtain ⟨x, hx, hs⟩ := ht
    rw [(step_cases hs).clients_of_not_changes hx, ih]

lemma Quietly.exec {l : List (Server × Act)} {s s' : Server} (h : Quietly s s')
    (hl : manager.Exec l s) :
    ∃ l', manager.Exec (l ++ l') s' ∧ ∀ x ∈ l', x.2.changesClients = false := by
  induction h with
  | refl => exact ⟨[], by simpa using hl, by simp⟩
  | @tail s₁ s₂ _ ht ih =>
    obtain ⟨l', hl', hquiet⟩ := ih
    obtain ⟨x, hx, hs⟩ := ht
    refine ⟨l' ++ [(s₁, x)], ?_, ?_⟩
    · rw [← List.append_assoc]
      exact hl'.snoc hs
    · intro y hy
      rcases List.mem_append.mp hy with hy | hy
      · exact hquiet y hy
      · rw [List.mem_singleton.mp hy]
        exact hx

/-- A writer that is in its loop can come back to its `select`, where the others are left alone. -/
lemma quietly_select {s : Server} {p : ClientId} (hp : (s.pc (.write p)).Serving) :
    ∃ s', Quietly s s' ∧ s'.pc (.write p) = .select ∧ ∀ t, t ≠ .write p → s'.pc t = s.pc t := by
  have hback : ∀ x, x.changesClients = false →
      manager.step s x = some (s.goto (.write p) .select) →
        ∃ s', Quietly s s' ∧ s'.pc (.write p) = .select ∧
          ∀ t, t ≠ .write p → s'.pc t = s.pc t := fun x hx hs =>
    ⟨_, Relation.ReflTransGen.single ⟨x, hx, hs⟩, Server.goto_pc_self _ _ _,
      fun t ht => Server.goto_pc_of_ne ht⟩
  cases hw : s.pc (.write p) with
  | select => exact ⟨s, Relation.ReflTransGen.refl, hw, fun t _ => rfl⟩
  | writeText k => exact hback (.wrote p) rfl (by simp [manager, Server.step, hw])
  | writePing =>
    exact hback (.pingDone p true) rfl (by simp [manager, Server.step, hw, Server.written])
  | writeTime e =>
    exact hback (.tickDone p true) rfl (by simp [manager, Server.step, hw, Server.written])
  | _ =>
    rw [hw] at hp
    exact hp.elim

/-- A goroutine that is blocked on a client whose writer is in its loop can hand its message
over. -/
lemma quietly_handed {s : Server} {t : Thread} {r : RangeLoop} {p : ClientId}
    (ht : s.pc t = .send r p) (hp : (s.pc (.write p)).Serving) :
    ∃ s', Quietly s s' ∧ s'.pc t = .range r ∧
      ∀ q, (s.pc (.write q)).Serving → (s'.pc (.write q)).Serving := by
  obtain ⟨s₁, hq₁, hsel, hothers⟩ := quietly_select hp
  have hne : t ≠ .write p := by
    rintro rfl
    rw [ht] at hp
    exact hp
  have ht₁ : s₁.pc t = .send r p := (hothers t hne).trans ht
  have hstep : manager.step s₁ (.handoff t p)
      = some (({ s₁ with received := Function.update s₁.received p (s₁.received p ++ [r.packet])
        }.goto t (.range r)).goto (.write p) (.writeText r.packet)) := by
    simp [manager, Server.step, ht₁, hsel]
  refine ⟨_, hq₁.tail ⟨.handoff t p, rfl, hstep⟩, ?_, ?_⟩
  · rw [Server.goto_pc_of_ne hne, Server.goto_pc_self]
  · intro q hq
    by_cases he : q = p
    · rw [he, Server.goto_pc_self]
      trivial
    · have hqp : Thread.write q ≠ .write p := fun h => he (Thread.write.inj h)
      have hqt : Thread.write q ≠ t := by
        rintro rfl
        rw [ht] at hq
        exact hq
      rw [Server.goto_pc_of_ne hqp, Server.goto_pc_of_ne hqt]
      exact (hothers _ hqp).symm ▸ hq

/-- A range loop among clients whose writers are all in their loops can come to its end. -/
theorem quietly_next {t : Thread} {s : Server} {r : RangeLoop} (ht : s.pc t = .range r)
    (hs : ∀ p ∈ s.clients, (s.pc (.write p)).Serving) :
    ∃ s', Quietly s s' ∧ (s'.pc t).loop? = none := by
  -- each entry that the loop produces is one less that it has still to produce
  induction hn : (s.clients \ r.seen).card using Nat.strong_induction_on generalizing s r with
  | _ n ih =>
    by_cases hx : s.Exhausted r
    · have hstep : manager.step s (.endRange t) = some (s.goto t r.next) := by
        simp [manager, Server.step, ht, hx]
      refine ⟨_, Relation.ReflTransGen.single ⟨.endRange t, rfl, hstep⟩, ?_⟩
      rw [Server.goto_pc_self]
      exact loop_next r
    · obtain ⟨p, -, hmem, hadm, hseen⟩ : ∃ p ∈ r.present, p ∈ s.clients ∧
          r.peers.admits (s.client p).uuid ∧ p ∉ r.seen := by
        simpa [Server.Exhausted] using hx
      have hpick : manager.step s (.pick t p) = some (s.goto t (.send (r.mark p) p)) := by
        simp [manager, Server.step, ht, Server.Produces, hmem, hadm, hseen]
      have hserve : ∀ q, (s.pc (.write q)).Serving →
          ((s.goto t (.send (r.mark p) p)).pc (.write q)).Serving := by
        intro q hq
        have hne : Thread.write q ≠ t := by
          rintro rfl
          rw [ht] at hq
          exact hq
        rwa [Server.goto_pc_of_ne hne]
      obtain ⟨s₂, hq₂, ht₂, hserve₂⟩ :=
        quietly_handed (Server.goto_pc_self _ _ _) (hserve p (hs p hmem))
      have hclients : s₂.clients = s.clients := hq₂.clients
      have hfewer : (s₂.clients \ (r.mark p).seen).card < n := by
        rw [hclients, ← hn, RangeLoop.mark, Finset.sdiff_insert]
        exact Finset.card_erase_lt_of_mem (Finset.mem_sdiff.mpr ⟨hmem, hseen⟩)
      obtain ⟨s₃, hq₃, hend⟩ := ih _ hfewer ht₂ (by
        rw [hclients]
        exact fun q hq => hserve₂ q (hserve q (hs q hq))) rfl
      exact ⟨s₃, (hq₂.trans hq₃).head ⟨.pick t p, rfl, hpick⟩, hend⟩

/-- **The handling of a frame can end.**  As long as the writers of the registered clients are in
their loops, the handling of a frame can be carried to its end, with nobody joining or leaving. -/
theorem handling_ends {l : List (Server × Act)} {s s₁ : Server} {a : ClientId} {frame now : Text}
    (h : manager.Exec l s) (hx : (s₁, Act.readFrame a frame now) ∈ l)
    (hquiet : Meets (Undisturbed s₁ a) l) (hs : ∀ p ∈ s.clients, (s.pc (.write p)).Serving) :
    ∃ l' s', manager.Exec (l ++ l') s' ∧ Meets (Undisturbed s₁ a) (l ++ l') ∧
      ¬ (s'.pc (.read a)).Handles (s₁.frames a) := by
  have hend : ∃ s', Quietly s s' ∧ ¬ (s'.pc (.read a)).Handles (s₁.frames a) := by
    obtain ⟨hconf, -⟩ := confined_of_exec h hx hquiet
    cases hpc : s.pc (.read a) with
    | range r =>
      obtain ⟨s', hq, hnone⟩ := quietly_next hpc hs
      exact ⟨s', hq, not_handles_of_no_loop hnone⟩
    | send r p =>
      by_cases hn : (s.pc (.read a)).Handles (s₁.frames a)
      · -- the receiver that the reader is blocked on is registered
        have hp : p ∈ s.clients := by
          rw [hconf.clients hn]
          exact (mem_recipients.mp (hconf.target r p hpc hn)).1
        obtain ⟨s₂, hq₂, ht₂, hserve⟩ := quietly_handed hpc (hs p hp)
        obtain ⟨s', hq, hnone⟩ := quietly_next ht₂ fun q hq => by
          rw [hq₂.clients] at hq
          exact hserve q (hs q hq)
        exact ⟨s', hq₂.trans hq, not_handles_of_no_loop hnone⟩
      · exact ⟨s, Relation.ReflTransGen.refl, hn⟩
    | _ => exact ⟨s, Relation.ReflTransGen.refl, not_handles_of_no_loop (by rw [hpc]; rfl)⟩
  obtain ⟨s', hq, hnot⟩ := hend
  obtain ⟨l', hl', hkeep⟩ := hq.exec h
  refine ⟨l', s', hl', fun x hx' => ?_, hnot⟩
  rcases List.mem_append.mp hx' with hx' | hx'
  · exact hquiet x hx'
  · exact fun _ => hkeep x hx'

end MultiplayerCars.GoServer
