import MultiplayerCars.GoServer.PairOrder
import MultiplayerCars.Wire.Discovery
import MultiplayerCars.Wire.Utterance

/-!
# A conversation has no holes

What a player says is written to the connection at once, read in this order, sent around before
the next frame is read, and taken from the queue of the rest in the order of its arrival.  A client
that is registered when a text is read is handed it; one that is registered while the text is sent
around may be left out, but then it has heard nothing before.  So each player sees an unbroken
piece of what any other one has said: the texts are in order, unaltered, and none is missing between
two of them.
-/

namespace MultiplayerCars.Wire

open Lib Lib.Json CPPClient
open GoServer (ClientId Act Server Pc Thread Packet Begins Goes RangeLoop Peers routeEvent)

/-! ### Texts on their way -/

/-- The texts of a client that the server has read. -/
def World.uttered (w : World) (x : ClientId) : List Text :=
  ((w.client x).session.written.take (w.server.frames x)).filterMap utterance

/-- The texts of the first client that the writer of the second has received. -/
def World.told (P : Party) (w : World) (x y : ClientId) : List Text :=
  (w.server.received y).filterMap fun k => textOf (P.uuid x).text k.message.bytes

/-- The text of the client with the UUID that a goroutine has not handed to `y` yet. -/
def owedText (v : Text) (y : ClientId) : Pc → List Text
  | .range l => if y ∈ l.seen then [] else (textOf v l.packet.message.bytes).toList
  | .send l p => if p ≠ y ∧ y ∈ l.seen then [] else (textOf v l.packet.message.bytes).toList
  | _ => []

/-- The texts of a client are sent around by its reader, and to the others. -/
def OwnLoops (P : Party) (w : World) : Prop :=
  ∀ t l, (w.server.pc t).loop? = some l → ∀ x ∈ P.members,
    textOf (P.uuid x).text l.packet.message.bytes ≠ none →
      t = .read x ∧ l.peers = .others (P.uuid x).text

/-- What the server has read of the first client is some texts that satisfy `E`, then those that
the second has received, and then the one that it is still owed. -/
structure Attended (P : Party) (x y : ClientId) (E : List Text → Prop) (w : World) : Prop where
  split : ∃ earlier, E earlier ∧ w.uttered x
    = earlier ++ w.told P x y ++ owedText (P.uuid x).text y (w.server.pc (.read x))
  /-- A loop that began before the second client was registered may pass it over. -/
  late : ∀ l, (w.server.pc (.read x)).loop? = some l → y ∉ l.present →
    owedText (P.uuid x).text y (w.server.pc (.read x)) ≠ [] →
      w.told P x y = [] ∧ E (w.uttered x)
  absent : y ∉ w.server.clients → w.told P x y = []
  marked : (w.server.pc (.read x)).Marked

section

variable {P : Party} {w : World} {x y : ClientId} {E : List Text → Prop}

/-! ### Steps of the server -/

lemma owedText_of_loop {v : Text} {p : Pc} (h : p.loop? = none) : owedText v y p = [] := by
  cases p with
  | range l => cases h
  | send l q => cases h
  | _ => rfl

/-- A text that is owed is that of a loop that has not come to `y`. -/
lemma exists_of_owedText {v : Text} {l : RangeLoop} (h : owedText v y (.range l) ≠ []) :
    y ∉ l.seen ∧ textOf v l.packet.message.bytes ≠ none := by
  rw [owedText] at h
  split_ifs at h with hseen
  · exact absurd rfl h
  · refine ⟨hseen, fun hnone => h ?_⟩
    rw [hnone]
    rfl

/-- Unless it reads a frame or hands something to `y`, a reader goes on owing `y` what it did, or
its loop ends. -/
lemma owedText_of_goes {s : Server} {a : Act} {v : Text} {p q : Pc}
    (hg : Goes s a (.read x) p q) (hread : ∀ frame now, a ≠ .readFrame x frame now)
    (hhand : a ≠ .handoff (.read x) y) (hp : ¬ p.Leaving) :
    (owedText v y q = owedText v y p ∧
        ∀ l', q.loop? = some l' → ∃ l, p.loop? = some l ∧ l'.present = l.present) ∨
      (owedText v y q = [] ∧ q.loop? = none ∧ ∃ l, p = .range l ∧ s.Exhausted l) := by
  cases hg with
  | @pick _ p l hprod =>
    left
    refine ⟨?_, fun l' hl' => ⟨l, rfl, ?_⟩⟩
    · rw [owedText, owedText]
      by_cases hpy : p = y
      · subst hpy
        rw [if_neg (fun h => h.1 rfl), if_neg hprod.2.1]
        rfl
      · simp only [RangeLoop.mark, Finset.mem_insert, Ne.symm hpy, false_or]
        simp only [ne_eq, hpy, not_false_eq_true, true_and]
    · rw [← Option.some.inj hl']
      rfl
  | @handoff _ p l =>
    left
    have hpy : p ≠ y := fun he => hhand (by rw [he])
    refine ⟨?_, fun l' hl' => ⟨l, rfl, by rw [← Option.some.inj hl']⟩⟩
    rw [owedText, owedText]
    simp only [ne_eq, hpy, not_false_eq_true, true_and]
  | @endRange _ l hx =>
    exact Or.inr ⟨owedText_of_loop (GoServer.loop_next l), GoServer.loop_next l, l, rfl, hx⟩
  | readFrame => exact absurd rfl (hread _ _)
  | delete => exact absurd trivial hp
  | check => exact absurd trivial hp
  | _ => exact Or.inl ⟨rfl, fun l' hl' => by cases hl'⟩

/-- What `y` has been told stays, or the reader of `x` hands it a packet. -/
lemma told_cases (hown : OwnLoops P w) (hx : x ∈ P.members) {a : Act} {s : Server}
    (hs : GoServer.Step w.server a s) :
    World.told P { w with server := s, down := w.sent a } x y = w.told P x y ∨
      ∃ l, a = .handoff (.read x) y ∧ w.server.pc (.read x) = .send l y ∧
        World.told P { w with server := s, down := w.sent a } x y
          = w.told P x y ++ (textOf (P.uuid x).text l.packet.message.bytes).toList := by
  rcases hs.received_cases y with hr | ⟨t, l, rfl, ht, hr⟩
  · exact Or.inl (by rw [World.told, World.told, hr])
  · have htold : World.told P { w with server := s, down := w.sent (.handoff t y) } x y
        = w.told P x y ++ (textOf (P.uuid x).text l.packet.message.bytes).toList := by
      rw [World.told, World.told, hr, List.filterMap_append]
      cases htext : textOf (P.uuid x).text l.packet.message.bytes <;> simp [htext]
    cases htext : textOf (P.uuid x).text l.packet.message.bytes with
    | none =>
      rw [htext, Option.toList_none, List.append_nil] at htold
      exact Or.inl htold
    | some said =>
      have hloop : (w.server.pc t).loop? = some l := by
        rw [ht]
        rfl
      obtain ⟨rfl, -⟩ := hown t l hloop x hx (by rw [htext]; simp)
      exact Or.inr ⟨l, rfl, ht, htold⟩

/-- The server reads a frame, or what it has read of the client stays. -/
lemma Sociable.uttered_cases (h : Sociable P w) {a : Act} {s : Server} (ha : w.serves P a)
    (hs : GoServer.Step w.server a s) (x : ClientId) :
    ((∀ frame now, a ≠ .readFrame x frame now) ∧
        World.uttered { w with server := s, down := w.sent a } x = w.uttered x) ∨
      ∃ f now, a = .readFrame x f.bytes now ∧ w.server.pc (.read x) = .reading ∧
        (∃ u, Meant (P.uuid x) f now u) ∧ World.uttered { w with server := s, down := w.sent a } x
          = w.uttered x ++ (utterance f).toList := by
  rcases hs.frames_cases x with he | ⟨frame, now, rfl, hread, he⟩
  · refine Or.inl ⟨?_, by rw [World.uttered, World.uttered, he]⟩
    rintro frame now rfl
    cases hs with
    | readFrame =>
      obtain ⟨q, color, -, heq⟩ := GoServer.readFrame_cases w.server x frame now
      rw [heq] at he
      simp at he
  · right
    obtain ⟨f, rest, hup, rfl⟩ := up_of_serves ha
    have hf : f ∈ w.up x := by
      rw [hup]
      simp
    have htake : (w.client x).session.written.take (w.server.frames x + 1)
        = (w.client x).session.written.take (w.server.frames x) ++ [f] := by
      rw [World.up] at hup
      rw [List.take_add, hup]
      rfl
    have hmeant := (h.courteous.said_up hf now).imp fun _ => And.left
    refine ⟨f, now, rfl, hread, hmeant, ?_⟩
    rw [World.uttered, World.uttered, he, htake, List.filterMap_append]
    cases hu : utterance f <;> simp [hu]

lemma OwnLoops.server_step (h : OwnLoops P w) (hsoc : Sociable P w) {a : Act} {s : Server}
    (ha : w.serves P a) (hs : GoServer.Step w.server a s) :
    OwnLoops P { w with server := s, down := w.sent a } := by
  intro t l hl x hx htext
  rcases hs.packet_cases hsoc.hosted.server.started hl with ⟨l₀, hl₀, hpeers, hpacket⟩ | hb
  · rw [hpacket] at htext
    rw [hpeers]
    exact h t l₀ hl₀ x hx htext
  · generalize hpeers : l.peers = peers at hb ⊢
    generalize l.packet = k at hb htext
    cases hb with
    | announce c now =>
      obtain ⟨car, hwf⟩ := wellFormed_initPosition w.server c now
      exact absurd (textOf_of_wellFormed hwf (by simp)) htext
    | @reply c frame now e _ m he hr =>
      obtain ⟨f, rest, hup, rfl⟩ := up_of_serves ha
      have hf : f ∈ w.up c := by
        rw [hup]
        simp
      have hreading : w.server.pc (.read c) = .reading := by
        cases hs with
        | readFrame hc => exact hc
      obtain ⟨hmember, huuid⟩ := hsoc.courteous.uuid_of_reading hreading
      obtain ⟨u, hmeant, -⟩ := hsoc.courteous.said_up hf now
      obtain ⟨e', m', he', hr', hwf⟩ := reply_of_meant hmeant huuid
      rw [he'] at he
      obtain rfl := Option.some.inj he
      rw [hr'] at hr
      obtain ⟨rfl, rfl⟩ := GoServer.Reply.send.inj hr
      have hv : (P.uuid x).text = (P.uuid c).text := by
        by_contra hv
        exact htext (by rw [textOf_of_meant hmeant hwf, if_neg hv])
      obtain rfl := P.distinct x hx c hmember (UuidV4.ext hv)
      exact ⟨rfl, rfl⟩
    | exit t now =>
      cases hs with
      | delete ht =>
        refine absurd ?_ (hsoc.hosted.unbroken t)
        rw [ht]
        trivial

/-- A client whose writer waits at its `select` is registered. -/
lemma Sociable.registered_of_select (h : Sociable P w)
    (hy : w.server.pc (.write y) = .select) : y ∈ w.server.clients := by
  refine h.joined y fun habsent => ?_
  have hidle := (h.hosted.server.started y).2.mpr
  rw [hy] at hidle
  refine absurd (hidle fun hdone => ?_) (by simp)
  rw [hdone] at habsent
  exact habsent

/-- The reader of `x` reads a frame. -/
lemma Attended.read (h : Attended P x y E w) (hsoc : Sociable P w)
    (hE : y ∈ w.server.clients ∨ ∀ e, E e) {f : Frame} {now : Text} {s : Server}
    (hs : GoServer.Step w.server (.readFrame x f.bytes now) s)
    (hreading : w.server.pc (.read x) = .reading) {u : Update} (hmeant : Meant (P.uuid x) f now u)
    {w' : World}
    (hw : w' = { w with server := s, down := w.sent (.readFrame x f.bytes now) })
    (htold : w'.told P x y = w.told P x y)
    (huttered : w'.uttered x = w.uttered x ++ (utterance f).toList) :
    Attended P x y E w' := by
  subst hw
  obtain ⟨-, huuid⟩ := hsoc.courteous.uuid_of_reading hreading
  obtain ⟨e, m, he, hr, hwf⟩ := reply_of_meant hmeant huuid
  have hpc : s.pc (.read x) = w.server.loop (.others (P.uuid x).text)
      ⟨x, m, .frame (w.server.frames x) e.type⟩ := by
    cases hs with
    | readFrame => rw [GoServer.readFrame_pc, if_pos rfl, GoServer.handled_send he hr]
  have howed : owedText (P.uuid x).text y (s.pc (.read x)) = (utterance f).toList := by
    rw [hpc, Server.loop, owedText, if_neg (Finset.notMem_empty y)]
    dsimp only
    rw [textOf_of_meant hmeant hwf, if_pos rfl]
  obtain ⟨earlier, hearlier, hsplit⟩ := h.split
  rw [hreading, owedText_of_loop rfl, List.append_nil] at hsplit
  refine ⟨⟨earlier, hearlier, ?_⟩, ?_, ?_, ?_⟩
  · rw [howed, htold, huttered, hsplit]
  · intro l hl hpresent _
    -- a client that is not there when the loop begins has heard nothing
    rw [hpc] at hl
    obtain rfl := Option.some.inj hl
    rw [htold]
    exact ⟨h.absent hpresent, hE.resolve_left hpresent _⟩
  · intro hy
    rw [htold]
    exact h.absent fun hc => hy (hs.clients_subset hsoc.hosted.unbroken hc)
  · rw [hpc]
    trivial

/-- The reader of `x` hands `y` what it owes. -/
lemma Attended.hand (h : Attended P x y E w) (hsoc : Sociable P w) {s : Server}
    (hs : GoServer.Step w.server (.handoff (.read x) y) s) {l : RangeLoop}
    (hl : w.server.pc (.read x) = .send l y) {w' : World}
    (hw : w' = { w with server := s, down := w.sent (.handoff (.read x) y) })
    (htold : w'.told P x y
      = w.told P x y ++ (textOf (P.uuid x).text l.packet.message.bytes).toList)
    (huttered : w'.uttered x = w.uttered x) : Attended P x y E w' := by
  subst hw
  have hseen : y ∈ l.seen := by
    have hmarked := h.marked
    rw [hl] at hmarked
    exact hmarked
  have hpc : s.pc (.read x) = .range l := by
    cases hs with
    | handoff ht hw =>
      rw [hl] at ht
      cases ht
      rw [Server.goto_pc_of_ne (by simp), Server.goto_pc_self]
  have hnone : owedText (P.uuid x).text y (s.pc (.read x)) = [] := by
    rw [hpc, owedText, if_pos hseen]
  have hregistered : y ∈ w.server.clients := by
    cases hs with
    | handoff ht hw => exact hsoc.registered_of_select hw
  obtain ⟨earlier, hearlier, hsplit⟩ := h.split
  rw [hl, owedText, if_neg (fun hc => hc.1 rfl)] at hsplit
  refine ⟨⟨earlier, hearlier, ?_⟩, ?_, ?_, ?_⟩
  · rw [hnone, htold, huttered, hsplit]
    simp
  · intro l' _ _ hne
    exact absurd hnone hne
  · intro hy
    exact absurd (hs.clients_subset hsoc.hosted.unbroken hregistered) hy
  · rw [hpc]
    trivial

/-- The loop of the reader of `x` ends: a client that it still owed its text has just come. -/
lemma Attended.passOver (h : Attended P x y E w) (hsoc : Sociable P w) (hown : OwnLoops P w)
    (hx : x ∈ P.members) (hne : x ≠ y) (hE : y ∈ w.server.clients ∨ ∀ e, E e) {l : RangeLoop}
    (hl : w.server.pc (.read x) = .range l) (hexhausted : w.server.Exhausted l)
    (howed : owedText (P.uuid x).text y (.range l) ≠ []) :
    w.told P x y = [] ∧ E (w.uttered x) := by
  have hloop : (w.server.pc (.read x)).loop? = some l := by
    rw [hl]
    rfl
  obtain ⟨hseen, htext⟩ := exists_of_owedText howed
  obtain ⟨-, hpeers⟩ := hown _ l hloop x hx htext
  by_cases hy : y ∈ w.server.clients
  · refine h.late l hloop (fun hpresent => hseen (hexhausted y hpresent hy ?_)) ?_
    · obtain ⟨hmember, huuid⟩ := hsoc.hosted.registered hy
      rw [hpeers, huuid, Peers.admits, bne_iff_ne]
      exact fun he => hne (P.distinct x hx y hmember (UuidV4.ext he.symm))
    · rw [hl]
      exact howed
  · exact ⟨h.absent hy, hE.resolve_left hy _⟩

theorem Attended.server_step (h : Attended P x y E w) (hsoc : Sociable P w) (hown : OwnLoops P w)
    (hx : x ∈ P.members) (hne : x ≠ y) (hE : y ∈ w.server.clients ∨ ∀ e, E e) {a : Act}
    {s : Server} (ha : w.serves P a) (hs : GoServer.Step w.server a s) :
    Attended P x y E { w with server := s, down := w.sent a } := by
  rcases hsoc.uttered_cases ha hs x with ⟨hread, huttered⟩ | ⟨f, now, rfl, hreading, ⟨u, hmeant⟩,
    huttered⟩
  · rcases told_cases (y := y) hown hx hs with htold | ⟨l, rfl, hl, htold⟩
    · by_cases hhand : a = .handoff (.read x) y
      · subst hhand
        rcases hs.received_cases y with hr | ⟨t, l, ht, hl, -⟩
        · -- what is handed over is received
          cases hs with
          | handoff => simp at hr
        · obtain ⟨rfl, -⟩ := Act.handoff.inj ht
          refine h.hand hsoc hs hl rfl ?_ huttered
          rw [World.told, (hs.handed hl).1, List.filterMap_append, World.told]
          cases htext : textOf (P.uuid x).text l.packet.message.bytes <;> simp [htext]
      have habsent : y ∉ s.clients →
          World.told P { w with server := s, down := w.sent a } x y = [] := by
        intro hy
        rw [htold]
        exact h.absent fun hc => hy (hs.clients_subset hsoc.hosted.unbroken hc)
      rcases hs.goes hsoc.hosted.server.started (.read x) with hpc | hg
      · refine ⟨?_, ?_, habsent, ?_⟩
        · dsimp only
          rw [htold, huttered, hpc]
          exact h.split
        · dsimp only
          rw [htold, huttered, hpc]
          exact h.late
        · dsimp only
          rw [hpc]
          exact h.marked
      · have hleaving := hsoc.hosted.unbroken (.read x)
        rcases owedText_of_goes (v := (P.uuid x).text) hg hread hhand hleaving with
          ⟨howed, hpresent⟩ | ⟨howed, hloop, l, hl, hexhausted⟩
        · refine ⟨?_, ?_, habsent, hg.marked⟩
          · dsimp only
            rw [htold, huttered, howed]
            exact h.split
          · intro l' hl' hy howed'
            obtain ⟨l, hl, he⟩ := hpresent l' hl'
            dsimp only at howed'
            rw [he] at hy
            rw [howed] at howed'
            rw [htold, huttered]
            exact h.late l hl hy howed'
        · refine ⟨?_, ?_, habsent, hg.marked⟩
          · dsimp only
            rw [htold, huttered, howed]
            by_cases hnone : owedText (P.uuid x).text y (.range l) = []
            · rw [← hnone, ← hl]
              exact h.split
            · obtain ⟨hnothing, hE'⟩ := h.passOver hsoc hown hx hne hE hl hexhausted hnone
              exact ⟨w.uttered x, hE', by rw [hnothing]; simp⟩
          · intro l' hl'
            dsimp only at hl'
            rw [hloop] at hl'
            cases hl'
    · exact h.hand hsoc hs hl rfl htold huttered
  · have htold : World.told P { w with
        server := s, down := w.sent (.readFrame x f.bytes now) } x y = w.told P x y := by
      rcases told_cases (y := y) hown hx hs with htold | ⟨l, hhand, -⟩
      · exact htold
      · cases hhand
    exact h.read hsoc hE hs hreading hmeant rfl htold huttered

/-! ### Steps of a client -/

/-- The text that a step of a client writes. -/
def speaks (x : ClientId) (w : World) : WorldAct → Option Text
  | .client i (.text true) =>
    if i = x ∧ (w.client i).text then some (w.client i).textmessage.text else none
  | _ => none

/-- The chat message of somebody else that a step shows on the screen of a client. -/
def hears (y : ClientId) (w : World) : WorldAct → Option (Text × TextContext)
  | .client i a => if i = y then (w.client i).heard a else none
  | _ => none

/-- The texts that a client has written in a run, in this order. -/
def said (x : ClientId) (l : List (World × WorldAct)) : List Text :=
  l.filterMap fun s => speaks x s.1 s.2

/-- The chat messages that a client has shown in a run, in this order. -/
def heardBy (y : ClientId) (l : List (World × WorldAct)) : List (Text × TextContext) :=
  l.filterMap fun s => hears y s.1 s.2

/-- The texts of the first client among them. -/
def shown (P : Party) (x y : ClientId) (l : List (World × WorldAct)) : List Text :=
  (heardBy y l).filterMap (textFrom (P.uuid x).text)

lemma said_snoc (x : ClientId) (l : List (World × WorldAct)) (w : World) (a : WorldAct) :
    said x (l ++ [(w, a)]) = said x l ++ (speaks x w a).toList := by
  rw [said, List.filterMap_append, ← said]
  cases hs : speaks x w a <;> simp [hs]

lemma heardBy_snoc (y : ClientId) (l : List (World × WorldAct)) (w : World) (a : WorldAct) :
    heardBy y (l ++ [(w, a)]) = heardBy y l ++ (hears y w a).toList := by
  rw [heardBy, List.filterMap_append, ← heardBy]
  cases hs : hears y w a <;> simp [hs]

/-- The line that a step brings into the window of a client. -/
def lineAt (y : ClientId) (w : World) : WorldAct → Option TextContext
  | .client i a => if i = y then (w.client i).line a else none
  | _ => none

/-- The lines that a run has brought into the window of a client, oldest first. -/
def linesAt (y : ClientId) (l : List (World × WorldAct)) : List TextContext :=
  l.filterMap fun s => lineAt y s.1 s.2

lemma lineAt_of_hears {a : WorldAct} {fromUUID : Text} {entry : TextContext}
    (h : hears y w a = some (fromUUID, entry)) : lineAt y w a = some entry := by
  cases a with
  | client i a =>
    rw [hears] at h
    rw [lineAt]
    split_ifs at h with hi
    rw [if_pos hi, Client.line, h]
    rfl
  | server a => cases h
  | deliver i => cases h

/-- The chat messages that a client has shown are lines of its window. -/
lemma heardBy_sublist (y : ClientId) (l : List (World × WorldAct)) :
    List.Sublist ((heardBy y l).map Prod.snd) (linesAt y l) := by
  induction l with
  | nil => exact List.Sublist.refl _
  | cons s l ih =>
    rw [heardBy, linesAt, List.filterMap_cons, List.filterMap_cons]
    cases hs : hears y s.1 s.2 with
    | none =>
      cases lineAt y s.1 s.2 with
      | none => exact ih
      | some line => exact ih.cons line
    | some said =>
      rw [lineAt_of_hears hs]
      exact ih.cons_cons said.2

/-- What the server has read stays what it is when a client moves. -/
lemma uttered_client_step {i : ClientId} {a : ClientAct} {c : Client}
    (hs : ClientStep (w.client i) a c)
    (hframes : w.server.frames i ≤ (w.client i).session.written.length)
    (down : ClientId → List Text) (x : ClientId) :
    World.uttered { w with client := Function.update w.client i c, down := down } x
      = w.uttered x := by
  rw [World.uttered, World.uttered]
  dsimp only
  by_cases hx : x = i
  · subst hx
    obtain ⟨more, hmore⟩ := hs.sessionStep.written
    rw [Function.update_self, ← hmore, List.take_append_of_le_length hframes]
  · rw [Function.update_of_ne hx]

lemma Attended.client_step (h : Attended P x y E w) {i : ClientId} {a : ClientAct} {c : Client}
    (hs : ClientStep (w.client i) a c)
    (hframes : w.server.frames i ≤ (w.client i).session.written.length)
    (down : ClientId → List Text) :
    Attended P x y E { w with client := Function.update w.client i c, down := down } where
  split := by
    rw [uttered_client_step hs hframes]
    exact h.split
  late := by
    rw [uttered_client_step hs hframes]
    exact h.late
  absent := h.absent
  marked := h.marked

/-- What a client writes in one step: positions and colours, which are no texts, or the text that it
sends. -/
lemma Sociable.written_step (h : Sociable P w) {i : ClientId} {a : ClientAct} {c : Client}
    (ho : Outspoken w (.client i a)) (hs : ClientStep (w.client i) a c) :
    c.session.written.filterMap utterance
      = (w.client i).session.written.filterMap utterance
        ++ (speaks i w (.client i a)).toList := by
  by_cases htext : a = .text true ∧ (w.client i).text
  · obtain ⟨rfl, ht⟩ := htext
    have hsession : c.session
        = (w.client i).session.sendTextMessage true (w.client i).textmessage := by
      cases hs with
      | text =>
        dsimp only
        rw [Client.sendText, if_pos ht]
    have hframe : utterance ⟨(w.client i).session.currColor,
        textMsgFrame (w.client i).session.currColor.text (w.client i).session.uuid.text []
          (w.client i).textmessage.text true⟩ = some (w.client i).textmessage.text := by
      have hbytes : (⟨(w.client i).session.currColor,
          textMsgFrame (w.client i).session.currColor.text (w.client i).session.uuid.text []
            (w.client i).textmessage.text true⟩ : Frame).bytes
          = chatFrame (w.client i).session.uuid (w.client i).session.currColor
            (w.client i).textmessage := by
        rw [chatFrame]
      exact utterance_chatFrame (ho rfl ht) hbytes
    rw [hsession, Session.sendTextMessage, if_pos rfl, Session.writeNow, speaks,
      if_pos ⟨rfl, ht⟩]
    dsimp only
    rw [List.filterMap_append, List.filterMap_cons, hframe]
    rfl
  · have hsilent : speaks i w (.client i a) = none := by
      cases a with
      | text ready =>
        cases ready with
        | false => rfl
        | true =>
          rw [speaks, if_neg]
          exact fun hc => htext ⟨rfl, hc.2⟩
      | _ => rfl
    rw [hsilent, Option.toList_none, List.append_nil]
    have hstep := hs.sessionStep
    generalize c.session = t at hstep ⊢
    cases hstep with
    | text ha ht => exact absurd ⟨ha, ht⟩ htext
    | color k =>
      have hframe : utterance ⟨k, colorFrame k.text⟩ = none :=
        utterance_colorFrame (k := k) (by dsimp only)
      rw [Session.sendColorUpdate, if_pos rfl, Session.writeNow]
      dsimp only
      rw [List.filterMap_append, List.filterMap_cons, hframe]
      simp
    | @write tmp hw =>
      obtain ⟨q, hq⟩ := List.head?_eq_some_iff.mp ((h.courteous.paced i).writing tmp hw)
      have hframe : utterance tmp = none := h.queued i tmp (by rw [hq]; simp)
      dsimp only
      rw [List.filterMap_append, List.filterMap_cons, hframe]
      simp
    | _ => rfl

/-! ### Runs -/

lemma Attended.start (P : Party) (x y : ClientId) :
    Attended P x y (fun _ => True) (World.start P) where
  split := ⟨[], trivial, rfl⟩
  late := by
    intro l hl
    cases hl
  absent := fun _ => rfl
  marked := trivial

/-- What the texts before those that `y` has received satisfy can be read off the texts that the
server has read. -/
lemma Attended.refine (h : Attended P x y (fun _ => True) w)
    (hE : ∀ e, e <+: w.uttered x → E e) : Attended P x y E w where
  split := by
    obtain ⟨earlier, -, hsplit⟩ := h.split
    refine ⟨earlier, hE _ ?_, hsplit⟩
    rw [hsplit, List.append_assoc]
    exact List.prefix_append _ _
  late := fun l hl hy howed => ⟨(h.late l hl hy howed).1, hE _ (List.prefix_refl _)⟩
  absent := h.absent
  marked := h.marked

/-- What holds in every state of a run in which the texts need no escapes and nobody leaves. -/
structure Conversing (P : Party) (w : World) : Prop where
  sociable : Sociable P w
  loops : OwnLoops P w

theorem Conversing.step (h : Conversing P w) {a : WorldAct} {w' : World} (ha : Outspoken w a)
    (hs : WorldStep P w a w') (hno : Staying w') : Conversing P w' := by
  refine ⟨h.sociable.step ha hs hno, ?_⟩
  cases hs with
  | server hserves hs => exact h.loops.server_step h.sociable hserves hs
  | client => exact h.loops
  | deliver => exact h.loops

theorem Attended.step (h : Attended P x y E w) (hconv : Conversing P w) (hx : x ∈ P.members)
    (hne : x ≠ y) (hE : y ∈ w.server.clients ∨ ∀ e, E e) {a : WorldAct} {w' : World}
    (hs : WorldStep P w a w') : Attended P x y E w' := by
  have hframes := hconv.sociable.hosted.frames
  cases hs with
  | server hserves hs => exact h.server_step hconv.sociable hconv.loops hx hne hE hserves hs
  | @client i a c hm hs => exact h.client_step hs (hframes i) _
  | @deliver i msg rest c hd hs => exact h.client_step hs (hframes i) _

variable {l : List (World × WorldAct)}

lemma conversing_of_exec (h : (world P).Exec l w) (hspoken : Machine.Meets Outspoken l)
    (hstay : Machine.Always Staying l w) : Conversing P w := by
  refine h.invariant_of_always (P := Conversing P) ⟨Sociable.start P, ?_⟩ ?_ hspoken hstay
  · intro t l hl
    cases hl
  · intro w a w' hconv ha hno hs
    exact hconv.step ha (worldStep_of_step hs) hno

lemma attended_of_exec (h : (world P).Exec l w) (hspoken : Machine.Meets Outspoken l)
    (hstay : Machine.Always Staying l w) (hx : x ∈ P.members) (hne : x ≠ y) :
    Attended P x y (fun _ => True) w := by
  induction h with
  | nil => exact Attended.start P x y
  | @snoc l w w' a hl hs ih =>
    obtain ⟨hspoken, -⟩ := Machine.meets_snoc.mp hspoken
    obtain ⟨hstay, -⟩ := Machine.always_snoc.mp hstay
    have hconv := conversing_of_exec hl hspoken hstay
    exact (ih hspoken hstay).step hconv hx hne (Or.inr fun _ => trivial) (worldStep_of_step hs)

/-- One client moves: what it adds to what it has written is what it says. -/
lemma Sociable.written_update (h : Sociable P w) {i : ClientId} {a : ClientAct} {c : Client}
    (ho : Outspoken w (.client i a)) (hs : ClientStep (w.client i) a c) (x : ClientId) :
    (Function.update w.client i c x).session.written.filterMap utterance
      = (w.client x).session.written.filterMap utterance
        ++ (speaks x w (.client i a)).toList := by
  by_cases hx : x = i
  · subst hx
    rw [Function.update_self]
    exact h.written_step ho hs
  · have hsilent : speaks x w (.client i a) = none := by
      cases a with
      | text ready =>
        cases ready with
        | false => rfl
        | true =>
          rw [speaks, if_neg]
          exact fun hc => hx hc.1.symm
      | _ => rfl
    rw [Function.update_of_ne hx, hsilent, Option.toList_none, List.append_nil]

/-- What a client has said is what its session has written. -/
lemma said_of_exec (h : (world P).Exec l w) (hspoken : Machine.Meets Outspoken l)
    (hstay : Machine.Always Staying l w) (x : ClientId) :
    said x l = (w.client x).session.written.filterMap utterance := by
  induction h with
  | nil => rfl
  | @snoc l w w' a hl hs ih =>
    obtain ⟨hspoken, ha⟩ := Machine.meets_snoc.mp hspoken
    obtain ⟨hstay, -⟩ := Machine.always_snoc.mp hstay
    have hsoc := (conversing_of_exec hl hspoken hstay).sociable
    rw [said_snoc, ih hspoken hstay]
    cases worldStep_of_step hs with
    | server hserves hserver => simp [speaks]
    | @client i b c hm hclient => exact (hsoc.written_update ha hclient x).symm
    | @deliver i msg rest c hd hclient =>
      have ho : Outspoken w (.client i (.onMessage msg)) := trivial
      exact (hsoc.written_update ho hclient x).symm

/-- The chat messages that a client has taken and those that it has still to take are those that
have arrived. -/
lemma heardBy_of_exec (h : (world P).Exec l w) (hspoken : Machine.Meets Outspoken l)
    (hstay : Machine.Always Staying l w) (y : ClientId) :
    heardBy y l ++ (w.client y).unheard
      = (w.client y).arrived.filterMap (chatOf (w.client y).clientUUID) := by
  induction h with
  | nil => rfl
  | @snoc l w w' a hl hs ih =>
    obtain ⟨hspoken, ha⟩ := Machine.meets_snoc.mp hspoken
    obtain ⟨hstay, -⟩ := Machine.always_snoc.mp hstay
    have hsoc := (conversing_of_exec hl hspoken hstay).sociable
    have hold := ih hspoken hstay
    rw [heardBy_snoc]
    cases worldStep_of_step hs with
    | server hserves hserver =>
      rw [show hears y w (.server _) = none from rfl, Option.toList_none, List.append_nil]
      exact hold
    | @client i b c hm hclient =>
      have hbrings : Brings (fun _ => True) b := by
        cases b with
        | onMessage msg => exact absurd rfl (hm msg)
        | _ => trivial
      rw [hears]
      dsimp only
      by_cases hy : y = i
      · subst hy
        rw [if_pos rfl, Function.update_self]
        exact (hsoc.courteous.supplied y).heard_step hbrings hclient hold
      · rw [if_neg (Ne.symm hy), Function.update_of_ne hy, Option.toList_none, List.append_nil]
        exact hold
    | @deliver i msg rest c hd hclient =>
      rw [show hears y w (.deliver i) = none from rfl]
      dsimp only
      by_cases hy : y = i
      · subst hy
        rw [Function.update_self]
        exact (hsoc.courteous.supplied y).heard_step (hsoc.courteous.brings hd) hclient hold
      · rw [Function.update_of_ne hy, Option.toList_none, List.append_nil]
        exact hold

lemma newest_of_exec (h : (world P).Exec l w) (y : ClientId) :
    Newest (linesAt y l) (w.client y).gui.textmessagesdisplay := by
  induction h with
  | nil => rfl
  | @snoc l w w' a hl hs ih =>
    have hlines : linesAt y (l ++ [(w, a)]) = linesAt y l ++ (lineAt y w a).toList := by
      rw [linesAt, List.filterMap_append, ← linesAt]
      cases hline : lineAt y w a <;> simp [hline]
    rw [hlines]
    cases worldStep_of_step hs with
    | server hserves hserver => simpa [lineAt] using ih
    | @client i b c hm hclient =>
      rw [lineAt]
      dsimp only
      by_cases hy : i = y
      · subst hy
        rw [if_pos rfl, Function.update_self]
        exact ih.step hclient
      · rw [if_neg hy, Function.update_of_ne (Ne.symm hy), Option.toList_none, List.append_nil]
        exact ih
    | @deliver i msg rest c hd hclient =>
      rw [show lineAt y w (.deliver i) = none from rfl, Option.toList_none, List.append_nil]
      dsimp only
      by_cases hy : i = y
      · subst hy
        rw [Function.update_self]
        simpa [Client.line, Client.heard, Client.echoed] using ih.step hclient
      · rw [Function.update_of_ne (Ne.symm hy)]
        exact ih

/-- What a client hears it shows: in a run of the whole system, too, the window shows the lines that
have come in last, and the chat messages that the client has heard are among the lines, in this
order. -/
theorem heard_in_window (h : (world P).Exec l w) (y : ClientId) :
    Newest (linesAt y l) (w.client y).gui.textmessagesdisplay ∧
      List.Sublist ((heardBy y l).map Prod.snd) (linesAt y l) :=
  ⟨newest_of_exec h y, heardBy_sublist y l⟩

/-- The texts of another client that `y` has shown, and those that are on their way from its writer,
are those that the writer has received. -/
lemma shown_append (h : (world P).Exec l w) (hspoken : Machine.Meets Outspoken l)
    (hstay : Machine.Always Staying l w) (hx : x ∈ P.members) (hy : y ∈ P.members)
    (hne : x ≠ y) : shown P x y l ++ ((w.client y).unheard.filterMap (textFrom (P.uuid x).text)
      ++ (w.down y ++ (w.server.pc (.write y)).writes).filterMap (textOf (P.uuid x).text))
        = w.told P x y := by
  have hsoc := (conversing_of_exec h hspoken hstay).sociable
  have hown : (P.uuid x).text ≠ (w.client y).clientUUID := by
    rw [Client.clientUUID, hsoc.hosted.owner y]
    exact fun he => hne (P.distinct x hx y hy (UuidV4.ext he))
  have hchat : (fun s => (chatOf (w.client y).clientUUID s).bind (textFrom (P.uuid x).text))
      = textOf (P.uuid x).text := funext fun s => textFrom_of_chatOf hown s
  have harrived := congrArg (List.filterMap (textFrom (P.uuid x).text))
    (heardBy_of_exec h hspoken hstay y)
  rw [List.filterMap_append, ← shown, List.filterMap_filterMap, hchat] at harrived
  rw [World.told, ← hsoc.passed (P.uuid x).text y, World.inbox, List.append_assoc,
    List.filterMap_append (l := (w.client y).arrived), ← harrived, List.append_assoc]

/-- **A conversation has no holes.**  In every run in which the texts need no escapes and nobody
leaves, the texts of a client that another one has shown are consecutive texts that it has said, in
the order in which it said them. -/
theorem chat_consecutive (h : (world P).Exec l w) (hspoken : Machine.Meets Outspoken l)
    (hstay : Machine.Always Staying l w) (hx : x ∈ P.members) (hy : y ∈ P.members)
    (hne : x ≠ y) : shown P x y l <:+: said x l := by
  obtain ⟨earlier, -, hsplit⟩ := (attended_of_exec (y := y) h hspoken hstay hx hne).split
  have hshown := shown_append h hspoken hstay hx hy hne
  have hread : w.uttered x <+: said x l := by
    rw [said_of_exec h hspoken hstay x, World.uttered]
    exact (List.take_prefix _ _).filterMap _
  obtain ⟨unread, hunread⟩ := hread
  rw [← hunread, hsplit, ← hshown]
  refine ⟨earlier, ((w.client y).unheard.filterMap (textFrom (P.uuid x).text)
    ++ (w.down y ++ (w.server.pc (.write y)).writes).filterMap (textOf (P.uuid x).text))
    ++ owedText (P.uuid x).text y (w.server.pc (.read x)) ++ unread, ?_⟩
  simp only [List.append_assoc]

/-- Since a client was registered, nothing has been said that it has missed. -/
lemma attended_since (h : (world P).Exec l w) (hspoken : Machine.Meets Outspoken l)
    (hstay : Machine.Always Staying l w) (hx : x ∈ P.members) (hne : x ≠ y)
    {l₁ l₂ : List (World × WorldAct)} {w₁ : World} {a₁ : WorldAct}
    (hl : l = l₁ ++ (w₁, a₁) :: l₂) (hy : y ∈ w₁.server.clients) :
    Attended P x y (fun e => e.length ≤ (said x l₁).length) w ∧ y ∈ w.server.clients := by
  induction h generalizing l₂ with
  | nil => simp at hl
  | @snoc l w w' a hexec hs ih =>
    obtain ⟨hspoken, -⟩ := Machine.meets_snoc.mp hspoken
    obtain ⟨hstay, -⟩ := Machine.always_snoc.mp hstay
    have hconv := conversing_of_exec hexec hspoken hstay
    have hstep := worldStep_of_step hs
    have hbefore : Attended P x y (fun e => e.length ≤ (said x l₁).length) w ∧
        y ∈ w.server.clients := by
      rcases Machine.snoc_eq_append_cons hl with ⟨rfl, he, -⟩ | ⟨l₃, -, hl₃⟩
      · obtain ⟨rfl, rfl⟩ := Prod.mk.inj he
        refine ⟨(attended_of_exec hexec hspoken hstay hx hne).refine fun e he => ?_, hy⟩
        -- what has been read has been said before
        rw [said_of_exec hexec hspoken hstay x]
        refine he.length_le.trans ?_
        rw [World.uttered]
        exact ((List.take_prefix _ _).filterMap _).length_le
      · exact ih hspoken hstay hl₃
    refine ⟨hbefore.1.step hconv hx hne (Or.inl hbefore.2) hstep, ?_⟩
    cases hstep with
    | server hserves hserver =>
      exact hserver.clients_subset hconv.sociable.hosted.unbroken hbefore.2
    | client => exact hbefore.2
    | deliver => exact hbefore.2

/-- **What is said is heard.**  In every such run, whenever nothing is in progress at two clients,
what the second has shown is the end of what the first has said, and nothing is missing that was
said since the second was registered. -/
theorem chat_delivered (h : (world P).Exec l w) (hspoken : Machine.Meets Outspoken l)
    (hstay : Machine.Always Staying l w) (hx : x ∈ P.members) (hy : y ∈ P.members)
    (hne : x ≠ y) (hrestx : AtRest w x) (hresty : AtRest w y)
    {l₁ l₂ : List (World × WorldAct)} {w₁ : World} {a₁ : WorldAct}
    (hl : l = l₁ ++ (w₁, a₁) :: l₂) (hregistered : y ∈ w₁.server.clients) :
    shown P x y l <:+ said x l ∧ said x ((w₁, a₁) :: l₂) <:+ shown P x y l := by
  obtain ⟨⟨earlier, hearlier, hsplit⟩, -⟩ :=
    (attended_since h hspoken hstay hx hne hl hregistered).1
  have hsaid : said x l = earlier ++ shown P x y l := by
    have hall : w.uttered x = said x l := by
      have hup := hrestx.up
      rw [World.up, List.drop_eq_nil_iff] at hup
      rw [said_of_exec h hspoken hstay x, World.uttered, List.take_of_length_le hup]
    have howed : owedText (P.uuid x).text y (w.server.pc (.read x)) = [] := by
      rcases hrestx.read with hp | hp <;> rw [hp] <;> exact owedText_of_loop rfl
    have hwrites : (w.server.pc (.write y)).writes = [] := by
      rcases hresty.write with hp | hp <;> rw [hp] <;> rfl
    have hunheard : (w.client y).unheard = [] := by
      have hdrained := hresty.drained
      simp [Client.unheard, Client.untaken, Client.unrelayed, hdrained.ws, hdrained.gui]
    have hshown := shown_append h hspoken hstay hx hy hne
    rw [hunheard, hresty.down, hwrites] at hshown
    rw [← hall, hsplit, howed, ← hshown]
    simp
  refine ⟨⟨earlier, hsaid.symm⟩, ?_⟩
  have hsuffix : said x ((w₁, a₁) :: l₂) <:+ said x l := by
    rw [hl, said, said, List.filterMap_append]
    exact List.suffix_append _ _
  refine List.suffix_of_suffix_length_le hsuffix ⟨earlier, hsaid.symm⟩ ?_
  have hcount : said x l = said x l₁ ++ said x ((w₁, a₁) :: l₂) := by
    rw [hl, said, List.filterMap_append]
    rfl
  have hlength := congrArg List.length (hcount.symm.trans hsaid)
  rw [List.length_append, List.length_append] at hlength
  omega

end

/-! ### A greeting -/

/-- What is said before anybody else is there. -/
def earlyText : TypedText where
  text := "anybody".toList
  length := by decide
  range := by decide

def greetingText : TypedText where
  text := "hi".toList
  length := by decide
  range := by decide

def furtherText : TypedText where
  text := "lap two".toList
  length := by decide
  range := by decide

/-- The first client says something when nobody is there, and the two meet. -/
def waiting : List WorldAct :=
  opens ++ utters 0 earlyText ++ [.server (.endRange (.read 0))] ++ follows

/-- Then it says two more things, and the second client takes them. -/
def greeting : List WorldAct :=
  waiting ++ utters 0 greetingText ++ hands (.read 0) 1 ++ takesGui 1
    ++ utters 0 furtherText ++ hands (.read 0) 1 ++ takesGui 1

lemma greeting_runs : ((world pair).run (world pair).init greeting).isSome := by
  decide +kernel

@[irreducible] def greetedWorld : List (World × WorldAct) × World :=
  ((world pair).run (world pair).init greeting).get greeting_runs

lemma exec_greeting : (world pair).Exec greetedWorld.1 greetedWorld.2 := by
  unfold greetedWorld
  exact Machine.exec_get_run greeting_runs

/-- A check that a text needs no escapes, and that nothing breaks. -/
def isOutspoken (x : World × WorldAct) : Bool :=
  match x.2 with
  | .server a => !a.breaks
  | .client i (.text _) =>
    !((x.1.client i).textmessage.text.contains '"' || (x.1.client i).textmessage.text.contains '\\')
  | _ => true

lemma greeting_outspoken : greetedWorld.1.all isOutspoken := by
  decide +kernel

lemma meets_outspoken : Machine.Meets Outspoken greetedWorld.1 := by
  rintro ⟨w, a⟩ hx
  have hcheck := List.all_eq_true.mp greeting_outspoken _ hx
  cases a with
  | client i a =>
    cases a with
    | text ready =>
      intro _ _
      simpa [isOutspoken, NoEscapes] using hcheck
    | _ => trivial
  | _ => trivial

lemma greeting_stays : Machine.Always Staying greetedWorld.1 greetedWorld.2 := by
  refine staying_of_unbroken exec_greeting ?_
  rintro ⟨w, a⟩ hx b hb
  have ha : a = .server b := hb
  have hcheck := List.all_eq_true.mp greeting_outspoken _ hx
  simpa [isOutspoken, ha] using hcheck

/-- The second client has shown the two texts that were said when it was there, and its window has
them, the newer one at the front. -/
theorem chat_consecutive_greeting :
    shown pair 0 1 greetedWorld.1 <:+: said 0 greetedWorld.1 ∧
      said 0 greetedWorld.1 = [earlyText.text, greetingText.text, furtherText.text] ∧
      shown pair 0 1 greetedWorld.1 = [greetingText.text, furtherText.text] ∧
      ((greetedWorld.2.client 1).gui.textmessagesdisplay.map TextContext.text).take 2
        = [furtherText.text, greetingText.text] :=
  ⟨chat_consecutive exec_greeting meets_outspoken greeting_stays (by decide) (by decide)
    (by decide), by decide +kernel⟩

lemma greeted_check : AtRest greetedWorld.2 0 ∧ AtRest greetedWorld.2 1 ∧
    (greetedWorld.1[waiting.length]?).any fun x => decide (1 ∈ x.1.server.clients) := by
  decide +kernel

theorem chat_delivered_greeting :
    said 0 (greetedWorld.1.drop waiting.length) <:+ shown pair 0 1 greetedWorld.1 ∧
      said 0 (greetedWorld.1.drop waiting.length) = [greetingText.text, furtherText.text] := by
  obtain ⟨hrestx, hresty, hmiddle⟩ := greeted_check
  obtain ⟨⟨w₁, a₁⟩, hget, hregistered⟩ := (Option.any_eq_true _ _).mp hmiddle
  obtain ⟨hlt, hget⟩ := List.getElem?_eq_some_iff.mp hget
  have hdrop : greetedWorld.1.drop waiting.length
      = (w₁, a₁) :: greetedWorld.1.drop (waiting.length + 1) := by
    rw [List.drop_eq_getElem_cons hlt, hget]
  have hsplit : greetedWorld.1 = greetedWorld.1.take waiting.length
      ++ (w₁, a₁) :: greetedWorld.1.drop (waiting.length + 1) := by
    rw [← hdrop, List.take_append_drop]
  refine ⟨?_, by decide +kernel⟩
  rw [hdrop]
  exact (chat_delivered exec_greeting meets_outspoken greeting_stays (by decide) (by decide)
    (by decide) hrestx hresty hsplit (of_decide_eq_true hregistered)).2

end MultiplayerCars.Wire
