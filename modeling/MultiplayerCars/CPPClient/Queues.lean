import MultiplayerCars.CPPClient.Client
import MultiplayerCars.CPPClient.Updates

/-!
# The way of a message through the queues

A message arrives, is moved to the queue of positions or to the queue of the rest, and is taken
from there by a block of the main loop; a batch pass drops positions.  Each thread reads the front
of a queue first and pops it later: a message that waits only to be popped counts as gone.
-/

namespace MultiplayerCars.CPPClient

open Lib Lib.Json

/-! ### Where a message belongs -/

/-- The update that a message stands for. -/
def updateOf (s : Text) : Option Update := (domParse s).bind readUpdate

/-- The message goes to the queue of positions. -/
def lane (s : Text) : Bool := (updateOf s).any Update.isPosition

lemma WellFormed.updateOf_eq {s : Text} {u : Update} (h : WellFormed s u) :
    updateOf s = some u := by
  obtain ⟨type, -, -, o, ho, -, hu⟩ := h
  rw [updateOf, ho]
  exact hu

lemma WellFormed.lane_eq {s : Text} {u : Update} (h : WellFormed s u) :
    lane s = u.isPosition := by
  rw [lane, h.updateOf_eq]
  rfl

namespace Client

/-- The messages that the relay has still to move. -/
def unrelayed (c : Client) : List Text :=
  if c.relayPc = .pop then c.wsUpdatedJsonQueue.tail else c.wsUpdatedJsonQueue

/-- The messages that a block has still to take: of positions (`true`), or of the rest. -/
def untaken (c : Client) : Bool → List Text
  | true => if c.mainPc = .posPop then c.positionJsonQueue.tail else c.positionJsonQueue
  | false => if c.mainPc = .guiPop then c.guiJsonQueue.tail else c.guiJsonQueue

end Client

/-- The batch pass pops a position, which no block has taken. -/
def ClientAct.drops : ClientAct → Bool
  | .discardPop => true
  | _ => false

/-- The queue from which an action takes a message. -/
def ClientAct.takes : ClientAct → Option Bool
  | .posFront => some true
  | .guiFront => some false
  | _ => none

/-! ### What waits -/

/-- The size that the loop of a batch pass has found is not too great: only the main loop pops
positions, so a test that is stale has become true all the more. -/
def Client.Spares (c : Client) : Prop :=
  ∀ i, c.mainPc = .discardPop i → i + 1 < c.positionJsonQueue.length

lemma Client.Spares.step {c c' : Client} {a : ClientAct} (h : c.Spares) (hs : ClientStep c a c') :
    c'.Spares := by
  by_cases ha : a.roams
  · exact fun i hpc => absurd hpc ((hs.emptyHanded ha).2.discardPop i)
  cases hs with
  | movePosition hpc =>
    intro i hi
    have hlt := h i hi
    rw [List.length_append]
    omega
  | posFront | guiFront =>
    obtain ⟨pc, hpc', hc⟩ := exists_endBlock c _ _
    rw [hc]
    intro i hi
    rcases hpc' with rfl | rfl <;> cases hi
  | posPop | guiPop | discardEnd | discardPop =>
    intro i hi
    cases hi
  | discardTest hpc hlt =>
    intro i hi
    rw [← MainPc.discardPop.inj hi]
    exact hlt
  | onMessage | relayFront | moveGui | moveDropped | relayPop | wakeBatchHandler | workerFront
  | workerWrite | workerPop => exact h
  | _ => exact absurd rfl ha

section Supplied

variable {P : Update → Prop} {c c' : Client} {a : ClientAct}

/-- The messages that arrive are well-formed messages of the server that satisfy `P`. -/
def Brings (P : Update → Prop) : ClientAct → Prop
  | .onMessage msg => ∃ u, WellFormed msg u ∧ P u
  | _ => True

/-- Every queue holds what belongs there, and a thread that is about to pop has something to
pop. -/
structure Supplied (P : Update → Prop) (c : Client) : Prop where
  ws : ∀ s ∈ c.wsUpdatedJsonQueue, ∃ u, WellFormed s u ∧ P u
  pos : ∀ s ∈ c.positionJsonQueue, ∃ u, WellFormed s u ∧ P u ∧ u.isPosition
  gui : ∀ s ∈ c.guiJsonQueue, ∃ u, WellFormed s u ∧ P u ∧ ¬ u.isPosition
  moving : ∀ s r, c.relayPc = .move s r → c.wsUpdatedJsonQueue.head? = some s ∧ r = relay s
  relayPop : c.relayPc = .pop → c.wsUpdatedJsonQueue ≠ []
  posPop : c.mainPc = .posPop → c.positionJsonQueue ≠ []
  guiPop : c.mainPc = .guiPop → c.guiJsonQueue ≠ []
  spares : c.Spares

lemma Supplied.start (uuid : UuidV4) : Supplied P (Client.start uuid) := by
  constructor <;> simp [Client.start, Client.Spares]

/-- The main loop goes on to a place where no message waits to be popped. -/
lemma Supplied.goto (h : Supplied P c) (hu : Undisturbed c c') (hp : c'.EmptyHanded) :
    Supplied P c' where
  ws := by
    rw [hu.ws]
    exact h.ws
  pos := by
    rw [hu.pos]
    exact h.pos
  gui := by
    rw [hu.gui]
    exact h.gui
  moving := by
    rw [hu.ws, hu.relayPc]
    exact h.moving
  relayPop := by
    rw [hu.ws, hu.relayPc]
    exact h.relayPop
  posPop := fun hpc => absurd hpc hp.posPop
  guiPop := fun hpc => absurd hpc hp.guiPop
  spares := fun i hpc => absurd hpc (hp.discardPop i)

/-- What the relay is about to move is well formed, and goes where it belongs. -/
lemma Supplied.wellFormed_moving (h : Supplied P c) {s : Text} {r : Route}
    (hpc : c.relayPc = .move s r) :
    ∃ u rest, WellFormed s u ∧ P u ∧ c.wsUpdatedJsonQueue = s :: rest ∧
      r = if u.isPosition then .position else .gui := by
  obtain ⟨hhead, hr⟩ := h.moving s r hpc
  obtain ⟨rest, hrest⟩ := List.head?_eq_some_iff.mp hhead
  obtain ⟨u, hu, hP⟩ := h.ws s (by rw [hrest]; simp)
  exact ⟨u, rest, hu, hP, hrest, by rw [hr, hu.relay_eq]⟩

/-- What goes to the queue of positions is a position. -/
lemma Supplied.wellFormed_position (h : Supplied P c) {s : Text}
    (hpc : c.relayPc = .move s .position) :
    ∃ u rest, WellFormed s u ∧ P u ∧ c.wsUpdatedJsonQueue = s :: rest ∧ u.isPosition := by
  obtain ⟨u, rest, hu, hP, hq, hr⟩ := h.wellFormed_moving hpc
  refine ⟨u, rest, hu, hP, hq, ?_⟩
  by_contra hno
  rw [if_neg hno] at hr
  exact absurd hr (by simp)

lemma Supplied.wellFormed_gui (h : Supplied P c) {s : Text} (hpc : c.relayPc = .move s .gui) :
    ∃ u rest, WellFormed s u ∧ P u ∧ c.wsUpdatedJsonQueue = s :: rest ∧ ¬ u.isPosition := by
  obtain ⟨u, rest, hu, hP, hq, hr⟩ := h.wellFormed_moving hpc
  refine ⟨u, rest, hu, hP, hq, ?_⟩
  intro hyes
  rw [if_pos hyes] at hr
  exact absurd hr (by simp)

/-- A well-formed message is not dropped by the relay. -/
lemma Supplied.not_dropped (h : Supplied P c) (s : Text) : c.relayPc ≠ .move s .dropped := by
  intro hpc
  obtain ⟨u, rest, -, -, -, hr⟩ := h.wellFormed_moving hpc
  split_ifs at hr

theorem Supplied.step (h : Supplied P c) (ho : Brings P a) (hs : ClientStep c a c') :
    Supplied P c' := by
  by_cases ha : a.roams
  · exact h.goto (hs.undisturbed ha) (hs.emptyHanded ha).2
  have hspares := h.spares.step hs
  cases hs with
  | onMessage msg =>
    refine { h with ws := ?_, moving := ?_, relayPop := ?_ }
    · intro s hs
      rcases List.mem_append.mp hs with hs | hs
      · exact h.ws s hs
      · rw [List.mem_singleton.mp hs]
        exact ho
    · intro s r hpc
      obtain ⟨hhead, hr⟩ := h.moving s r hpc
      obtain ⟨rest, hrest⟩ := List.head?_eq_some_iff.mp hhead
      exact ⟨by simp [hrest], hr⟩
    · intro _
      simp
  | @relayFront jsondata rest hpc hq =>
    refine { h with moving := ?_, relayPop := ?_ }
    · intro s r hmove
      simp only [RelayPc.move.injEq] at hmove
      obtain ⟨rfl, rfl⟩ := hmove
      exact ⟨by simp [hq], rfl⟩
    · intro hpop
      exact absurd hpop (by simp)
  | @movePosition jsondata hpc =>
    obtain ⟨u, rest, hu, hP, hq, hpos⟩ := h.wellFormed_position hpc
    refine { h with pos := ?_, moving := ?_, relayPop := ?_, posPop := ?_, spares := hspares }
    · intro s hs
      rcases List.mem_append.mp hs with hs | hs
      · exact h.pos s hs
      · rw [List.mem_singleton.mp hs]
        exact ⟨u, hu, hP, hpos⟩
    · intro s r hmove
      exact absurd hmove (by simp)
    · intro _
      simp [hq]
    · intro _
      simp
  | @moveGui jsondata hpc =>
    obtain ⟨u, rest, hu, hP, hq, hpos⟩ := h.wellFormed_gui hpc
    refine { h with gui := ?_, moving := ?_, relayPop := ?_, guiPop := ?_ }
    · intro s hs
      rcases List.mem_append.mp hs with hs | hs
      · exact h.gui s hs
      · rw [List.mem_singleton.mp hs]
        exact ⟨u, hu, hP, hpos⟩
    · intro s r hmove
      exact absurd hmove (by simp)
    · intro _
      simp [hq]
    · intro _
      simp
  | @moveDropped jsondata hpc => exact absurd hpc (h.not_dropped jsondata)
  | relayPop hpc =>
    refine { h with ws := ?_, moving := ?_, relayPop := ?_ }
    · intro s hs
      exact h.ws s (List.mem_of_mem_tail hs)
    · intro s r hmove
      exact absurd hmove (by simp)
    · intro hpop
      exact absurd hpop (by simp)
  | @posFront front rest hpc hq =>
    -- a well-formed message is read to its end, so the main loop comes to the pop
    obtain ⟨u, hu, -, hp⟩ := h.pos front (by rw [hq]; simp)
    rw [hu.block_position hp c.clientUUID] at hspares ⊢
    refine { h with posPop := ?_, guiPop := ?_, spares := hspares }
    · intro _
      simp [Client.endBlock, hq]
    · intro hpop
      exact absurd hpop (by simp [Client.endBlock])
  | posPop hpc =>
    refine { h with pos := ?_, posPop := ?_, guiPop := ?_, spares := hspares }
    · intro s hs
      exact h.pos s (List.mem_of_mem_tail hs)
    · intro hpop
      exact absurd hpop (by simp)
    · intro hpop
      exact absurd hpop (by simp)
  | @guiFront front rest hpc hq =>
    obtain ⟨u, hu, -, hp⟩ := h.gui front (by rw [hq]; simp)
    rw [hu.block_gui hp c.clientUUID] at hspares ⊢
    refine { h with posPop := ?_, guiPop := ?_, spares := hspares }
    · intro hpop
      exact absurd hpop (by simp [Client.endBlock])
    · intro _
      simp [Client.endBlock, hq]
  | guiPop hpc =>
    refine { h with gui := ?_, posPop := ?_, guiPop := ?_, spares := hspares }
    · intro s hs
      exact h.gui s (List.mem_of_mem_tail hs)
    · intro hpop
      exact absurd hpop (by simp)
    · intro hpop
      exact absurd hpop (by simp)
  | discardPop hpc =>
    refine { h with pos := ?_, posPop := ?_, guiPop := ?_, spares := hspares }
    · intro s hs
      exact h.pos s (List.mem_of_mem_tail hs)
    · intro hpop
      exact absurd hpop (by simp)
    · intro hpop
      exact absurd hpop (by simp)
  | discardTest | discardEnd =>
    refine { h with posPop := ?_, guiPop := ?_, spares := hspares }
    · intro hpop
      exact absurd hpop (by simp)
    · intro hpop
      exact absurd hpop (by simp)
  | wakeBatchHandler | workerFront | workerWrite | workerPop => exact { h with }
  | _ => exact absurd rfl ha

/-! ### How messages move on -/

/-- What a step does to the messages on their way and to the players.  A message arrives, or is
relayed, or is taken by the block that carries it out, or is dropped by a batch pass, or no message
moves. -/
inductive Flow (P : Update → Prop) (c c' : Client) : ClientAct → Prop
  | arrive {msg : Text} {u : Update} (hu : WellFormed msg u) (hP : P u)
      (ha : c'.arrived = c.arrived ++ [msg]) (hr : c'.unrelayed = c.unrelayed ++ [msg])
      (hq : c'.untaken = c.untaken) (hp : c'.gui.externalplayers = c.gui.externalplayers) :
      Flow P c c' (.onMessage msg)
  | relay {msg : Text} {u : Update} (hu : WellFormed msg u) (ha : c'.arrived = c.arrived)
      (hr : c.unrelayed = msg :: c'.unrelayed)
      (hq : c'.untaken (lane msg) = c.untaken (lane msg) ++ [msg])
      (ho : c'.untaken (!lane msg) = c.untaken (!lane msg))
      (hp : c'.gui.externalplayers = c.gui.externalplayers) : Flow P c c' .relayMove
  | take {a : ClientAct} {msg : Text} {u : Update} (ht : a.takes = some (lane msg))
      (hu : WellFormed msg u) (hP : P u) (ha : c'.arrived = c.arrived)
      (hr : c'.unrelayed = c.unrelayed) (hq : c.untaken (lane msg) = msg :: c'.untaken (lane msg))
      (ho : c'.untaken (!lane msg) = c.untaken (!lane msg))
      (hg : c'.gui = u.apply c.clientUUID c.gui) : Flow P c c' a
  | drop {msg : Text} (ha : c'.arrived = c.arrived)
      (hr : c'.unrelayed = c.unrelayed) (hq : c.untaken true = msg :: c'.untaken true)
      (hp : c'.gui.externalplayers = c.gui.externalplayers) : Flow P c c' .discardPop
  | quiet {a : ClientAct} (hm : ∀ msg, a ≠ .onMessage msg) (ht : a.takes = none)
      (hd : a.drops = false) (ha : c'.arrived = c.arrived) (hr : c'.unrelayed = c.unrelayed)
      (hq : c'.untaken = c.untaken) (hp : c'.gui.externalplayers = c.gui.externalplayers) :
      Flow P c c' a

/-- The main loop goes on, and no message waits to be popped before or after. -/
lemma Flow.roam (hs : ClientStep c a c') (ha : a.roams) : Flow P c c' a := by
  obtain ⟨hc, hc'⟩ := hs.emptyHanded ha
  have hu := hs.undisturbed ha
  have hm : ∀ msg, a ≠ .onMessage msg := by
    rintro msg rfl
    cases ha
  have ht : a.takes = none := by cases a <;> first | rfl | cases ha
  have hd : a.drops = false := by cases a <;> first | rfl | cases ha
  refine .quiet hm ht hd hu.arrived ?_ ?_ hu.players
  · rw [Client.unrelayed, Client.unrelayed, hu.relayPc, hu.ws]
  · ext b : 1
    cases b
    · simp [Client.untaken, hc.guiPop, hc'.guiPop, hu.gui]
    · simp [Client.untaken, hc.posPop, hc'.posPop, hu.pos]

theorem Supplied.flow (h : Supplied P c) (ho : Brings P a) (hs : ClientStep c a c') :
    Flow P c c' a := by
  by_cases ha : a.roams
  · exact .roam hs ha
  cases hs with
  | onMessage msg =>
    obtain ⟨u, hu, hP⟩ := ho
    refine .arrive hu hP rfl ?_ rfl rfl
    -- a message that waits only to be popped does not count, and the new one is not it
    by_cases hpop : c.relayPc = .pop
    · simp [Client.unrelayed, hpop, List.tail_append_of_ne_nil (h.relayPop hpop)]
    · simp [Client.unrelayed, hpop]
  | relayFront hpc hq =>
    exact .quiet (by simp) rfl rfl rfl (by simp [Client.unrelayed, hpc]) rfl rfl
  | @movePosition jsondata hpc =>
    obtain ⟨u, rest, hu, -, hq, hpos⟩ := h.wellFormed_position hpc
    have hlane : lane jsondata = true := by rw [hu.lane_eq, hpos]
    refine .relay hu rfl (by simp [Client.unrelayed, hpc, hq]) ?_ (by rw [hlane]; rfl) rfl
    rw [hlane]
    by_cases hpop : c.mainPc = .posPop
    · simp [Client.untaken, hpop, List.tail_append_of_ne_nil (h.posPop hpop)]
    · simp [Client.untaken, hpop]
  | @moveGui jsondata hpc =>
    obtain ⟨u, rest, hu, -, hq, hpos⟩ := h.wellFormed_gui hpc
    have hlane : lane jsondata = false := by simpa [hu.lane_eq] using hpos
    refine .relay hu rfl (by simp [Client.unrelayed, hpc, hq]) ?_ (by rw [hlane]; rfl) rfl
    rw [hlane]
    by_cases hpop : c.mainPc = .guiPop
    · simp [Client.untaken, hpop, List.tail_append_of_ne_nil (h.guiPop hpop)]
    · simp [Client.untaken, hpop]
  | @moveDropped jsondata hpc => exact absurd hpc (h.not_dropped jsondata)
  | relayPop hpc => exact .quiet (by simp) rfl rfl rfl (by simp [Client.unrelayed, hpc]) rfl rfl
  | @posFront front rest hpc hq =>
    obtain ⟨u, hu, hP, hp⟩ := h.pos front (by rw [hq]; simp)
    have hlane : lane front = true := by rw [hu.lane_eq, hp]
    rw [hu.block_position hp c.clientUUID]
    refine .take (by rw [hlane]; rfl) hu hP rfl rfl ?_ ?_ rfl
    · rw [hlane]
      simp [Client.untaken, Client.endBlock, hpc, hq]
    · rw [hlane]
      simp [Client.untaken, Client.endBlock, hpc]
  | posPop hpc =>
    refine .quiet (by simp) rfl rfl rfl rfl ?_ rfl
    ext b : 1
    cases b <;> simp [Client.untaken, hpc]
  | @guiFront front rest hpc hq =>
    obtain ⟨u, hu, hP, hp⟩ := h.gui front (by rw [hq]; simp)
    have hlane : lane front = false := by simpa [hu.lane_eq] using hp
    rw [hu.block_gui hp c.clientUUID]
    refine .take (by rw [hlane]; rfl) hu hP rfl rfl ?_ ?_ rfl
    · rw [hlane]
      simp [Client.untaken, Client.endBlock, hpc, hq]
    · rw [hlane]
      simp [Client.untaken, Client.endBlock, hpc]
  | guiPop hpc =>
    refine .quiet (by simp) rfl rfl rfl rfl ?_ rfl
    ext b : 1
    cases b <;> simp [Client.untaken, hpc]
  | @discardPop i hpc =>
    -- the queue has at least two messages, so one is popped
    have hlt := h.spares i hpc
    obtain ⟨front, rest, hq⟩ : ∃ front rest, c.positionJsonQueue = front :: rest :=
      List.exists_cons_of_length_pos (by omega)
    exact @Flow.drop P c _ front rfl rfl (by simp [Client.untaken, hpc, hq]) rfl
  | discardTest hpc | discardEnd hpc =>
    refine .quiet (by simp) rfl rfl rfl rfl ?_ rfl
    ext b : 1
    cases b <;> simp [Client.untaken, hpc]
  | wakeBatchHandler | workerFront | workerWrite | workerPop =>
    exact .quiet (by simp) rfl rfl rfl rfl rfl rfl
  | _ => exact absurd rfl ha

end Supplied

end MultiplayerCars.CPPClient
