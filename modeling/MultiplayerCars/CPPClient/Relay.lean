import MultiplayerCars.CPPClient.QueueCalls

/-!
# The relay

`relayWorkerThread` keeps a reference to the front of the queue of received messages while others
push behind it, moves the message on, and pops what is left of it.  Nothing gets lost or doubled on
the way, and nothing is overtaken: what has been pushed to a queue, followed by what still waits to
be pushed there, is at every point what has been received for it.  A message that is empty, or an
object without an unsigned `"Type"`, is for neither queue.
-/

namespace MultiplayerCars.CPPClient

open Lib Lib.Json Lib.Machine

/-- The type of a position, or of a debug position. -/
def isPositionType (type : ℤ) : Bool :=
  type = bEventPositionUpdateMessage ∨ type = bEventPositionDebugUpdateMessage

/-- The message has the type of a position. -/
def hasPositionType (s : Text) : Bool := (onDemandType s).any isPositionType

/-- The message has another unsigned type. -/
def hasOtherType (s : Text) : Bool := (onDemandType s).any fun type => !isPositionType type

/-- The message that an action moves along a route. -/
def movedBy (r : Route) (c : Client) (a : ClientAct) : Option Text :=
  match a, c.relayPc with
  | .relayMove, .move jsondata route => if route = r then some jsondata else none
  | _, _ => none

/-- The messages that have been moved along a route, in order. -/
def moved (r : Route) (l : List (Client × ClientAct)) : List Text :=
  l.filterMap fun x => movedBy r x.1 x.2

/-- The relay has at hand the front of its queue, and the route that belongs to it. -/
structure Fronted (c : Client) : Prop where
  moving : ∀ s r, c.relayPc = .move s r → c.wsUpdatedJsonQueue.head? = some s ∧ r = relay s
  pop : c.relayPc = .pop → c.wsUpdatedJsonQueue ≠ []

/-! ### Routes and types -/

lemma relay_of_type {s : Text} {type : ℤ} (h : onDemandType s = some type) :
    relay s = if isPositionType type then .position else .gui := by
  have hs : s ≠ [] := by
    rintro rfl
    rw [readsType_onDemandType.empty] at h
    cases h
  rw [relay, if_neg hs, h]
  simp only [isPositionType, decide_eq_true_eq]

lemma relay_of_no_type {s : Text} (h : onDemandType s = none) : relay s = .dropped := by
  rw [relay, h]
  split_ifs <;> rfl

lemma relay_eq_position_iff {s : Text} : relay s = .position ↔ hasPositionType s := by
  cases h : onDemandType s with
  | none => simp [relay_of_no_type h, hasPositionType, h]
  | some type => cases ht : isPositionType type <;> simp [relay_of_type h, hasPositionType, h, ht]

lemma relay_eq_gui_iff {s : Text} : relay s = .gui ↔ hasOtherType s := by
  cases h : onDemandType s with
  | none => simp [relay_of_no_type h, hasOtherType, h]
  | some type => cases ht : isPositionType type <;> simp [relay_of_type h, hasOtherType, h, ht]

/-! ### One step -/

variable {c c' : Client} {a : ClientAct}

lemma Fronted.of_eq (h : Fronted c) (hpc : c'.relayPc = c.relayPc)
    (hq : c'.wsUpdatedJsonQueue = c.wsUpdatedJsonQueue) : Fronted c' where
  moving := by
    rw [hpc, hq]
    exact h.moving
  pop := by
    rw [hpc, hq]
    exact h.pop

/-- What a step does to the messages on their way to the relay and through it. -/
inductive Relays (c c' : Client) : ClientAct → Prop
  | arrive (msg : Text) (hpc : c'.relayPc = c.relayPc)
      (hq : c'.wsUpdatedJsonQueue = c.wsUpdatedJsonQueue ++ [msg])
      (ha : c'.arrived = c.arrived ++ [msg]) : Relays c c' (.onMessage msg)
  | front {s : Text} {rest : List Text} (hpc : c.relayPc = .front)
      (hq : c.wsUpdatedJsonQueue = s :: rest) (hpc' : c'.relayPc = .move s (relay s))
      (hq' : c'.wsUpdatedJsonQueue = c.wsUpdatedJsonQueue) (ha : c'.arrived = c.arrived) :
      Relays c c' .relayFront
  | move {s : Text} {r : Route} (hpc : c.relayPc = .move s r) (hpc' : c'.relayPc = .pop)
      (hq' : c'.wsUpdatedJsonQueue = c.wsUpdatedJsonQueue) (ha : c'.arrived = c.arrived) :
      Relays c c' .relayMove
  | pop (hpc : c.relayPc = .pop) (hpc' : c'.relayPc = .front)
      (hq' : c'.wsUpdatedJsonQueue = c.wsUpdatedJsonQueue.tail) (ha : c'.arrived = c.arrived) :
      Relays c c' .relayPop
  | other {a : ClientAct} (hm : ∀ msg, a ≠ .onMessage msg) (hmove : a ≠ .relayMove)
      (hpc : c'.relayPc = c.relayPc) (hq : c'.wsUpdatedJsonQueue = c.wsUpdatedJsonQueue)
      (ha : c'.arrived = c.arrived) : Relays c c' a

lemma ClientStep.relays_of_roams (hs : ClientStep c a c') (ha : a.roams) : Relays c c' a := by
  have hu := hs.undisturbed ha
  have hm : ∀ msg, a ≠ .onMessage msg := by
    rintro msg rfl
    cases ha
  have hmove : a ≠ .relayMove := by
    rintro rfl
    cases ha
  exact .other hm hmove hu.relayPc hu.ws hu.arrived

theorem ClientStep.relays (hs : ClientStep c a c') : Relays c c' a := by
  by_cases ha : a.roams
  · exact hs.relays_of_roams ha
  cases hs with
  | onMessage msg => exact .arrive msg rfl rfl rfl
  | relayFront hpc hq => exact .front hpc hq rfl rfl rfl
  | movePosition hpc | moveGui hpc | moveDropped hpc => exact .move hpc rfl rfl rfl
  | relayPop hpc => exact .pop hpc rfl rfl rfl
  | posFront | guiFront =>
    obtain ⟨pc, -, hc⟩ := exists_endBlock c _ _
    rw [hc]
    exact .other (by simp) (by simp) rfl rfl rfl
  | posPop | guiPop | discardTest | discardEnd | discardPop | wakeBatchHandler | workerFront
  | workerWrite | workerPop => exact .other (by simp) (by simp) rfl rfl rfl
  | _ => exact absurd rfl ha

theorem Fronted.step (h : Fronted c) (hs : Relays c c' a) : Fronted c' := by
  cases hs with
  | arrive msg hpc hq ha =>
    refine ⟨fun s r hmove => ?_, fun _ => by simp [hq]⟩
    rw [hpc] at hmove
    obtain ⟨hhead, hr⟩ := h.moving s r hmove
    obtain ⟨rest, hrest⟩ := List.head?_eq_some_iff.mp hhead
    exact ⟨by simp [hq, hrest], hr⟩
  | @front s rest hpc hq hpc' hq' ha =>
    refine ⟨fun s' r hmove => ?_, fun hpop => ?_⟩
    · rw [hpc'] at hmove
      cases hmove
      exact ⟨by simp [hq', hq], rfl⟩
    · rw [hpc'] at hpop
      cases hpop
  | @move s r hpc hpc' hq' ha =>
    refine ⟨fun s' r' hmove => ?_, fun _ hnil => ?_⟩
    · rw [hpc'] at hmove
      cases hmove
    · have hhead := (h.moving s r hpc).1
      rw [← hq', hnil] at hhead
      cases hhead
  | pop hpc hpc' hq' ha =>
    refine ⟨fun s r hmove => ?_, fun hpop => ?_⟩
    · rw [hpc'] at hmove
      cases hmove
    · rw [hpc'] at hpop
      cases hpop
  | other hm hmove hpc hq ha => exact h.of_eq hpc hq

/-- The message that an action hands to `onMessage`. -/
def ClientAct.message : ClientAct → Option Text
  | .onMessage msg => some msg
  | _ => none

lemma Relays.arrived (hs : Relays c c' a) : c'.arrived = c.arrived ++ a.message.toList := by
  cases hs with
  | arrive msg hpc hq ha => exact ha
  | front hpc hq hpc' hq' ha => simp [ClientAct.message, ha]
  | move hpc hpc' hq' ha => simp [ClientAct.message, ha]
  | pop hpc hpc' hq' ha => simp [ClientAct.message, ha]
  | other hm hmove hpc hq ha =>
    have hnone : a.message = none := by
      cases a <;> first | rfl | exact absurd rfl (hm _)
    simp [hnone, ha]

/-- What a step moves along a route, what it leaves unrelayed and what arrives add up. -/
theorem Relays.conserves (h : Fronted c) (hs : Relays c c' a) (r : Route) :
    ∃ new : List Text, c'.arrived = c.arrived ++ new ∧
      (movedBy r c a).toList ++ c'.unrelayed.filter (relay · = r)
        = c.unrelayed.filter (relay · = r) ++ new.filter (relay · = r) := by
  cases hs with
  | arrive msg hpc hq ha =>
    refine ⟨[msg], ha, ?_⟩
    have hun : c'.unrelayed = c.unrelayed ++ [msg] := by
      rw [Client.unrelayed, Client.unrelayed, hpc, hq]
      split_ifs with hpop
      · exact List.tail_append_of_ne_nil (h.pop hpop)
      · rfl
    simp [movedBy, hun]
  | @front s rest hpc hq hpc' hq' ha =>
    refine ⟨[], by simp [ha], ?_⟩
    have hun : c'.unrelayed = c.unrelayed := by
      rw [Client.unrelayed, Client.unrelayed, hpc, hpc', hq', if_neg (by simp), if_neg (by simp)]
    simp [movedBy, hun]
  | @move s r' hpc hpc' hq' ha =>
    refine ⟨[], by simp [ha], ?_⟩
    obtain ⟨hhead, hr⟩ := h.moving s r' hpc
    obtain ⟨rest, hrest⟩ := List.head?_eq_some_iff.mp hhead
    have hun : c.unrelayed = s :: c'.unrelayed := by
      rw [Client.unrelayed, Client.unrelayed, hpc, hpc', hq', if_neg (by simp), if_pos rfl, hrest]
      rfl
    -- the message counts for the route along which it is moved
    by_cases he : r' = r
    · simp [movedBy, hpc, hun, he, ← hr]
    · simp [movedBy, hpc, hun, he, ← hr]
  | pop hpc hpc' hq' ha =>
    refine ⟨[], by simp [ha], ?_⟩
    have hun : c'.unrelayed = c.unrelayed := by
      rw [Client.unrelayed, Client.unrelayed, hpc, hpc', hq', if_neg (by simp), if_pos rfl]
    simp [movedBy, hun]
  | other hm hmove hpc hq ha =>
    refine ⟨[], by simp [ha], ?_⟩
    have hun : c'.unrelayed = c.unrelayed := by
      rw [Client.unrelayed, Client.unrelayed, hpc, hq]
    have hnone : movedBy r c a = none := by
      cases a <;> first | rfl | exact absurd rfl hmove
    simp [hnone, hun]

/-! ### Every run -/

variable {uuid : UuidV4} {l : List (Client × ClientAct)}

lemma moved_snoc (r : Route) : moved r (l ++ [(c, a)]) = moved r l ++ (movedBy r c a).toList := by
  rw [moved, List.filterMap_append, moved]
  cases h : movedBy r c a <;> simp [h]

lemma fronted_of_exec (h : (client uuid).Exec l c) : Fronted c := by
  refine h.invariant ⟨fun s r hmove => ?_, fun hpop => ?_⟩ fun c a c' hf hs =>
    hf.step (clientStep_of_step hs).relays
  · cases hmove
  · cases hpop

/-- What has been moved along a route, followed by what is still to be moved there, is what has
arrived for it. -/
lemma moved_append_unrelayed (h : (client uuid).Exec l c) (r : Route) :
    moved r l ++ c.unrelayed.filter (relay · = r) = c.arrived.filter (relay · = r) := by
  induction h with
  | nil => rfl
  | @snoc l c c' a hl hs ih =>
    obtain ⟨new, ha, hnew⟩ :=
      (clientStep_of_step hs).relays.conserves (fronted_of_exec hl) r
    rw [moved_snoc, List.append_assoc, hnew, ← List.append_assoc, ih, ha, List.filter_append]

/-- The messages that `onMessage` has been called with, in order. -/
def received (l : List (Client × ClientAct)) : List Text := l.filterMap fun x => x.2.message

lemma arrived_eq_received (h : (client uuid).Exec l c) : c.arrived = received l := by
  induction h with
  | nil => rfl
  | @snoc l c c' a hl hs ih =>
    rw [(clientStep_of_step hs).relays.arrived, ih, received, received, List.filterMap_append]
    cases hmsg : a.message <;> simp [hmsg]

/-- What is pushed to a queue is what is moved along the route to it. -/
lemma pushed_eq_moved {q : QueueName} {r : Route}
    (hqr : q = .positionJsonQueue ∧ r = .position ∨ q = .guiJsonQueue ∧ r = .gui)
    (l : List (Client × ClientAct)) : pushed q l = moved r l := by
  rw [pushed, callsOf, Fifo.calls, Fifo.pushed, List.filterMap_filterMap, moved]
  refine List.filterMap_congr fun x _ => ?_
  obtain ⟨c, a⟩ := x
  rcases hqr with ⟨rfl, rfl⟩ | ⟨rfl, rfl⟩
  all_goals cases a with
    | relayMove =>
      cases hpc : c.relayPc with
      | move s r => cases r <;> simp [Client.call, movedBy, hpc]
      | _ => simp [Client.call, movedBy, hpc]
    | posFront => cases hq : c.positionJsonQueue <;> simp [Client.call, movedBy, hq]
    | guiFront => cases hq : c.guiJsonQueue <;> simp [Client.call, movedBy, hq]
    | _ => rfl

/-- A queue is what has been pushed to it without what has been popped from it. -/
lemma exists_popped (h : (client uuid).Exec l c) (q : QueueName) :
    ∃ popped, popped ++ c.contents q = pushed q l := by
  obtain ⟨f, hf, hc⟩ := replays_callsOf h q
  exact ⟨f.removed, by rw [← hc, Fifo.removed_append_contents hf, pushed]⟩

/-- What the relay has done with the messages that have been received. -/
structure Relayed (uuid : UuidV4) (l : List (Client × ClientAct)) (c : Client) : Prop where
  /-- Pushed to the queue of positions, and still to be pushed there: all that was received for
  it. -/
  position : pushed .positionJsonQueue l ++ c.unrelayed.filter hasPositionType
    = (received l).filter hasPositionType
  /-- The same for the gui queue. -/
  gui : pushed .guiJsonQueue l ++ c.unrelayed.filter hasOtherType
    = (received l).filter hasOtherType
  /-- Every call of a queue is possible, and the calls leave what the queue holds. -/
  queues : ∀ q, ∃ f, Fifo.replay (callsOf q l) = some f ∧ f.contents = c.contents q
  /-- A message without an unsigned type goes to neither queue: the relay passes over it. -/
  skips : ∀ s rest, c.relayPc = .front → c.wsUpdatedJsonQueue = s :: rest →
    onDemandType s = none → ((client uuid).run c [.relayFront, .relayMove, .relayPop]).map Prod.snd
      = some { c with wsUpdatedJsonQueue := rest }
  /-- The relay stops only where there is nothing to relay. -/
  continues : c.relayPc = .front ∧ c.wsUpdatedJsonQueue = [] ∨
    ∃ a ∈ [ClientAct.relayFront, .relayMove, .relayPop], (c.step a).isSome

/-- **The relay neither loses nor doubles, misroutes or reorders a message**, in any run. -/
theorem relay_conserves (h : (client uuid).Exec l c) : Relayed uuid l c where
  position := by
    have hpos : ∀ s, decide (relay s = .position) = hasPositionType s := fun s => by
      rw [Bool.eq_iff_iff, decide_eq_true_eq, relay_eq_position_iff]
    rw [pushed_eq_moved (Or.inl ⟨rfl, rfl⟩), ← arrived_eq_received h]
    simpa only [hpos] using moved_append_unrelayed h .position
  gui := by
    have hgui : ∀ s, decide (relay s = .gui) = hasOtherType s := fun s => by
      rw [Bool.eq_iff_iff, decide_eq_true_eq, relay_eq_gui_iff]
    rw [pushed_eq_moved (Or.inr ⟨rfl, rfl⟩), ← arrived_eq_received h]
    simpa only [hgui] using moved_append_unrelayed h .gui
  queues := replays_callsOf h
  skips := by
    intro s rest hpc hq htype
    simp [Machine.run, client, Client.step, hpc, hq, relay_of_no_type htype]
  continues := by
    cases hpc : c.relayPc with
    | front =>
      cases hq : c.wsUpdatedJsonQueue with
      | nil => exact Or.inl ⟨rfl, rfl⟩
      | cons s rest => exact Or.inr ⟨.relayFront, by simp, by simp [Client.step, hpc, hq]⟩
    | move s r => cases r <;> exact Or.inr ⟨.relayMove, by simp, by simp [Client.step, hpc]⟩
    | pop => exact Or.inr ⟨.relayPop, by simp, by simp [Client.step, hpc]⟩

/-- A position, an empty message and a time stamp arrive; the relay moves the first, passes over
the second and has the third at hand. -/
def relaying : List ClientAct :=
  [.onMessage "\x7b\"Type\":1,\"X\":0\x7d".toList, .onMessage [],
    .onMessage "\x7b\"Type\":0\x7d".toList, .relayFront, .relayMove, .relayPop, .relayFront,
    .relayMove, .relayPop, .relayFront]

lemma relaying_runs : ((client someUuid).run (client someUuid).init relaying).isSome := by
  decide +kernel

theorem relay_conserves_relaying : Relayed someUuid
    (((client someUuid).run (client someUuid).init relaying).get relaying_runs).1
    (((client someUuid).run (client someUuid).init relaying).get relaying_runs).2 :=
  relay_conserves (exec_get_run relaying_runs)

end MultiplayerCars.CPPClient
