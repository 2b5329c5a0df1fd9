import MultiplayerCars.Lib.Fifo
import MultiplayerCars.CPPClient.Queues

/-!
# The calls of the queues

Which call of which queue a step of a client makes.  Every queue has one consumer, which looks at
the front before it pops; only the batch pass pops without that, and tests the size instead, which
may have grown when it comes to the pop.  So the calls of a run can be replayed, and what the
replay leaves is what the queue holds.
-/

namespace MultiplayerCars.CPPClient

open Lib Lib.Json Lib.Machine

inductive QueueName
  | wsUpdatedJsonQueue
  | positionJsonQueue
  | guiJsonQueue
  | asyncWriteQueue
deriving DecidableEq, Repr

/-- The call that a step of the client makes of a queue, which is not that of the session. -/
def Client.call (c : Client) (a : ClientAct) : QueueName → Option (QueueCall Text)
  | .wsUpdatedJsonQueue =>
    match a with
    | .onMessage msg => some (.push msg)
    | .relayFront => c.wsUpdatedJsonQueue.head?.map .front
    | .relayPop => some .pop
    | _ => none
  | .positionJsonQueue =>
    match a, c.relayPc with
    | .relayMove, .move jsondata .position => some (.push jsondata)
    | .posFront, _ => c.positionJsonQueue.head?.map .front
    | .posPop, _ => some .pop
    | .discardPop, _ => some .pop
    | _, _ => none
  | .guiJsonQueue =>
    match a, c.relayPc with
    | .relayMove, .move jsondata .gui => some (.push jsondata)
    | .guiFront, _ => c.guiJsonQueue.head?.map .front
    | .guiPop, _ => some .pop
    | _, _ => none
  | .asyncWriteQueue => none

def Client.contents (c : Client) : QueueName → List Text
  | .wsUpdatedJsonQueue => c.wsUpdatedJsonQueue
  | .positionJsonQueue => c.positionJsonQueue
  | .guiJsonQueue => c.guiJsonQueue
  | .asyncWriteQueue => []

/-- The consumer of the queue is between its `front` and its `pop`. -/
def Client.Holds (c : Client) : QueueName → Prop
  | .wsUpdatedJsonQueue => c.relayPc ≠ .front
  | .positionJsonQueue => c.mainPc = .posPop
  | .guiJsonQueue => c.mainPc = .guiPop
  | .asyncWriteQueue => False

section Uses

variable {c c' : Client} {a : ClientAct} {q : QueueName}

/-- A step of the main loop that touches no queue makes no call of one, and holds nothing then. -/
lemma ClientStep.uses_of_roams (hs : ClientStep c a c') (ha : a.roams) {d : Prop} :
    Fifo.Uses d (c.contents q) (c'.contents q) (c.Holds q) (c'.Holds q) (c.call a q) := by
  have hu := hs.undisturbed ha
  have hempty := (hs.emptyHanded ha).2
  have hcall : c.call a q = none := by cases a <;> first | (cases q <;> rfl) | cases ha
  cases q with
  | wsUpdatedJsonQueue =>
    refine .none hcall hu.ws fun hh => ?_
    rwa [Client.Holds, hu.relayPc] at hh
  | positionJsonQueue => exact .none hcall hu.pos fun hh => absurd hh hempty.posPop
  | guiJsonQueue => exact .none hcall hu.gui fun hh => absurd hh hempty.guiPop
  | asyncWriteQueue => exact .none hcall rfl id

/-- Every step of the client uses each queue as its one consumer should, or as a producer. -/
theorem ClientStep.uses (hs : ClientStep c a c') (hspares : c.Spares) {d : Prop}
    (hd : d ↔ a = .discardPop) (q : QueueName) :
    Fifo.Uses d (c.contents q) (c'.contents q) (c.Holds q) (c'.Holds q) (c.call a q) := by
  rw [propext hd]
  by_cases ha : a.roams
  · exact hs.uses_of_roams ha
  cases hs with
  | onMessage msg =>
    cases q with
    | wsUpdatedJsonQueue => exact .push msg rfl rfl id
    | _ => exact .none rfl rfl id
  | @relayFront jsondata rest hpc hq =>
    cases q with
    | wsUpdatedJsonQueue =>
      exact .front jsondata (by simp [Client.call, hq]) (by simp [Client.contents, hq]) rfl
    | _ => exact .none rfl rfl id
  | @movePosition jsondata hpc =>
    cases q with
    | wsUpdatedJsonQueue => exact .none rfl rfl fun _ => by simp [Client.Holds, hpc]
    | positionJsonQueue => exact .push jsondata (by simp [Client.call, hpc]) rfl id
    | guiJsonQueue => exact .none (by simp [Client.call, hpc]) rfl id
    | asyncWriteQueue => exact .none rfl rfl id
  | @moveGui jsondata hpc =>
    cases q with
    | wsUpdatedJsonQueue => exact .none rfl rfl fun _ => by simp [Client.Holds, hpc]
    | positionJsonQueue => exact .none (by simp [Client.call, hpc]) rfl id
    | guiJsonQueue => exact .push jsondata (by simp [Client.call, hpc]) rfl id
    | asyncWriteQueue => exact .none rfl rfl id
  | moveDropped hpc =>
    cases q with
    | wsUpdatedJsonQueue => exact .none rfl rfl fun _ => by simp [Client.Holds, hpc]
    | positionJsonQueue => exact .none (by simp [Client.call, hpc]) rfl id
    | guiJsonQueue => exact .none (by simp [Client.call, hpc]) rfl id
    | asyncWriteQueue => exact .none rfl rfl id
  | relayPop hpc =>
    cases q with
    | wsUpdatedJsonQueue =>
      exact .pop rfl (by simp) (by simp [Client.Holds, hpc]) rfl (by simp [Client.Holds])
    | _ => exact .none rfl rfl id
  | @posFront front rest hpc hq =>
    obtain ⟨pc, hpc', hc⟩ := exists_endBlock c _ _
    rw [hc]
    cases q with
    | positionJsonQueue =>
      exact .front front (by simp [Client.call, hq]) (by simp [Client.contents, hq]) rfl
    | guiJsonQueue =>
      refine .none rfl rfl fun hh => ?_
      rcases hpc' with rfl | rfl <;> cases hh
    | _ => exact .none rfl rfl id
  | posPop hpc =>
    cases q with
    | positionJsonQueue => exact .pop rfl (by simp) hpc rfl (by simp [Client.Holds])
    | guiJsonQueue => exact .none rfl rfl (by simp [Client.Holds])
    | _ => exact .none rfl rfl id
  | @guiFront front rest hpc hq =>
    obtain ⟨pc, hpc', hc⟩ := exists_endBlock c _ _
    rw [hc]
    cases q with
    | positionJsonQueue =>
      refine .none rfl rfl fun hh => ?_
      rcases hpc' with rfl | rfl <;> cases hh
    | guiJsonQueue =>
      exact .front front (by simp [Client.call, hq]) (by simp [Client.contents, hq]) rfl
    | _ => exact .none rfl rfl id
  | guiPop hpc =>
    cases q with
    | positionJsonQueue => exact .none rfl rfl (by simp [Client.Holds])
    | guiJsonQueue => exact .pop rfl (by simp) hpc rfl (by simp [Client.Holds])
    | _ => exact .none rfl rfl id
  | @discardPop i hpc =>
    have hi := hspares i hpc
    cases q with
    | positionJsonQueue =>
      -- the queue has at least two elements, so the newest one stays
      obtain ⟨front, rest, hq⟩ : ∃ front rest, c.positionJsonQueue = front :: rest :=
        List.exists_cons_of_length_pos (by omega)
      refine .discard front rest rfl rfl hq ?_ ?_ (by simp [Client.Holds])
      · rintro rfl
        rw [hq] at hi
        simp at hi
      · simp [Client.contents, hq]
    | guiJsonQueue => exact .none rfl rfl (by simp [Client.Holds])
    | _ => exact .none rfl rfl id
  | discardTest | discardEnd =>
    cases q with
    | positionJsonQueue | guiJsonQueue => exact .none rfl rfl (by simp [Client.Holds])
    | _ => exact .none rfl rfl id
  | wakeBatchHandler | workerFront | workerWrite | workerPop =>
    cases q <;> exact .none rfl rfl id
  | _ => exact absurd rfl ha

end Uses

/-! ### The calls of a run -/

section Run

variable {uuid : UuidV4} {l : List (Client × ClientAct)} {c : Client}

/-- The calls that a run makes of a queue. -/
def callsOf (q : QueueName) (l : List (Client × ClientAct)) : List (QueueCall Text) :=
  Fifo.calls (fun c a => c.call a q) l

/-- What a run pushes to a queue, oldest first. -/
def pushed (q : QueueName) (l : List (Client × ClientAct)) : List Text := Fifo.pushed (callsOf q l)

lemma start_spares (uuid : UuidV4) : (Client.start uuid).Spares := by
  intro i hpc
  cases hpc

lemma spares_of_exec (l : List (Client × ClientAct)) (c : Client) (h : (client uuid).Exec l c) :
    c.Spares :=
  h.invariant (start_spares uuid) fun _ _ _ hc hs => hc.step (clientStep_of_step hs)

/-- The calls of a run leave what the queue holds. -/
theorem replays_callsOf (h : (client uuid).Exec l c) (q : QueueName) :
    ∃ f, Fifo.replay (callsOf q l) = some f ∧ f.contents = c.contents q := by
  have hstep : ∀ c a c', c.Spares → (client uuid).step c a = some c' →
      Fifo.Uses (a = .discardPop) (c.contents q) (c'.contents q) (c.Holds q) (c'.Holds q)
        (c.call a q) :=
    fun _ _ _ hspares hs => (clientStep_of_step hs).uses hspares Iff.rfl q
  have hreplays : ∃ f, Fifo.replay (callsOf q l) = some f ∧ f.contents = c.contents q ∧
      (c.Holds q → f.held ≠ none) := by
    refine Fifo.replays_of_exec spares_of_exec ?_ ?_ hstep h
    · cases q <;> rfl
    · cases q <;> simp [client, Client.Holds, Client.start]
  obtain ⟨f, hf, hc, -⟩ := hreplays
  exact ⟨f, hf, hc⟩

end Run

end MultiplayerCars.CPPClient
