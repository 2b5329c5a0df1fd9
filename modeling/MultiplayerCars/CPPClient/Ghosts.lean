import MultiplayerCars.Lib.SplitStream
import MultiplayerCars.CPPClient.Queues

/-!
# Ghost cars

Positions and exits arrive in one order, and go through two queues that are served at different
times.  An exit that is taken while an older position of its player still waits removes the car,
and the position brings it back, until the next message about the player.  The players on the screen
are those whose last message was a position when the main loop never takes the newest message about
a player while an older one about the player waits in the other queue, or a later one makes up for
it.
-/

namespace MultiplayerCars.CPPClient

open Lib Lib.Json

/-! ### What a message says about a player -/

/-- A position says that the player is there, an exit that the player is gone. -/
def Update.verdict (uuid : Text) : Update → Option Bool
  | .position u _ => if u = uuid then some true else none
  | .exit u => if u = uuid then some false else none
  | _ => none

def verdict (uuid s : Text) : Option Bool := (updateOf s).bind (Update.verdict uuid)

lemma lane_of_verdict (uuid s : Text) (b : Bool) (h : verdict uuid s = some b) : lane s = b := by
  rw [verdict, Option.bind_eq_some_iff] at h
  obtain ⟨u, hu, h⟩ := h
  rw [lane, hu]
  cases u <;> simp only [Update.verdict, reduceCtorEq] at h <;>
    split_ifs at h <;> simp_all [Update.isPosition]

/-- After an update a player is there or gone as the update says. -/
lemma WellFormed.players_apply {s : Text} {u : Update} (h : WellFormed s u) (clientUUID : Text)
    (g : Gui) :
    (fun uuid => (u.apply clientUUID g).externalplayers uuid ≠ none)
      = SplitStream.after verdict s fun uuid => g.externalplayers uuid ≠ none := by
  funext uuid
  rw [SplitStream.after, verdict, h.updateOf_eq, Option.bind_some]
  cases u with
  | position v car =>
    by_cases hv : uuid = v
    · simp [Update.apply, Update.verdict, Gui.setPlayer, hv]
    · simp [Update.apply, Update.verdict, Gui.setPlayer, hv, Ne.symm hv]
  | exit v =>
    by_cases hv : uuid = v
    · simp [Update.apply, Update.verdict, Gui.setPlayer, hv]
    · simp [Update.apply, Update.verdict, Gui.setPlayer, hv, Ne.symm hv]
  | color v c =>
    cases hp : g.externalplayers v with
    | none => simp [Update.apply, Update.verdict, hp]
    | some car =>
      by_cases hv : uuid = v
      · simp [Update.apply, Update.verdict, Gui.setPlayer, hp, hv]
      · simp [Update.apply, Update.verdict, Gui.setPlayer, hp, hv]
  | timeStamp t => rfl
  | text v entry =>
    simp only [Update.apply, Update.verdict]
    split_ifs <;> rfl
  | other => rfl

/-! ### The client as a split stream -/

namespace Client

/-- The messages, and the players on the screen. -/
def view (c : Client) : SplitStream Text Text where
  arrived := c.arrived
  unrelayed := c.unrelayed
  queue := c.untaken
  member := fun uuid => c.gui.externalplayers uuid ≠ none

end Client

/-- The messages that arrive are well-formed messages of the server, and no batch pass takes
place. -/
def Ordinary (c : Client) : ClientAct → Prop
  | .onMessage msg => ∃ u, WellFormed msg u
  | .batch => c.discards = false
  | _ => True

/-- A block does not take the newest message about a player while an older one about the player
waits in the other queue. -/
def InTurn (c : Client) (a : ClientAct) : Prop := ∀ b ∈ a.takes, c.view.InOrder verdict b

/-- A block takes the newest message about the player while an older one about the player waits in
the other queue. -/
def Outruns (uuid : Text) (c : Client) (a : ClientAct) : Prop :=
  ∃ b, a.takes = some b ∧ SplitStream.Overtakes verdict c.view uuid b

/-- A position or the exit of the player arrives. -/
def Mentions (uuid : Text) (a : ClientAct) : Prop :=
  ∃ msg, a = .onMessage msg ∧ (verdict uuid msg).isSome

lemma InTurn.not_outruns {c : Client} {a : ClientAct} (h : InTurn c a) (uuid : Text) :
    ¬ Outruns uuid c a := by
  rintro ⟨b, hb, hover⟩
  exact (h b hb).not_overtakes uuid hover

/-- Every queue holds what belongs there, and a thread that is about to pop has something to
pop. -/
structure Tidy (c : Client) : Prop where
  ws : ∀ s ∈ c.wsUpdatedJsonQueue, ∃ u, WellFormed s u
  pos : ∀ s ∈ c.positionJsonQueue, ∃ u, WellFormed s u ∧ u.isPosition
  gui : ∀ s ∈ c.guiJsonQueue, ∃ u, WellFormed s u ∧ ¬ u.isPosition
  moving : ∀ s r, c.relayPc = .move s r → c.wsUpdatedJsonQueue.head? = some s ∧ r = relay s
  relayPop : c.relayPc = .pop → c.wsUpdatedJsonQueue ≠ []
  posPop : c.mainPc = .posPop → c.positionJsonQueue ≠ []
  guiPop : c.mainPc = .guiPop → c.guiJsonQueue ≠ []
  running : ¬ c.Discarding

lemma Tidy.supplied {c : Client} (h : Tidy c) : Supplied (fun _ => True) c where
  ws := by simpa using h.ws
  pos := by simpa using h.pos
  gui := by simpa using h.gui
  moving := h.moving
  relayPop := h.relayPop
  posPop := h.posPop
  guiPop := h.guiPop
  spares := fun i hpc => absurd ⟨i, Or.inr hpc⟩ h.running

lemma Ordinary.brings {c : Client} {a : ClientAct} (h : Ordinary c a) :
    Brings (fun _ => True) a := by
  cases a with
  | onMessage msg =>
    obtain ⟨u, hu⟩ := h
    exact ⟨u, hu, trivial⟩
  | _ => trivial

/-- Without a batch pass nothing is discarded. -/
lemma Tidy.running_step {c c' : Client} {a : ClientAct} (h : Tidy c) (ho : Ordinary c a)
    (hs : ClientStep c a c') : ¬ c'.Discarding := by
  cases hs with
  | posEmpty | guiEmpty | guiSize =>
    refine not_discarding_of_mainPc rfl ?_ ?_ <;> intro i <;> split_ifs <;> simp
  | @posFront front rest hpc hq =>
    obtain ⟨u, hu, hp⟩ := h.pos front (by rw [hq]; simp)
    rw [hu.block_position hp c.clientUUID]
    have hpc' : (c.endBlock (.popped (u.apply c.clientUUID c.gui)) .posPop).mainPc = .posPop := rfl
    exact not_discarding_of_mainPc hpc' (by simp) (by simp)
  | @guiFront front rest hpc hq =>
    obtain ⟨u, hu, hp⟩ := h.gui front (by rw [hq]; simp)
    rw [hu.block_gui hp c.clientUUID]
    have hpc' : (c.endBlock (.popped (u.apply c.clientUUID c.gui)) .guiPop).mainPc = .guiPop := rfl
    exact not_discarding_of_mainPc hpc' (by simp) (by simp)
  | batch hpc =>
    have hno : c.discards = false := ho
    exact not_discarding_of_mainPc rfl (by simp [hno]) (by simp [hno])
  | discardTest hpc | discardEnd hpc => exact absurd ⟨_, Or.inl hpc⟩ h.running
  | discardPop hpc => exact absurd ⟨_, Or.inr hpc⟩ h.running
  | posPop | guiPop | keys | mouse | move | typing | text =>
    exact not_discarding_of_mainPc rfl (by simp) (by simp)
  | onMessage | relayFront | movePosition | moveGui | moveDropped | relayPop | wakeBatchHandler
  | workerFront | workerWrite | workerPop => exact h.running

theorem Tidy.step {c c' : Client} {a : ClientAct} (h : Tidy c) (ho : Ordinary c a)
    (hs : ClientStep c a c') : Tidy c' := by
  have hsupplied : Supplied (fun _ => True) c' := h.supplied.step ho.brings hs
  exact {
    ws := by simpa using hsupplied.ws
    pos := by simpa using hsupplied.pos
    gui := by simpa using hsupplied.gui
    moving := hsupplied.moving
    relayPop := hsupplied.relayPop
    posPop := hsupplied.posPop
    guiPop := hsupplied.guiPop
    running := h.running_step ho hs }

/-- Every step of the client is a step of the split stream, or takes no message and does not show
there. -/
theorem view_step {c c' : Client} {a : ClientAct} (h : Tidy c) (ho : Ordinary c a)
    (hs : ClientStep c a c') :
    (c'.view = c.view ∧ a.takes = none) ∨
      SplitStream.Step verdict lane a.takes c.view c'.view := by
  have member_of_players : c'.gui.externalplayers = c.gui.externalplayers →
      c'.view.member = c.view.member := by
    intro hp
    simp only [Client.view, hp]
  cases h.supplied.flow ho.brings hs with
  | arrive _ _ ha hr hq hp => exact Or.inr (.arrive _ ha hr hq (member_of_players hp))
  | relay _ ha hr hq hq' hp => exact Or.inr (.relay _ ha hr hq hq' (member_of_players hp))
  | @take _ msg u ht hu _ ha hr hq hq' hg =>
    right
    rw [ht]
    refine .take msg ha hr hq hq' ?_
    simp only [Client.view, hg]
    exact hu.players_apply c.clientUUID c.gui
  | drop =>
    -- the main loop is in no batch pass
    cases hs with
    | discardPop hpc => exact absurd ⟨_, Or.inr hpc⟩ h.running
  | quiet _ ht _ ha hr hq hp =>
    exact Or.inl ⟨by rw [Client.view, Client.view, ha, hr, hq, hp], ht⟩

/-! ### Runs -/

/-- Every message that has arrived has been taken. -/
structure Drained (c : Client) : Prop where
  ws : c.wsUpdatedJsonQueue = []
  pos : c.positionJsonQueue = []
  gui : c.guiJsonQueue = []

/-- The players on the screen are those whose last position or exit was a position. -/
def Rightful (c : Client) : Prop :=
  ∀ uuid, c.gui.externalplayers uuid ≠ none ↔
    SplitStream.lastVerdict verdict uuid c.arrived = some true

/-- What a run without batch passes keeps. -/
structure Orderly (c : Client) : Prop where
  tidy : Tidy c
  placed : SplitStream.Placed lane c.view

lemma Orderly.start (uuid : UuidV4) : Orderly (Client.start uuid) where
  tidy := by
    constructor <;> simp [Client.start, Client.Discarding]
  placed := by
    have hnone : ∀ b, (Client.start uuid).view.queue b = [] := by
      intro b
      cases b <;> simp [Client.view, Client.untaken, Client.start]
    refine ⟨?_, ?_, [], rfl⟩
    · intro b m hm
      rw [hnone] at hm
      cases hm
    · intro b m hm
      rw [hnone] at hm
      cases hm

lemma Orderly.step {c c' : Client} {a : ClientAct} (h : Orderly c) (ho : Ordinary c a)
    (hs : ClientStep c a c') : Orderly c' := by
  refine ⟨h.tidy.step ho hs, ?_⟩
  rcases view_step h.tidy ho hs with ⟨hv, -⟩ | hv
  · rw [hv]
    exact h.placed
  · exact h.placed.step hv

lemma orderly_of_exec {uuid : UuidV4} {l : List (Client × ClientAct)} {c : Client}
    (h : (client uuid).Exec l c) (ho : Machine.Meets Ordinary l) : Orderly c := by
  refine h.invariant_of_meets (I := fun _ => True) (fun _ _ _ => trivial) (Orderly.start uuid) ?_ ho
  intro c a c' _ hc ha hs
  exact hc.step ha (clientStep_of_step hs)

lemma settled_start (uuid : UuidV4) (u : Text) :
    SplitStream.Settled verdict (Client.start uuid).view u := by
  refine ⟨?_, fun hmem => hmem rfl⟩
  rintro b ⟨m, hm, -⟩
  cases b <;>
    exact absurd hm (by simp [Client.view, Client.unrelayed, Client.untaken, Client.start])

/-- What one step makes of a player who is shown as the last message about it says, or will be. -/
lemma Orderly.settled_iff {c c' : Client} {a : ClientAct} (h : Orderly c) (ho : Ordinary c a)
    (hs : ClientStep c a c') (u : Text) : SplitStream.Settled verdict c'.view u ↔
      ¬ Outruns u c a ∧ (SplitStream.Settled verdict c.view u ∨ Mentions u a) := by
  have hmentions : (∃ m, c'.view.arrived = c.view.arrived ++ [m] ∧ (verdict u m).isSome) ↔
      Mentions u a := by
    constructor
    · rintro ⟨m, hm, hv⟩
      rcases arrived_of_step hs with he | ⟨msg, ha, he⟩
      · exact absurd (he.symm.trans hm) (by simp [Client.view])
      · obtain rfl : msg = m := by simpa [Client.view, he] using hm
        exact ⟨msg, ha, hv⟩
    · rintro ⟨msg, rfl, hv⟩
      cases hs with
      | onMessage => exact ⟨msg, rfl, hv⟩
  rcases view_step h.tidy ho hs with ⟨hv, ht⟩ | hv
  · -- nothing shows: nothing is taken, and nothing arrives
    have hno : ¬ Mentions u a := by
      rw [← hmentions, hv]
      simp
    simp [hv, hno, Outruns, ht]
  · rw [hv.settled_iff lane_of_verdict h.placed, hmentions, Outruns]

/-- A player is shown as the last message about it says, or will be, if and only if its messages
have been taken in turn since the last that was not was followed by another. -/
lemma settled_iff_not_since {uuid : UuidV4} {l : List (Client × ClientAct)} {c : Client}
    (h : (client uuid).Exec l c) (ho : Machine.Meets Ordinary l) (u : Text) :
    SplitStream.Settled verdict c.view u ↔
      ¬ Machine.Since (Outruns u) (fun _ => Mentions u) l := by
  refine h.iff_not_since (I := Orderly) (P := fun c => SplitStream.Settled verdict c.view u)
    (fun l c hl hmeets => orderly_of_exec hl hmeets) (settled_start uuid u) ?_ ho
  intro c a c' hc ha hs
  exact hc.settled_iff ha (clientStep_of_step hs) u

lemma Drained.rightful_iff {c : Client} (hd : Drained c) :
    Rightful c ↔ ∀ u, SplitStream.Settled verdict c.view u := by
  refine forall_congr' fun u =>
    (SplitStream.settled_iff_of_drained (s := c.view) (k := u) ?_ fun b => ?_).symm
  · simp [Client.view, Client.unrelayed, hd.ws]
  · cases b <;> simp [Client.view, Client.untaken, hd.pos, hd.gui]

/-- **Ghosts, exactly.**  In a run without batch passes the players on the screen are the right
ones, once all queues are drained, if and only if whenever the newest message about a player is
taken while an older one about the player waits in the other queue, a later one arrives. -/
theorem no_ghost_cars_iff {uuid : UuidV4} {l : List (Client × ClientAct)} {c : Client}
    (h : (client uuid).Exec l c) (ho : Machine.Meets Ordinary l) (hd : Drained c) :
    Rightful c ↔ ∀ u, ¬ Machine.Since (Outruns u) (fun _ => Mentions u) l := by
  rw [hd.rightful_iff]
  exact forall_congr' fun u => settled_iff_not_since h ho u

/-- **No ghosts.**  In every run in which no block takes the newest message about a player
before an older one in the other queue, the players on the screen are the right ones whenever
the queues are drained. -/
theorem no_ghost_cars {uuid : UuidV4} {l : List (Client × ClientAct)} {c : Client}
    (h : (client uuid).Exec l c) (ho : Machine.Meets Ordinary l) (ht : Machine.Meets InTurn l) :
    Machine.Always (fun c => Drained c → Rightful c) l c := by
  have hok : Machine.Meets (fun c a => Ordinary c a ∧ InTurn c a) l :=
    fun x hx => ⟨ho x hx, ht x hx⟩
  refine h.always_of_meets ?_ hok
  intro l' c' h' hok hd
  refine hd.rightful_iff.mpr fun u => (settled_iff_not_since h' (fun x hx => (hok x hx).1) u).mpr ?_
  rintro ⟨l₁, s, a, l₂, rfl, hbad, -⟩
  exact (hok (s, a) (by simp)).2.not_outruns u hbad


/-! ### A ghost -/

/-- A position of the player `b`. -/
def positionOfB : Text :=
  "\x7b\"Color\":\"E62937\",\"Type\":1,\"UUID\":\"b\",\"X\":0,\"Y\":0\x7d".toList

/-- The exit of the player `b`. -/
def exitOfB : Text :=
  ("\x7b\"Type\":3,\"UUID\":\"b\",\"TimeStamp\":\"\",\"X\":0,\"Y\":0,".toList
    ++ "\"Color\":\"E62937\"\x7d".toList)

/-- The exit of the player `c`. -/
def exitOfC : Text :=
  ("\x7b\"Type\":3,\"UUID\":\"c\",\"TimeStamp\":\"\",\"X\":0,\"Y\":0,".toList
    ++ "\"Color\":\"E62937\"\x7d".toList)

/-- A message arrives and is relayed. -/
def receive (msg : Text) : List ClientAct := [.onMessage msg, .relayFront, .relayMove, .relayPop]

/-- The part of a frame that follows the two blocks, when the player does nothing. -/
def idleFrame : List ClientAct :=
  [.keys ⟨false, false, false, false⟩, .mouse none false true, .move true,
    .typing emptyText false, .text true, .batch]

/-- Two positions of `b` arrive, and its exit; the exit is taken between the two. -/
def haunting : List ClientAct :=
  receive positionOfB ++ receive positionOfB ++ receive exitOfB
    ++ [.posEmpty, .posFront, .posPop, .guiEmpty, .guiSize, .guiFront, .guiPop] ++ idleFrame
    ++ [.posEmpty, .posFront, .posPop, .guiEmpty] ++ idleFrame

lemma haunting_runs :
    ((client someUuid).run (client someUuid).init haunting).isSome := by
  decide +kernel

def hauntedClient : List (Client × ClientAct) × Client :=
  ((client someUuid).run (client someUuid).init haunting).get haunting_runs

lemma exec_haunted : (client someUuid).Exec hauntedClient.1 hauntedClient.2 :=
  Machine.exec_get_run haunting_runs

lemma wellFormed_positionOfB :
    WellFormed positionOfB (.position "b".toList ⟨0, 0, "E62937".toList⟩) := by
  decide +kernel

lemma wellFormed_exitOfB : WellFormed exitOfB (.exit "b".toList) := by
  decide +kernel

lemma wellFormed_exitOfC : WellFormed exitOfC (.exit "c".toList) := by
  decide +kernel

/-- A check that the messages are those three, and that no batch pass takes place. -/
def isOrdinary (x : Client × ClientAct) : Bool :=
  match x.2 with
  | .onMessage msg => msg == positionOfB || msg == exitOfB || msg == exitOfC
  | .batch => !x.1.discards
  | _ => true

lemma meets_ordinary {l : List (Client × ClientAct)} (h : l.all isOrdinary) :
    Machine.Meets Ordinary l := by
  rintro ⟨c, a⟩ hx
  have hc : isOrdinary (c, a) := List.all_eq_true.mp h _ hx
  cases a with
  | onMessage msg =>
    simp only [isOrdinary, Bool.or_eq_true, beq_iff_eq] at hc
    rcases hc with (rfl | rfl) | rfl
    · exact ⟨_, wellFormed_positionOfB⟩
    · exact ⟨_, wellFormed_exitOfB⟩
    · exact ⟨_, wellFormed_exitOfC⟩
  | batch =>
    have hno : c.discards = false := by simpa [isOrdinary] using hc
    exact hno
  | _ => trivial

/-- What the run looks like: in the end nothing waits, the last message about `b` is its exit, and
`b` is on the screen. -/
lemma haunted_check : hauntedClient.1.all isOrdinary = true
    ∧ hauntedClient.2.wsUpdatedJsonQueue = [] ∧ hauntedClient.2.positionJsonQueue = []
    ∧ hauntedClient.2.guiJsonQueue = []
    ∧ hauntedClient.2.gui.externalplayers "b".toList ≠ none
    ∧ SplitStream.lastVerdict verdict "b".toList hauntedClient.2.arrived = some false := by
  decide +kernel

/-- A player who has left can stay on the screen. -/
theorem ghost_car_stays :
    ¬ ∀ uuid l c, (client uuid).Exec l c → Machine.Meets Ordinary l → Drained c →
      Rightful c := by
  intro h
  obtain ⟨hall, hws, hpos, hgui, hghost, hlast⟩ := haunted_check
  have hr : Rightful hauntedClient.2 :=
    h someUuid _ _ exec_haunted (meets_ordinary hall) ⟨hws, hpos, hgui⟩
  have hstays := (hr "b".toList).mp hghost
  rw [hlast] at hstays
  cases hstays

/-- The player `b` comes while `c` leaves, and leaves when its positions have been taken. -/
def visiting : List ClientAct :=
  receive positionOfB ++ receive exitOfC ++ receive positionOfB
    ++ [.posEmpty, .posFront, .posPop, .guiEmpty, .guiSize, .guiFront, .guiPop] ++ idleFrame
    ++ [.posEmpty, .posFront, .posPop, .guiEmpty] ++ idleFrame
    ++ receive exitOfB ++ [.posEmpty, .guiEmpty, .guiSize, .guiFront, .guiPop] ++ idleFrame

lemma visiting_runs :
    ((client someUuid).run (client someUuid).init visiting).isSome := by
  decide +kernel

def visitedClient : List (Client × ClientAct) × Client :=
  ((client someUuid).run (client someUuid).init visiting).get visiting_runs

lemma exec_visited : (client someUuid).Exec visitedClient.1 visitedClient.2 :=
  Machine.exec_get_run visiting_runs

/-- The player that a position or an exit is about. -/
def subject (s : Text) : Option Text :=
  match updateOf s with
  | some (.position u _) => some u
  | some (.exit u) => some u
  | _ => none

lemma verdict_of_subject {uuid s : Text} (h : subject s ≠ some uuid) : verdict uuid s = none := by
  rw [verdict]
  rw [subject] at h
  cases hu : updateOf s with
  | none => rfl
  | some u =>
    rw [hu] at h
    cases u with
    | position v car => exact if_neg fun hv => h (congrArg some hv)
    | exit v => exact if_neg fun hv => h (congrArg some hv)
    | _ => rfl

/-- A check that whenever a message is taken, those that wait in the other queue are about other
players. -/
def isInTurn (x : Client × ClientAct) : Bool :=
  x.2.takes.all fun b => (x.1.untaken b).head?.all fun m =>
    (x.1.untaken (!b)).all fun m' => subject m' != subject m

lemma inTurn_of_isInTurn {c : Client} {a : ClientAct} (h : isInTurn (c, a)) : InTurn c a := by
  intro b hb m rest hq k hv _ _ m' hm'
  have hqueue : c.untaken b = m :: rest := hq
  have hk : subject m = some k := by
    by_contra hno
    rw [verdict_of_subject hno] at hv
    cases hv
  rw [isInTurn, Option.mem_def.mp hb, Option.all_some, hqueue, List.head?_cons,
    Option.all_some] at h
  have hother := List.all_eq_true.mp h m' hm'
  rw [hk] at hother
  exact verdict_of_subject (by simpa using hother)

lemma not_since_of_isInTurn {l : List (Client × ClientAct)} (h : l.all isInTurn) (u : Text) :
    ¬ Machine.Since (Outruns u) (fun _ => Mentions u) l := by
  rintro ⟨l₁, c, a, l₂, rfl, hbad, -⟩
  have hc : isInTurn (c, a) := List.all_eq_true.mp h _ (by simp)
  exact (inTurn_of_isInTurn hc).not_outruns u hbad

lemma visited_check : visitedClient.1.all isOrdinary = true
    ∧ visitedClient.1.all isInTurn = true
    ∧ visitedClient.2.wsUpdatedJsonQueue = [] ∧ visitedClient.2.positionJsonQueue = []
    ∧ visitedClient.2.guiJsonQueue = [] := by
  decide +kernel

theorem no_ghost_cars_iff_visit : Rightful visitedClient.2 ∧
    ∃ u, Machine.Since (Outruns u) (fun _ => Mentions u) hauntedClient.1 := by
  constructor
  · obtain ⟨hord, hturn, hws, hpos, hgui⟩ := visited_check
    exact (no_ghost_cars_iff exec_visited (meets_ordinary hord) ⟨hws, hpos, hgui⟩).mpr
      (not_since_of_isInTurn hturn)
  · obtain ⟨hord, hws, hpos, hgui, hghost, hlast⟩ := haunted_check
    by_contra hno
    have hr : Rightful hauntedClient.2 :=
      (no_ghost_cars_iff exec_haunted (meets_ordinary hord) ⟨hws, hpos, hgui⟩).mpr
        fun u hu => hno ⟨u, hu⟩
    have hstays := (hr "b".toList).mp hghost
    rw [hlast] at hstays
    cases hstays

end MultiplayerCars.CPPClient
