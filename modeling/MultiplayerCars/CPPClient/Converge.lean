import MultiplayerCars.Lib.Feed
import MultiplayerCars.CPPClient.Ghosts

/-!
# Where the other cars are shown

Positions go through one queue, in order, so a car ends up where its last message put it.  A batch
pass drops the oldest positions, whichever players they are about: it may drop the only message that
a player has sent for a while, and then the car is shown where it was before, or not at all, until
the player moves again.
-/

namespace MultiplayerCars.CPPClient

open Lib Lib.Json

/-! ### The client as a feed of positions -/

/-- Where a message says that a player is. -/
def told (uuid s : Text) : Option (ℤ × ℤ) :=
  match updateOf s with
  | some (.position u _) =>
    if u = uuid then do
      let o ← domParse s
      let X ← o.int64 "X"
      let Y ← o.int64 "Y"
      return (X, Y)
    else none
  | _ => none

/-- The coordinates as an `int` holds them. -/
def narrow (p : ℤ × ℤ) : ℤ × ℤ := (toInt p.1, toInt p.2)

/-- Where a message puts a player. -/
def place (uuid s : Text) : Option (ℤ × ℤ) :=
  match updateOf s with
  | some (.position u car) => if u = uuid then some (car.X, car.Y) else none
  | _ => none

/-- The message is no exit. -/
def Update.Stays (u : Update) : Prop := ∀ uuid, u ≠ .exit uuid

/-- Where a player is shown. -/
def Client.shownAt (c : Client) (uuid : Text) : Option (ℤ × ℤ) :=
  (c.gui.externalplayers uuid).map fun car => (car.X, car.Y)

/-- The positions that have arrived, those that no block has taken yet, and where the players are
shown. -/
def Client.feed (c : Client) : Feed Text Text (ℤ × ℤ) where
  arrived := c.arrived.filter lane
  waiting := c.untaken true ++ c.unrelayed.filter lane
  shown := c.shownAt

/-- What an action does to the feed. -/
def ClientAct.event : ClientAct → Option (Feed.Event Text)
  | .onMessage msg => if lane msg then some (.arrive msg) else none
  | .posFront => some .take
  | .discardPop => some .drop
  | _ => none

lemma narrow_narrow (p : ℤ × ℤ) : narrow (narrow p) = narrow p := by
  ext
  · simp only [narrow, toInt]
    omega
  · simp only [narrow, toInt]
    omega

/-- The car of a position stands where the fields say. -/
lemma coordinates_of_readUpdate {o : Object} {u : Text} {car : CarContext}
    (h : readUpdate o = some (.position u car)) :
    ∃ X Y, o.int64 "X" = some X ∧ o.int64 "Y" = some Y ∧ (car.X, car.Y) = narrow (X, Y) := by
  cases ht : o.uint64 "Type" with
  | none => simp [readUpdate, ht] at h
  | some type =>
    have hpos := (isPosition_readUpdate ht h).mp rfl
    simp only [readUpdate, ht, Option.bind_eq_bind, Option.bind_some, if_pos hpos,
      Option.bind_eq_some_iff, Option.pure_def, Option.some.injEq] at h
    obtain ⟨uuid, -, X, hX, Y, hY, color, -, he⟩ := h
    obtain ⟨-, rfl⟩ := Update.position.inj he
    exact ⟨X, Y, hX, hY, rfl⟩

/-- A message puts a player where it says, as far as an `int` holds the coordinates. -/
lemma place_eq (uuid s : Text) : place uuid s = (told uuid s).map narrow := by
  rw [place, told]
  split
  · rename_i u car hu
    split_ifs
    · obtain ⟨o, ho, hread⟩ := Option.bind_eq_some_iff.mp hu
      obtain ⟨X, Y, hX, hY, hcar⟩ := coordinates_of_readUpdate hread
      simp [ho, hX, hY, hcar]
    · rfl
  · rfl

lemma narrow_place {uuid s : Text} {p : ℤ × ℤ} (h : place uuid s = some p) : narrow p = p := by
  rw [place_eq, Option.map_eq_some_iff] at h
  obtain ⟨q, -, rfl⟩ := h
  exact narrow_narrow q

lemma lane_of_place {uuid s : Text} {p : ℤ × ℤ} (h : place uuid s = some p) : lane s := by
  rw [place] at h
  split at h
  · rename_i u car hu
    rw [lane, hu]
    rfl
  · cases h

/-- An update that is no exit puts a car where the update says, and no other. -/
lemma WellFormed.shownAt_apply {s : Text} {u : Update} (h : WellFormed s u) (hstays : u.Stays)
    (clientUUID : Text) (g : Gui) (uuid : Text) :
    ((u.apply clientUUID g).externalplayers uuid).map (fun car => (car.X, car.Y))
      = (place uuid s).or ((g.externalplayers uuid).map fun car => (car.X, car.Y)) := by
  rw [place, h.updateOf_eq]
  cases u with
  | position v car =>
    by_cases hv : uuid = v
    · simp [Update.apply, Gui.setPlayer, hv]
    · simp [Update.apply, Gui.setPlayer, hv, Ne.symm hv]
  | exit v => exact absurd rfl (hstays v)
  | color v k =>
    cases hp : g.externalplayers v with
    | none => simp [Update.apply, hp]
    | some car =>
      by_cases hv : uuid = v
      · simp [Update.apply, Gui.setPlayer, hp, hv]
      · simp [Update.apply, Gui.setPlayer, hp, hv]
  | text v entry =>
    simp only [Update.apply]
    split_ifs <;> rfl
  | timeStamp t => rfl
  | other => rfl

/-- A message of the other queue puts no player anywhere. -/
lemma place_of_lane {s : Text} (h : lane s = false) (uuid : Text) : place uuid s = none := by
  by_contra hp
  obtain ⟨p, hp⟩ := Option.ne_none_iff_exists'.mp hp
  rw [lane_of_place hp] at h
  cases h

section Feed

variable {c c' : Client} {a : ClientAct}

/-- A step of the client is the step of the feed that goes with its action, or does not show
there. -/
theorem Supplied.feed_step (h : Supplied Update.Stays c) (ho : Brings Update.Stays a)
    (hs : ClientStep c a c') :
    (∃ e, a.event = some e ∧ Feed.Step place e c.feed c'.feed) ∨
      (a.event = none ∧ c'.feed = c.feed) := by
  have shown_of_players : c'.gui.externalplayers = c.gui.externalplayers →
      c'.shownAt = c.shownAt := by
    intro hp
    ext uuid : 1
    rw [Client.shownAt, Client.shownAt, hp]
  cases h.flow ho hs with
  | @arrive msg u _ _ ha hr hq hp =>
    cases hl : lane msg with
    | true =>
      refine Or.inl ⟨.arrive msg, by simp [ClientAct.event, hl], .arrive msg ?_ ?_ ?_⟩
      · simp [Client.feed, ha, hl]
      · simp [Client.feed, hr, hq, hl]
      · exact shown_of_players hp
    | false =>
      refine Or.inr ⟨by simp [ClientAct.event, hl], ?_⟩
      simp [Client.feed, ha, hr, hq, hl, shown_of_players hp]
  | @relay msg u _ ha hr hq hq' hp =>
    -- a position goes from the front of what is unrelayed to the end of the queue before it
    refine Or.inr ⟨rfl, ?_⟩
    cases hl : lane msg with
    | true =>
      rw [hl] at hq
      simp [Client.feed, ha, hr, hq, hl, shown_of_players hp]
    | false =>
      rw [hl] at hq'
      have hpos : c'.untaken true = c.untaken true := hq'
      simp [Client.feed, ha, hr, hpos, hl, shown_of_players hp]
  | @take _ msg u ht hu hstays ha hr hq hq' hg =>
    -- the block carries out the whole update, which moves the player it is about, or nobody
    have hshown : ∀ uuid, c'.shownAt uuid = (place uuid msg).or (c.shownAt uuid) := by
      intro uuid
      rw [Client.shownAt, hg]
      exact hu.shownAt_apply hstays c.clientUUID c.gui uuid
    cases hl : lane msg with
    | true =>
      rw [hl] at ht hq
      refine Or.inl ⟨.take, ?_, .take msg ?_ ?_ hshown⟩
      · cases a <;> simp only [ClientAct.takes, reduceCtorEq, Option.some.injEq] at ht
        rfl
      · simp [Client.feed, ha]
      · simp [Client.feed, hr, hq]
    | false =>
      rw [hl] at ht hq'
      have hpos : c'.untaken true = c.untaken true := hq'
      refine Or.inr ⟨?_, ?_⟩
      · cases a <;> simp only [ClientAct.takes, reduceCtorEq, Option.some.injEq] at ht
        rfl
      · have hsame : c'.shownAt = c.shownAt := by
          ext uuid : 1
          rw [hshown, place_of_lane hl, Option.none_or]
        simp [Client.feed, ha, hr, hpos, hsame]
  | @drop msg ha hr hq hp =>
    refine Or.inl ⟨.drop, rfl, .drop msg ?_ ?_ ?_⟩
    · simp [Client.feed, ha]
    · simp [Client.feed, hr, hq]
    · exact shown_of_players hp
  | quiet hm ht hd ha hr hq hp =>
    refine Or.inr ⟨?_, ?_⟩
    · cases a with
      | onMessage msg => exact absurd rfl (hm msg)
      | posFront => cases ht
      | discardPop => cases hd
      | _ => rfl
    · simp [Client.feed, ha, hr, hq, shown_of_players hp]

end Feed

/-! ### Runs -/

/-- The batch pass pops the only message that waits about a player, who is shown elsewhere. -/
def Loses (uuid : Text) (c : Client) (a : ClientAct) : Prop :=
  a = .discardPop ∧ Feed.Precious place c.feed uuid

/-- A position of the player arrives. -/
def Informs (uuid : Text) (a : ClientAct) : Prop :=
  ∃ msg, a = .onMessage msg ∧ (place uuid msg).isSome

/-- Every player about whom a position has arrived is shown where the last one says. -/
def Converged (c : Client) : Prop :=
  ∀ uuid X Y, Feed.latest told uuid c.arrived = some (X, Y) →
    ∃ car, c.gui.externalplayers uuid = some car ∧ car.X = X ∧ car.Y = Y

/-- The coordinates that a player has sent last fit an `int`. -/
def Representable (uuid : Text) (c : Client) : Prop :=
  ∀ p, Feed.latest told uuid c.arrived = some p → narrow p = p

lemma loses_iff {uuid : Text} {c : Client} {a : ClientAct} :
    Loses uuid c a ↔ a.event = some .drop ∧ Feed.Precious place c.feed uuid := by
  cases a <;> simp [Loses, ClientAct.event]

lemma informs_iff {uuid : Text} {a : ClientAct} :
    Informs uuid a ↔ ∃ msg, a.event = some (.arrive msg) ∧ (place uuid msg).isSome := by
  cases a with
  | onMessage msg =>
    constructor
    · rintro ⟨msg', hmsg, hp⟩
      obtain rfl := ClientAct.onMessage.inj hmsg
      obtain ⟨p, hp'⟩ := Option.isSome_iff_exists.mp hp
      exact ⟨msg, by simp [ClientAct.event, lane_of_place hp'], hp⟩
    · rintro ⟨msg', hmsg, hp⟩
      simp only [ClientAct.event, Option.ite_none_right_eq_some, Option.some.injEq,
        Feed.Event.arrive.injEq] at hmsg
      exact ⟨msg, rfl, by rwa [hmsg.2]⟩
  | _ => simp [Informs, ClientAct.event]

/-- What one step makes of a player whose last position is shown, or waits to be. -/
lemma Supplied.current_iff {c c' : Client} {a : ClientAct} (h : Supplied Update.Stays c)
    (hg : Feed.Grounded place c.feed) (ho : Brings Update.Stays a) (hs : ClientStep c a c')
    (uuid : Text) : Feed.Current place c'.feed uuid ↔
      ¬ Loses uuid c a ∧ (Feed.Current place c.feed uuid ∨ Informs uuid a) := by
  rw [loses_iff, informs_iff]
  rcases h.feed_step ho hs with ⟨e, he, hstep⟩ | ⟨he, hsame⟩
  · rw [hstep.current_iff hg uuid, he]
    simp
  · rw [hsame, he]
    simp

/-- What a run in which nobody leaves keeps. -/
structure Fed (c : Client) : Prop where
  supplied : Supplied Update.Stays c
  grounded : Feed.Grounded place c.feed

lemma Fed.start (uuid : UuidV4) : Fed (Client.start uuid) where
  supplied := Supplied.start uuid
  grounded := by
    constructor <;> simp [Client.feed, Client.shownAt, Client.start, Client.untaken,
      Client.unrelayed]

lemma Fed.step {c c' : Client} {a : ClientAct} (h : Fed c) (ho : Brings Update.Stays a)
    (hs : ClientStep c a c') : Fed c' := by
  refine ⟨h.supplied.step ho hs, ?_⟩
  rcases h.supplied.feed_step ho hs with ⟨e, -, hstep⟩ | ⟨-, hsame⟩
  · exact h.grounded.step hstep
  · rw [hsame]
    exact h.grounded

lemma fed_of_exec {uuid : UuidV4} {l : List (Client × ClientAct)} {c : Client}
    (h : (client uuid).Exec l c) (ho : Machine.Meets (fun _ => Brings Update.Stays) l) :
    Fed c := by
  refine h.invariant_of_meets (I := fun _ => True) (fun _ _ _ => trivial) (Fed.start uuid) ?_ ho
  intro c a c' _ hc ha hs
  exact hc.step ha (clientStep_of_step hs)

lemma latest_place (uuid : Text) (l : List Text) :
    Feed.latest place uuid l = (Feed.latest told uuid l).map narrow := by
  have hplace : place uuid = fun s => (told uuid s).map narrow := by
    ext s : 1
    exact place_eq uuid s
  rw [Feed.latest, Feed.latest, hplace, ← List.getLast?_map, List.map_filterMap]

lemma converged_iff_shownAt {c : Client} :
    Converged c ↔ ∀ uuid p, Feed.latest told uuid c.arrived = some p →
      c.shownAt uuid = some p := by
  simp [Converged, Client.shownAt, Option.map_eq_some_iff, Prod.forall]

/-- Players are shown where an `int` can hold the coordinates. -/
lemma Fed.narrow_shownAt {c : Client} (h : Fed c) {uuid : Text} {p : ℤ × ℤ}
    (hp : c.shownAt uuid = some p) : narrow p = p := by
  obtain ⟨msg, -, hmsg⟩ := h.grounded.shown uuid p hp
  exact narrow_place hmsg

lemma Fed.converged_iff {c : Client} (h : Fed c) (hws : c.wsUpdatedJsonQueue = [])
    (hpos : c.positionJsonQueue = []) :
    Converged c ↔ ∀ uuid, Representable uuid c ∧ Feed.Current place c.feed uuid := by
  have hwait : c.feed.waiting = [] := by
    simp [Client.feed, Client.untaken, Client.unrelayed, hws, hpos]
  rw [converged_iff_shownAt]
  refine forall_congr' fun uuid => ?_
  have hlatest : Feed.latest place uuid c.feed.arrived
      = (Feed.latest told uuid c.arrived).map narrow := by
    rw [← latest_place]
    exact Feed.latest_filter (fun _ _ => lane_of_place) c.arrived
  rw [h.grounded.current_iff hwait, hlatest, Representable]
  cases hl : Feed.latest told uuid c.arrived with
  | none => simp
  | some p =>
    have hshown : c.feed.shown uuid = c.shownAt uuid := rfl
    simp only [Option.map_some, Option.some.injEq, forall_eq', hshown]
    constructor
    · intro hp
      have hfits : narrow p = p := h.narrow_shownAt hp
      exact ⟨hfits, by rw [hfits, hp]⟩
    · rintro ⟨hfits, hp⟩
      rw [hp, hfits]

/-- **Convergence, exactly.**  In a run in which nobody leaves, every player is shown where the
player's last position says, once the positions are drained, if and only if an `int` holds the
coordinates, and a batch pass that pops the only waiting message about a player who is shown
elsewhere is always followed by another position of that player. -/
theorem positions_converge_iff {uuid : UuidV4} {l : List (Client × ClientAct)} {c : Client}
    (h : (client uuid).Exec l c) (ho : Machine.Meets (fun _ => Brings Update.Stays) l)
    (hws : c.wsUpdatedJsonQueue = []) (hpos : c.positionJsonQueue = []) :
    Converged c ↔
      ∀ u, Representable u c ∧ ¬ Machine.Since (Loses u) (fun _ => Informs u) l := by
  rw [(fed_of_exec h ho).converged_iff hws hpos]
  refine forall_congr' fun u => and_congr Iff.rfl ?_
  refine h.iff_not_since (I := Fed) (P := fun c => Feed.Current place c.feed u)
    (fun _ _ => fed_of_exec) ?_ ?_ ho
  · simp [Feed.Current, client, Client.feed, Client.shownAt, Client.start, Client.untaken,
      Client.unrelayed]
  · intro c a c' hc ha hs
    exact hc.supplied.current_iff hc.grounded ha (clientStep_of_step hs) u

/-! ### A car that is never shown -/

/-- The only position of the player `a`. -/
def positionOfA : Text :=
  "\x7b\"Color\":\"0079F1\",\"Type\":1,\"UUID\":\"a\",\"X\":8,\"Y\":6\x7d".toList

/-- The position of `a` arrives among those of `b`, and is dropped by the batch pass. -/
def crowding : List ClientAct :=
  ([.wakeBatchHandler] : List ClientAct) ++ receive positionOfB ++ receive positionOfA
    ++ receive positionOfB ++ receive positionOfB
    ++ ([.posEmpty, .posFront, .posPop, .guiEmpty] : List ClientAct) ++ idleFrame
    ++ ([.discard, .discardPop, .discard] : List ClientAct)
    ++ ([.posEmpty, .posFront, .posPop, .guiEmpty] : List ClientAct) ++ idleFrame
    ++ ([.posEmpty, .posFront, .posPop, .guiEmpty] : List ClientAct) ++ idleFrame

lemma crowding_runs : ((client someUuid).run (client someUuid).init crowding).isSome := by
  decide +kernel

def crowdedClient : List (Client × ClientAct) × Client :=
  ((client someUuid).run (client someUuid).init crowding).get crowding_runs

lemma exec_crowded : (client someUuid).Exec crowdedClient.1 crowdedClient.2 :=
  Machine.exec_get_run crowding_runs

lemma wellFormed_positionOfA :
    WellFormed positionOfA (.position "a".toList ⟨8, 6, "0079F1".toList⟩) := by
  decide +kernel

/-- A check that the messages are those two. -/
def isPositional (x : Client × ClientAct) : Bool :=
  match x.2 with
  | .onMessage msg => msg == positionOfA || msg == positionOfB
  | _ => true

lemma brings_of_isPositional {P : Update → Prop} (hP : ∀ uuid car, P (.position uuid car))
    {l : List (Client × ClientAct)} (h : l.all isPositional) :
    Machine.Meets (fun _ => Brings P) l := by
  rintro ⟨c, a⟩ hx
  have hc : isPositional (c, a) := List.all_eq_true.mp h _ hx
  cases a with
  | onMessage msg =>
    simp only [isPositional, Bool.or_eq_true, beq_iff_eq] at hc
    rcases hc with rfl | rfl
    · exact ⟨_, wellFormed_positionOfA, hP _ _⟩
    · exact ⟨_, wellFormed_positionOfB, hP _ _⟩
  | _ => trivial

/-- What the run looks like: only positions arrive, and in the end none waits, while `a` is not
shown. -/
lemma crowded_check : crowdedClient.1.all isPositional = true
    ∧ crowdedClient.2.wsUpdatedJsonQueue = [] ∧ crowdedClient.2.positionJsonQueue = []
    ∧ crowdedClient.2.gui.externalplayers "a".toList = none
    ∧ Feed.latest told "a".toList crowdedClient.2.arrived = some (8, 6) := by
  decide +kernel

/-- The batch pass can drop the last position of a player. -/
theorem position_lost :
    ¬ ∀ uuid l c, (client uuid).Exec l c →
      Machine.Meets (fun _ => Brings fun u => u.isPosition) l →
      c.wsUpdatedJsonQueue = [] → c.positionJsonQueue = [] → Converged c := by
  intro h
  obtain ⟨hall, hws, hpos, hgone, htold⟩ := crowded_check
  have hconv := h someUuid _ _ exec_crowded
    (brings_of_isPositional (fun _ _ => rfl) hall) hws hpos
  obtain ⟨car, hcar, -⟩ := hconv "a".toList 8 6 htold
  rw [hgone] at hcar
  cases hcar

theorem positions_converge_iff_crowded : Converged crowdedClient.2 ↔
    ∀ u, Representable u crowdedClient.2 ∧
      ¬ Machine.Since (Loses u) (fun _ => Informs u) crowdedClient.1 :=
  positions_converge_iff exec_crowded
    (brings_of_isPositional (by simp [Update.Stays]) crowded_check.1) crowded_check.2.1
    crowded_check.2.2.1

end MultiplayerCars.CPPClient
