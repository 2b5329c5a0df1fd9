import MultiplayerCars.Lib.SplitFeed
import MultiplayerCars.CPPClient.Ghosts
import MultiplayerCars.CPPClient.Converge

/-!
# Which colours the other cars are shown in

A position brings the colour of its player along; a colour that is picked comes in a message of its
own, and goes through the other queue.  So a colour may be taken before an older position, which
then puts the old one back, or after a newer position, whose colour it then replaces.  The player is
shown in the wrong colour until the next message about it.
-/

namespace MultiplayerCars.CPPClient

open Lib Lib.Json

/-! ### The client as a feed of colours -/

/-- The colour that a message gives a player. -/
def paint (uuid s : Text) : Option Text :=
  match updateOf s with
  | some (.position u car) => if u = uuid then some car.color else none
  | some (.color u k) => if u = uuid then some k else none
  | _ => none

/-- The colour in which a player is shown. -/
def Client.colorOf (c : Client) (uuid : Text) : Option Text :=
  (c.gui.externalplayers uuid).map CarContext.color

/-- The messages that have arrived, those that no block has taken yet, and the colours of the
players. -/
def Client.palette (c : Client) : SplitFeed Text Text Text where
  arrived := c.arrived
  waiting := fun b => c.untaken b ++ c.unrelayed.filter (lane · == b)
  shown := c.colorOf

/-- What an action does to the colours. -/
def ClientAct.stroke : ClientAct → Option (SplitFeed.Event Text)
  | .onMessage msg => some (.arrive msg)
  | a => a.takes.map .take

/-- An update that is no exit gives a car the colour that the update says: a position in any case,
a colour if the player is known. -/
lemma WellFormed.colorOf_apply {s : Text} {u : Update} (h : WellFormed s u) (hstays : u.Stays)
    (clientUUID : Text) (g : Gui) :
    (fun uuid => ((u.apply clientUUID g).externalplayers uuid).map CarContext.color)
      = SplitFeed.after paint lane s fun uuid =>
          (g.externalplayers uuid).map CarContext.color := by
  funext uuid
  rw [SplitFeed.after, paint, h.updateOf_eq, h.lane_eq]
  cases u with
  | position v car =>
    by_cases hv : uuid = v
    · simp [Update.apply, Update.isPosition, Gui.setPlayer, hv]
    · simp [Update.apply, Update.isPosition, Gui.setPlayer, hv, Ne.symm hv]
  | exit v => exact absurd rfl (hstays v)
  | color v k =>
    cases hp : g.externalplayers v with
    | none =>
      by_cases hv : uuid = v
      · simp [Update.apply, Update.isPosition, hp, hv]
      · simp [Update.apply, Update.isPosition, hp, Ne.symm hv, Function.comp_def]
    | some car =>
      by_cases hv : uuid = v
      · simp [Update.apply, Update.isPosition, Gui.setPlayer, hp, hv]
      · simp [Update.apply, Update.isPosition, Gui.setPlayer, hp, hv, Ne.symm hv,
          Function.comp_def]
  | timeStamp t => simp [Update.apply, Update.isPosition, Function.comp_def]
  | text v entry =>
    by_cases hv : v = clientUUID
    · simp [Update.apply, Update.isPosition, hv, Function.comp_def]
    · simp [Update.apply, Update.isPosition, Gui.pushText, hv, Function.comp_def]
  | other => simp [Update.apply, Update.isPosition, Function.comp_def]

section Palette

variable {c c' : Client} {a : ClientAct}

/-- Without a batch pass, a step of the client is the step of the colours that goes with its action,
or does not show there. -/
theorem Supplied.palette_step (h : Supplied Update.Stays c) (hrun : ¬ c.Discarding)
    (ho : Brings Update.Stays a) (hs : ClientStep c a c') :
    (∃ e, a.stroke = some e ∧ SplitFeed.Step paint lane e c.palette c'.palette) ∨
      (a.stroke = none ∧ c'.palette = c.palette) := by
  have shown_of_players : c'.gui.externalplayers = c.gui.externalplayers →
      c'.colorOf = c.colorOf := by
    intro hp
    ext uuid : 1
    rw [Client.colorOf, Client.colorOf, hp]
  cases h.flow ho hs with
  | @arrive msg u _ _ ha hr hq hp =>
    refine Or.inl ⟨.arrive msg, rfl, .arrive msg ?_ ?_ ?_ (shown_of_players hp)⟩
    · simp [Client.palette, ha]
    · simp [Client.palette, hr, hq]
    · simp [Client.palette, hr, hq]
  | @relay msg u _ ha hr hq hq' hp =>
    -- a message goes from the front of what is unrelayed to the end of its queue
    refine Or.inr ⟨rfl, ?_⟩
    have hwait : ∀ b, c'.untaken b ++ c'.unrelayed.filter (lane · == b)
        = c.untaken b ++ c.unrelayed.filter (lane · == b) := by
      intro b
      rw [hr]
      by_cases hb : b = lane msg
      · simp [hb, hq]
      · simp [Bool.eq_not_of_ne hb, hq']
    simp only [Client.palette, ha, hwait, shown_of_players hp]
  | @take _ msg u ht hu hstays ha hr hq hq' hg =>
    have hstroke : a.stroke = some (.take (lane msg)) := by
      cases a <;> simp only [ClientAct.takes, reduceCtorEq, Option.some.injEq] at ht <;>
        rw [← ht] <;> rfl
    refine Or.inl ⟨.take (lane msg), hstroke, .take msg ha ?_ ?_ ?_⟩
    · simp [Client.palette, hr, hq]
    · simp [Client.palette, hr, hq']
    · have hshown : c'.colorOf = SplitFeed.after paint lane msg c.colorOf := by
        rw [show c'.colorOf = fun uuid =>
          (c'.gui.externalplayers uuid).map CarContext.color from rfl, hg]
        exact hu.colorOf_apply hstays c.clientUUID c.gui
      exact hshown
  | drop =>
    -- the main loop is in no batch pass
    cases hs with
    | discardPop hpc => exact absurd ⟨_, Or.inr hpc⟩ hrun
  | quiet hm ht hd ha hr hq hp =>
    refine Or.inr ⟨?_, ?_⟩
    · cases a with
      | onMessage msg => exact absurd rfl (hm msg)
      | posFront => cases ht
      | guiFront => cases ht
      | _ => rfl
    · simp [Client.palette, ha, hr, hq, shown_of_players hp]

end Palette

/-! ### Runs -/

/-- A block takes the newest message about the player, and the last of the older ones that wait in
the other queue has another colour. -/
def Overtakes (uuid : Text) (c : Client) (a : ClientAct) : Prop :=
  ∃ b, a.takes = some b ∧ SplitFeed.Overtakes paint lane c.palette uuid b

/-- A position or a colour of the player arrives. -/
def Repaints (uuid : Text) (a : ClientAct) : Prop :=
  ∃ msg, a = .onMessage msg ∧ (paint uuid msg).isSome

/-- Every player whose first message was a position is shown in the colour of its last position or
colour. -/
def Painted (c : Client) : Prop :=
  ∀ uuid, SplitFeed.Introduced paint lane uuid c.arrived → ∀ k,
    Feed.latest paint uuid c.arrived = some k →
      ∃ car, c.gui.externalplayers uuid = some car ∧ car.color = k

/-- What a run in which nobody leaves keeps, as long as there is no batch pass. -/
structure Dyed (c : Client) : Prop where
  tidy : Tidy c
  supplied : Supplied Update.Stays c
  grounded : SplitFeed.Grounded paint lane c.palette

lemma Dyed.start (uuid : UuidV4) : Dyed (Client.start uuid) where
  tidy := (Orderly.start uuid).tidy
  supplied := Supplied.start uuid
  grounded := by
    constructor
    · intro b
      cases b <;> simp [Client.palette, Client.start, Client.untaken, Client.unrelayed]
    · intro k before hbefore hsome
      simp [Client.palette, Client.start] at hbefore
      simp [hbefore.1] at hsome

lemma Dyed.step {c c' : Client} {a : ClientAct} (h : Dyed c) (ho : Ordinary c a)
    (hb : Brings Update.Stays a) (hs : ClientStep c a c') : Dyed c' := by
  refine ⟨h.tidy.step ho hs, h.supplied.step hb hs, ?_⟩
  rcases h.supplied.palette_step h.tidy.running hb hs with ⟨e, -, hstep⟩ | ⟨-, hsame⟩
  · exact h.grounded.step hstep
  · rw [hsame]
    exact h.grounded

lemma dyed_of_exec {uuid : UuidV4} {l : List (Client × ClientAct)} {c : Client}
    (h : (client uuid).Exec l c)
    (hok : Machine.Meets (fun c a => Ordinary c a ∧ Brings Update.Stays a) l) : Dyed c := by
  refine h.invariant_of_meets (I := fun _ => True) (fun _ _ _ => trivial) (Dyed.start uuid) ?_ hok
  intro c a c' _ hc ha hs
  exact hc.step ha.1 ha.2 (clientStep_of_step hs)

/-- What one step makes of a player whose last colour is shown, or waits to be. -/
lemma Dyed.current_iff {c c' : Client} {a : ClientAct} (h : Dyed c) (hb : Brings Update.Stays a)
    (hs : ClientStep c a c') {uuid : Text}
    (hintro : SplitFeed.Introduced paint lane uuid c.arrived) :
    SplitFeed.Current paint lane c'.palette uuid ↔
      ¬ Overtakes uuid c a ∧ (SplitFeed.Current paint lane c.palette uuid ∨ Repaints uuid a) := by
  have htake : ∀ b, a.stroke = some (.take b) ↔ a.takes = some b := by
    intro b
    cases a <;> simp [ClientAct.stroke, ClientAct.takes]
  have harrive : ∀ msg, a.stroke = some (.arrive msg) ↔ a = .onMessage msg := by
    intro msg
    cases a <;> simp [ClientAct.stroke, ClientAct.takes]
  simp only [Overtakes, Repaints, ← htake, ← harrive]
  rcases h.supplied.palette_step h.tidy.running hb hs with ⟨e, he, hstep⟩ | ⟨he, hsame⟩
  · rw [hstep.current_iff h.grounded hintro, he]
    simp
  · rw [hsame, he]
    simp

/-- In every state of a run the first message about a player is the one that it is in the end. -/
lemma introduced_before {uuid : UuidV4} {l : List (Client × ClientAct)} {c : Client}
    (h : (client uuid).Exec l c) {u : Text}
    (hintro : SplitFeed.Introduced paint lane u c.arrived) :
    Machine.Meets (fun c _ => SplitFeed.Introduced paint lane u c.arrived) l := by
  intro x hx
  obtain ⟨c', hs, hleads⟩ := h.leads_of_mem hx
  obtain ⟨later, hlater⟩ := arrived_prefix_of_leads (hleads.head ⟨x.2, hs⟩)
  rw [← hlater] at hintro
  exact hintro.of_append

/-- **Colours, exactly.**  In a run in which nobody leaves and without a batch pass, every player
whose first message was a position is shown in the colour of its last message, once all queues are
drained, if and only if whenever the newest message about such a player is taken while the last of
the older ones in the other queue has another colour, a later one arrives. -/
theorem colors_converge_iff {uuid : UuidV4} {l : List (Client × ClientAct)} {c : Client}
    (h : (client uuid).Exec l c) (ho : Machine.Meets Ordinary l)
    (hb : Machine.Meets (fun _ => Brings Update.Stays) l) (hd : Drained c) :
    Painted c ↔ ∀ u, SplitFeed.Introduced paint lane u c.arrived →
      ¬ Machine.Since (Overtakes u) (fun _ => Repaints u) l := by
  refine forall_congr' fun u => forall_congr' fun hintro => ?_
  have hwait : ∀ b, c.palette.waiting b = [] := by
    intro b
    cases b <;> simp [Client.palette, Client.untaken, Client.unrelayed, hd.ws, hd.pos, hd.gui]
  have hshown : (∀ k, Feed.latest paint u c.arrived = some k →
      ∃ car, c.gui.externalplayers u = some car ∧ car.color = k)
      ↔ SplitFeed.Current paint lane c.palette u := by
    rw [SplitFeed.current_iff_of_drained hwait]
    simp only [Client.palette, Client.colorOf, Option.map_eq_some_iff]
  have hbefore := introduced_before h hintro
  have hok : Machine.Meets (fun c a => (Ordinary c a ∧ Brings Update.Stays a) ∧
      SplitFeed.Introduced paint lane u c.arrived) l :=
    fun x hx => ⟨⟨ho x hx, hb x hx⟩, hbefore x hx⟩
  rw [hshown]
  refine h.iff_not_since (I := Dyed) (P := fun c => SplitFeed.Current paint lane c.palette u)
    (fun l c hl hmeets => dyed_of_exec hl fun x hx => (hmeets x hx).1) ?_ ?_ hok
  · intro b v hnew
    cases hnew
  · intro c a c' hc ha hs
    exact hc.current_iff ha.1.2 (clientStep_of_step hs) ha.2

/-! ### A colour that is lost -/

/-- The player `b` has picked another colour. -/
def colorOfB : Text :=
  ("\x7b\"Type\":2,\"UUID\":\"b\",\"TimeStamp\":\"\",\"X\":0,\"Y\":0,".toList
    ++ "\"Color\":\"0079F1\"\x7d".toList)

/-- Two positions of `b` arrive, and its new colour, which is taken between the two. -/
def overpainting : List ClientAct :=
  receive positionOfB ++ receive positionOfB ++ receive colorOfB
    ++ [.posEmpty, .posFront, .posPop, .guiEmpty, .guiSize, .guiFront, .guiPop] ++ idleFrame
    ++ [.posEmpty, .posFront, .posPop, .guiEmpty] ++ idleFrame

lemma overpainting_runs : ((client someUuid).run (client someUuid).init overpainting).isSome := by
  decide +kernel

def overpainted : List (Client × ClientAct) × Client :=
  ((client someUuid).run (client someUuid).init overpainting).get overpainting_runs

lemma exec_overpainted : (client someUuid).Exec overpainted.1 overpainted.2 :=
  Machine.exec_get_run overpainting_runs

lemma wellFormed_colorOfB : WellFormed colorOfB (.color "b".toList "0079F1".toList) := by
  decide +kernel

/-- The update is a position or a colour. -/
def Update.Paints : Update → Prop
  | .position _ _ | .color _ _ => True
  | _ => False

lemma Update.Paints.stays {u : Update} (h : u.Paints) : u.Stays := by
  rintro uuid rfl
  exact h

/-- A check that the messages are those two, and that no batch pass takes place. -/
def isPainting (x : Client × ClientAct) : Bool :=
  match x.2 with
  | .onMessage msg => msg == positionOfB || msg == colorOfB
  | .batch => !x.1.discards
  | _ => true

lemma meets_of_isPainting {l : List (Client × ClientAct)} (h : l.all isPainting) :
    Machine.Meets Ordinary l ∧ Machine.Meets (fun _ => Brings Update.Paints) l := by
  have hstep : ∀ x ∈ l, Ordinary x.1 x.2 ∧ Brings Update.Paints x.2 := by
    rintro ⟨c, a⟩ hx
    have hc : isPainting (c, a) := List.all_eq_true.mp h _ hx
    cases a with
    | onMessage msg =>
      simp only [isPainting, Bool.or_eq_true, beq_iff_eq] at hc
      rcases hc with rfl | rfl
      · exact ⟨⟨_, wellFormed_positionOfB⟩, _, wellFormed_positionOfB, trivial⟩
      · exact ⟨⟨_, wellFormed_colorOfB⟩, _, wellFormed_colorOfB, trivial⟩
    | batch =>
      have hno : c.discards = false := by simpa [isPainting] using hc
      exact ⟨hno, trivial⟩
    | _ => exact ⟨trivial, trivial⟩
  exact ⟨fun x hx => (hstep x hx).1, fun x hx => (hstep x hx).2⟩

/-- What the run looks like: in the end nothing waits, the first message about `b` is a position and
the last one its new colour, and `b` is shown in the old one. -/
lemma overpainted_check : overpainted.1.all isPainting = true
    ∧ overpainted.2.wsUpdatedJsonQueue = [] ∧ overpainted.2.positionJsonQueue = []
    ∧ overpainted.2.guiJsonQueue = []
    ∧ overpainted.2.arrived = [positionOfB, positionOfB, colorOfB]
    ∧ overpainted.2.colorOf "b".toList = some "E62937".toList := by
  decide +kernel

lemma introduced_overpainted :
    SplitFeed.Introduced paint lane "b".toList [positionOfB, positionOfB, colorOfB] ∧
      Feed.latest paint "b".toList [positionOfB, positionOfB, colorOfB]
        = some "0079F1".toList := by
  have hposition : paint "b".toList positionOfB = some "E62937".toList := by
    rw [paint, wellFormed_positionOfB.updateOf_eq]
    exact if_pos rfl
  have hcolor : paint "b".toList colorOfB = some "0079F1".toList := by
    rw [paint, wellFormed_colorOfB.updateOf_eq]
    exact if_pos rfl
  constructor
  · intro m hm
    rw [List.find?_cons_of_pos (by rw [hposition]; rfl)] at hm
    rw [← Option.some.inj hm, wellFormed_positionOfB.lane_eq]
    rfl
  · rw [Feed.latest_cons, Feed.latest_cons, Feed.latest_singleton, hcolor]
    rfl

/-- A player can be shown in a colour that it has changed. -/
theorem color_overtaken :
    ¬ ∀ uuid l c, (client uuid).Exec l c → Machine.Meets Ordinary l →
      Machine.Meets (fun _ => Brings Update.Paints) l → Drained c → Painted c := by
  intro h
  obtain ⟨hall, hws, hpos, hgui, harrived, hshown⟩ := overpainted_check
  obtain ⟨hord, hbrings⟩ := meets_of_isPainting hall
  have hp := h someUuid _ _ exec_overpainted hord hbrings ⟨hws, hpos, hgui⟩ "b".toList
  rw [harrived] at hp
  obtain ⟨car, hcar, hk⟩ := hp introduced_overpainted.1 _ introduced_overpainted.2
  rw [Client.colorOf, hcar, Option.map_some, Option.some.injEq, hk] at hshown
  exact absurd hshown (by decide)

theorem colors_converge_iff_overpainted : Painted overpainted.2 ↔
    ∀ u, SplitFeed.Introduced paint lane u overpainted.2.arrived →
      ¬ Machine.Since (Overtakes u) (fun _ => Repaints u) overpainted.1 := by
  obtain ⟨hord, hbrings⟩ := meets_of_isPainting overpainted_check.1
  have hstays : Machine.Meets (fun _ => Brings Update.Stays) overpainted.1 := by
    rintro ⟨c, a⟩ hx
    have hc : Brings Update.Paints a := hbrings _ hx
    cases a with
    | onMessage msg =>
      obtain ⟨u, hu, hpaints⟩ := hc
      exact ⟨u, hu, hpaints.stays⟩
    | _ => trivial
  exact colors_converge_iff exec_overpainted hord hstays
    ⟨overpainted_check.2.1, overpainted_check.2.2.1, overpainted_check.2.2.2.1⟩

end MultiplayerCars.CPPClient
