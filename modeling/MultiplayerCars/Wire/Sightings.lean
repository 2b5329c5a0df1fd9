import MultiplayerCars.CPPClient.Driving
import MultiplayerCars.CPPClient.Palette
import MultiplayerCars.Wire.Agreement
import MultiplayerCars.Wire.ChatOrder

/-!
# Nobody is shown where they have never been

Between the state in which a car moves and the state in which everybody shows it there, the others
show it somewhere else.  What they show is late and nothing worse: a place where the car has been
before, in the same run, and a colour that it has had.  Nor is a text put into anybody's mouth.  All
this is one property of updates, that grows with the run: whatever is true once, has been true ever
after.
-/

namespace MultiplayerCars.Wire

open Lib Lib.Json CPPClient
open GoServer (ClientId Act Server)

section History

variable (l : List (World × WorldAct)) (w : World) (x : ClientId)

/-- In one of the states of a run the car of the client was there. -/
def Visited (p : ℤ × ℤ) : Prop := Machine.Once (fun w => ((w.client x).X, (w.client x).Y) = p) l w

/-- In one of the states of a run the car of the client had this colour. -/
def Wore (k : Text) : Prop := Machine.Once (fun w => (w.client x).carColor.text = k) l w

/-- In one of the steps of a run the client sent this line. -/
def Typed (entry : TextContext) : Prop :=
  ∃ s ∈ l, s.2 = .client x (.text true) ∧ (s.1.client x).text = true ∧
    entry.colorStr = (s.1.client x).carColor.text ∧ entry.text = (s.1.client x).textmessage.text

end History

/-- An update that tells something of a player: a place where its car has been, a colour that it has
had, a line that it has sent. -/
def Vouched (P : Party) (l : List (World × WorldAct)) (w : World) : Update → Prop
  | .position uuid car => ∃ x ∈ P.members, (P.uuid x).text = uuid ∧
      Visited l w x (car.X, car.Y) ∧ Wore l w x car.color
  | .color uuid k => ∃ x ∈ P.members, (P.uuid x).text = uuid ∧ Wore l w x k
  | .text uuid entry => ∃ x ∈ P.members, (P.uuid x).text = uuid ∧ Typed l x entry
  | _ => True

/-- The window shows what satisfies `Q`. -/
structure Pictured (Q : Update → Prop) (c : Client) : Prop where
  cars : ∀ uuid car, c.gui.externalplayers uuid = some car → Q (.position uuid car)
  lines : ∀ entry ∈ c.gui.textmessagesdisplay, entry.leftSide = true →
    ∃ uuid, uuid ≠ c.clientUUID ∧ Q (.text uuid entry)

section

variable {P : Party} {Q Q' : Update → Prop} {w w' : World} {l : List (World × WorldAct)}
  {a : WorldAct}

/-! ### What a window shows -/

lemma Pictured.start (uuid : UuidV4) : Pictured Q (Client.start uuid) := by
  constructor
  · intro v car hcar
    cases hcar
  · intro entry he hleft
    rw [List.eq_of_mem_replicate he] at hleft
    cases hleft

lemma Pictured.mono (hQ : ∀ u, Q u → Q' u) {c : Client} (h : Pictured Q c) : Pictured Q' c :=
  ⟨fun uuid car hcar => hQ _ (h.cars uuid car hcar),
    fun entry he hleft => (h.lines entry he hleft).imp fun _ => And.imp_right (hQ _)⟩

/-- A car is shown as an update has brought it, or repainted. -/
lemma players_apply {u : Update} (hu : Q u)
    (hpaint : ∀ v car k, Q (.position v car) → Q (.color v k) →
      Q (.position v { car with color := k }))
    {g : Gui} (h : ∀ v car, g.externalplayers v = some car → Q (.position v car)) (own v : Text)
    (car : CarContext) (hcar : (u.apply own g).externalplayers v = some car) :
    Q (.position v car) := by
  have hset : ∀ uuid (new : Option CarContext), (∀ car, new = some car → Q (.position uuid car)) →
      Function.update g.externalplayers uuid new v = some car → Q (.position v car) := by
    intro uuid new hnew hcar
    by_cases hv : v = uuid
    · subst hv
      rw [Function.update_self] at hcar
      exact hnew car hcar
    · rw [Function.update_of_ne hv] at hcar
      exact h v car hcar
  cases u with
  | position uuid car' =>
    refine hset uuid (some car') (fun car he => ?_) hcar
    rw [← Option.some.inj he]
    exact hu
  | color uuid k =>
    rw [Update.apply] at hcar
    cases hold : g.externalplayers uuid with
    | none =>
      rw [hold] at hcar
      exact h v car hcar
    | some car' =>
      rw [hold] at hcar
      refine hset uuid (some { car' with color := k }) (fun car he => ?_) hcar
      rw [← Option.some.inj he]
      exact hpaint uuid car' k (h uuid car' hold) hu
  | exit uuid => exact hset uuid none (fun car he => by cases he) hcar
  | text fromUUID entry =>
    rw [Update.apply] at hcar
    split_ifs at hcar <;> exact h v car hcar
  | _ => exact h v car hcar

/-- A line of another player has been taken from the queue of the rest. -/
lemma heard_supplied {c : Client} (hsup : Supplied Q c) {b : ClientAct} {said : Text × TextContext}
    (h : c.heard b = some said) : said.1 ≠ c.clientUUID ∧ Q (.text said.1 said.2) := by
  cases b with
  | guiFront =>
    obtain ⟨front, hfront, hchat⟩ := Option.bind_eq_some_iff.mp h
    obtain ⟨u, hu, hq, -⟩ := hsup.gui front (List.mem_of_mem_head? hfront)
    rw [chatOf, hu.updateOf_eq] at hchat
    cases u with
    | text uuid entry =>
      dsimp only at hchat
      split_ifs at hchat with hown
      rw [← Option.some.inj hchat]
      exact ⟨hown, hq⟩
    | _ => cases hchat
  | _ => cases h

theorem Pictured.step {c c' : Client} (h : Pictured Q c) (hsup : Supplied Q c)
    (hpaint : ∀ v car k, Q (.position v car) → Q (.color v k) →
      Q (.position v { car with color := k }))
    {b : ClientAct} (hb : Brings Q b) (hs : ClientStep c b c') : Pictured Q c' := by
  have huuid : c'.clientUUID = c.clientUUID := by
    rw [Client.clientUUID, hs.sessionStep.uuid, Client.clientUUID]
  constructor
  · cases hsup.flow hb hs with
    | take ht hu hq ha hr hq' ho hg =>
      rw [hg]
      exact players_apply hq hpaint h.cars c.clientUUID
    | arrive _ _ _ _ _ hp | relay _ _ _ _ _ hp | drop _ _ _ hp | quiet _ _ _ _ _ _ hp =>
      rw [hp]
      exact h.cars
  · intro entry he hleft
    rw [huuid]
    rw [window_of_step hs] at he
    cases hline : c.line b with
    | none =>
      rw [hline] at he
      exact h.lines entry he hleft
    | some line =>
      rw [hline] at he
      rcases List.mem_cons.mp he with rfl | he
      · rw [Client.line] at hline
        cases hheard : c.heard b with
        | some said =>
          rw [hheard] at hline
          obtain rfl := Option.some.inj hline
          exact ⟨said.1, heard_supplied hsup hheard⟩
        | none =>
          -- the player's own lines are on the other side
          rw [hheard] at hline
          have hecho : c.echoed b = some entry := hline
          cases b with
          | mouse color send ready =>
            cases send with
            | true => rw [← Option.some.inj hecho] at hleft; cases hleft
            | false => cases hecho
          | typing textmessage enter =>
            cases enter with
            | true => rw [← Option.some.inj hecho] at hleft; cases hleft
            | false => cases hecho
          | _ => cases hecho
      · exact h.lines entry (List.mem_of_mem_dropLast he) hleft

/-! ### What is known of a run -/

lemma Typed.snoc {x : ClientId} {entry : TextContext} (h : Typed l x entry) (s : World × WorldAct) :
    Typed (l ++ [s]) x entry :=
  h.imp fun _ => And.imp_left (List.mem_append_left _)

lemma Vouched.snoc {u : Update} (h : Vouched P l w u) : Vouched P (l ++ [(w, a)]) w' u := by
  cases u with
  | position uuid car =>
    obtain ⟨x, hx, hv, hvisited, hwore⟩ := h
    exact ⟨x, hx, hv, Machine.Once.snoc hvisited, Machine.Once.snoc hwore⟩
  | color uuid k =>
    obtain ⟨x, hx, hv, hwore⟩ := h
    exact ⟨x, hx, hv, Machine.Once.snoc hwore⟩
  | text uuid entry =>
    obtain ⟨x, hx, hv, htyped⟩ := h
    exact ⟨x, hx, hv, htyped.snoc _⟩
  | _ => trivial

/-- Every car has been where cars begin. -/
lemma visited_origin (h : (world P).Exec l w) (x : ClientId) : Visited l w x (0, 0) := by
  induction h with
  | nil => exact Or.inl rfl
  | snoc hl hs ih => exact Machine.Once.snoc ih

lemma lenient_vouched (h : (world P).Exec l w) : Lenient (Vouched P l w) where
  timeStamp := fun _ => trivial
  exit := fun _ => trivial
  announced := by
    rintro v k ⟨x, hx, hv, hwore⟩
    exact ⟨x, hx, hv, visited_origin h x, hwore⟩

/-- A player who is repainted is the one who was there. -/
lemma Vouched.repaint (v : Text) (car : CarContext) (k : Text)
    (hcar : Vouched P l w (.position v car)) (hk : Vouched P l w (.color v k)) :
    Vouched P l w (.position v { car with color := k }) := by
  obtain ⟨x, hx, hv, hvisited, -⟩ := hcar
  obtain ⟨x', hx', hv', hwore⟩ := hk
  obtain rfl := P.distinct x hx x' hx' (UuidV4.ext (hv.trans hv'.symm))
  exact ⟨x, hx, hv, hvisited, hwore⟩

/-- What a client may say now of its car is the case now. -/
lemma sincere_vouched (hm : ∀ i, (w.client i).session.currColor = (w.client i).carColor)
    {i : ClientId} (hi : i ∈ P.members) :
    Sincere (Vouched P l w) (P.uuid i).text (w.client i) := by
  have hcolor : (w.client i).carColor.text = (w.client i).session.currColor.text := by
    rw [hm]
  exact ⟨⟨i, hi, rfl, Or.inl rfl, Or.inl hcolor⟩, ⟨i, hi, rfl, Or.inl hcolor⟩⟩

/-- The text that a step sends is one that has been sent after it. -/
lemma speaks_vouched (hm : ∀ i, (w.client i).session.currColor = (w.client i).carColor) :
    Speaks P (Vouched P (l ++ [(w, a)]) w') w a := by
  cases a with
  | client i a =>
    rintro hi rfl ht now
    refine ⟨i, hi, rfl, (w, .client i (.text true)), by simp, rfl, ht, ?_, rfl⟩
    rw [hm]
  | _ => trivial

lemma matched_worldStep (hs : WorldStep P w a w')
    (h : ∀ i, (w.client i).session.currColor = (w.client i).carColor) (i : ClientId) :
    (w'.client i).session.currColor = (w'.client i).carColor := by
  cases hs with
  | server => exact h i
  | client hm hs | deliver hd hs =>
    exact forall_update (p := fun _ c => c.session.currColor = c.carColor) (h i)
      fun hi => hs.matched hi

/-- Everything that is on its way in a run is vouched for, and everything that is shown. -/
structure Pictures (P : Party) (Q : Update → Prop) (w : World) : Prop where
  courteous : Courteous P Q w
  windows : ∀ y, Pictured Q (w.client y)

lemma Pictures.mono (hQ : ∀ u, Q u → Q' u) (h : Pictures P Q w) : Pictures P Q' w :=
  ⟨h.courteous.mono hQ, fun y => (h.windows y).mono hQ⟩

theorem Pictures.step (h : Pictures P Q w) (hQ : Lenient Q)
    (hpaint : ∀ v car k, Q (.position v car) → Q (.color v k) →
      Q (.position v { car with color := k }))
    (ha : Outspoken w a) (hs : WorldStep P w a w')
    (hsincere : ∀ i ∈ P.members, Sincere Q (P.uuid i).text (w'.client i))
    (hspeaks : Speaks P Q w a) : Pictures P Q w' := by
  refine ⟨h.courteous.step hQ ha hs hsincere hspeaks, fun y => ?_⟩
  cases hs with
  | server => exact h.windows y
  | @client i a c hm hs =>
    have hb : Brings Q a := by
      cases a with
      | onMessage msg => exact absurd rfl (hm msg)
      | _ => trivial
    refine forall_update (p := fun _ c => Pictured Q c) (h.windows y) ?_
    rintro -
    exact (h.windows i).step (h.courteous.supplied i) hpaint hb hs
  | @deliver i msg rest c hd hs =>
    refine forall_update (p := fun _ c => Pictured Q c) (h.windows y) ?_
    rintro -
    exact (h.windows i).step (h.courteous.supplied i) hpaint (h.courteous.brings hd) hs

lemma pictures_of_exec (h : (world P).Exec l w) (hspoken : Machine.Meets Outspoken l) :
    Pictures P (Vouched P l w) w := by
  induction h with
  | nil =>
    exact ⟨Courteous.start P fun i hi => sincere_vouched (fun _ => rfl) hi,
      fun y => Pictured.start (P.uuid y)⟩
  | @snoc l w w' a hl hs ih =>
    obtain ⟨hspoken, ha⟩ := Machine.meets_snoc.mp hspoken
    have hold := ih hspoken
    have hstep := worldStep_of_step hs
    have hmatched := hold.courteous.matched
    refine (hold.mono fun u hu => hu.snoc).step (lenient_vouched (hl.snoc hs)) Vouched.repaint ha
      hstep (fun i hi => sincere_vouched (matched_worldStep hstep hmatched) hi) ?_
    exact speaks_vouched hmatched

/-- **No phantom cars.**  In every state of a run in which the texts that are sent need no escapes,
whatever is on its way, a client shows a car only if it is that of a player, at a place where the
car has been and in a colour that it has had. -/
theorem shown_where_it_was (h : (world P).Exec l w) (hspoken : Machine.Meets Outspoken l)
    {y : ClientId} {v : Text} {car : CarContext}
    (hshown : (w.client y).gui.externalplayers v = some car) :
    ∃ x ∈ P.members, (P.uuid x).text = v ∧ Visited l w x (car.X, car.Y) ∧ Wore l w x car.color :=
  ((pictures_of_exec h hspoken).windows y).cars v car hshown

/-- **No text is put into anybody's mouth.**  In every state of such a run, a line on the left of
the window of a client is the text of another player, as it was typed, and in the colour of the car
that the player had when it was sent. -/
theorem line_of_sender (h : (world P).Exec l w) (hspoken : Machine.Meets Outspoken l)
    {y : ClientId} {entry : TextContext} (hentry : entry ∈ (w.client y).gui.textmessagesdisplay)
    (hleft : entry.leftSide = true) : ∃ x ∈ P.members, x ≠ y ∧ Typed l x entry := by
  have hpictures := pictures_of_exec h hspoken
  obtain ⟨v, hne, x, hx, rfl, htyped⟩ := (hpictures.windows y).lines entry hentry hleft
  refine ⟨x, hx, ?_, htyped⟩
  rintro rfl
  rw [Client.clientUUID, hpictures.courteous.owner] at hne
  exact hne rfl

/-! ### What every client keeps -/

/-- What the steps of a client keep holds of the clients of a run. -/
lemma client_of_exec {I : Client → Prop} (ok : ClientAct → Prop)
    (h₀ : ∀ uuid, I (Client.start uuid))
    (hstep : ∀ c b c', I c → ok b → ClientStep c b c' → I c') (hmsg : ∀ msg, ok (.onMessage msg))
    (h : (world P).Exec l w)
    (hok : Machine.Meets (fun _ a => ∀ i b, a = .client i b → ok b) l) (x : ClientId) :
    I (w.client x) := by
  refine h.invariant_of_meets (P := fun w => ∀ x, I (w.client x)) (I := fun _ => True)
    (fun _ _ _ => trivial) (fun x => h₀ (P.uuid x)) ?_ hok x
  rintro w a w' - hw ha hs x
  cases worldStep_of_step hs with
  | server => exact hw x
  | @client i b c hm hclient =>
    exact forall_update (p := fun _ c => I c) (hw x)
      fun _ => hstep _ _ _ (hw i) (ha i b rfl) hclient
  | @deliver i msg rest c hd hclient =>
    exact forall_update (p := fun _ c => I c) (hw x)
      fun _ => hstep _ _ _ (hw i) (hmsg msg) hclient

/-- What holds in every state of a run holds where something was the case once. -/
lemma once_and {p q : World → Prop} {ok : World → WorldAct → Prop} (h : (world P).Exec l w)
    (hok : Machine.Meets ok l) (hq : ∀ l w, (world P).Exec l w → Machine.Meets ok l → q w)
    (hp : Machine.Once p l w) : ∃ w, p w ∧ q w := by
  have halways := h.always_of_meets hq hok
  rcases hp with hp | ⟨x, hx, hp⟩
  · exact ⟨w, hp, halways.2⟩
  · exact ⟨x.1, hp, halways.1 x hx⟩

/-- **Nobody is shown outside of the field.**  In every state of such a run, a car that a client
shows is wholly inside the field, on even coordinates. -/
theorem shown_in_field (h : (world P).Exec l w) (hspoken : Machine.Meets Outspoken l)
    {y : ClientId} {v : Text} {car : CarContext}
    (hshown : (w.client y).gui.externalplayers v = some car) : InField car.X car.Y := by
  obtain ⟨x, -, -, hvisited, -⟩ :=
    ((pictures_of_exec h hspoken).windows y).cars v car hshown
  have hfield : ∀ l w, (world P).Exec l w → Machine.Meets Outspoken l →
      InField (w.client x).X (w.client x).Y := fun l w h _ =>
    client_of_exec (I := fun c => InField c.X c.Y) (fun _ => True) (fun _ => inField_origin)
      (fun _ _ _ hc _ hs => hc.step hs) (fun _ => trivial) h (fun _ _ _ _ _ => trivial) x
  obtain ⟨w', hp, hin⟩ := once_and h hspoken hfield hvisited
  obtain ⟨hX, hY⟩ := Prod.mk.inj hp
  rwa [hX, hY] at hin

end

/-- Where nobody sends a text, nobody sends one that has to be escaped. -/
lemma outspoken_of_isSilent {l : List (World × WorldAct)} (h : l.all isSilent) :
    Machine.Meets Outspoken l := by
  rintro ⟨w, a⟩ hx
  have hsilent := List.all_eq_true.mp h _ hx
  cases a with
  | client i a =>
    cases a with
    | text ready =>
      have hno : (w.client i).text = false := by simpa [isSilent] using hsilent
      intro _ ht
      rw [hno] at ht
      cases ht
    | _ => trivial
  | _ => trivial

lemma stroll_shown : (strolledWorld.2.client 1).gui.externalplayers (pair.uuid 0).text
    = some ⟨2, 0, defaultColor.text⟩ := by
  decide +kernel

/-- After the stroll the second client shows the first where it is. -/
theorem shown_where_it_was_stroll : ∃ x ∈ pair.members, (pair.uuid x).text = (pair.uuid 0).text ∧
    Visited strolledWorld.1 strolledWorld.2 x (2, 0) ∧
      Wore strolledWorld.1 strolledWorld.2 x defaultColor.text :=
  shown_where_it_was exec_stroll (outspoken_of_isSilent stroll_check.2) stroll_shown

/-- What holds of the car that is shown after the stroll. -/
theorem shown_in_field_stroll : InField 2 0 :=
  shown_in_field exec_stroll (outspoken_of_isSilent stroll_check.2) stroll_shown

theorem line_of_sender_greeting : ∃ x ∈ pair.members, x ≠ 1 ∧
    ∃ entry, entry.text = "hi".toList ∧ Typed greetedWorld.1 x entry := by
  have hshown : (greetedWorld.2.client 1).gui.textmessagesdisplay.any
      (fun entry => entry.leftSide && entry.text == "hi".toList) := by
    decide +kernel
  obtain ⟨entry, hentry, hcheck⟩ := List.any_eq_true.mp hshown
  rw [Bool.and_eq_true, beq_iff_eq] at hcheck
  obtain ⟨x, hx, hne, htyped⟩ := line_of_sender exec_greeting meets_outspoken hentry hcheck.1
  exact ⟨x, hx, hne, entry, hcheck.2, htyped⟩

/-! ### A change of colour -/

end MultiplayerCars.Wire
