import MultiplayerCars.CPPClient.MainLoop

/-!
# What the messages of the server say, and what the update blocks make of them

A message says that a car stands somewhere, that a colour has changed, that a player has left,
and so on: `readUpdate` reads all that a message says at once, and `Update.apply` is what it
asks for.  The update blocks read and write in turns.  They carry out the whole update when the
fields that they come to read are all there, and throw when one of them is not; which fields
they come to read depends on the players they know.
-/

namespace MultiplayerCars.CPPClient

open Lib.Json

/-! ### Updates -/

/-- What a message says. -/
inductive Update
  | position (uuid : Text) (car : CarContext)
  | timeStamp (timestamp : Text)
  | color (uuid color : Text)
  | exit (uuid : Text)
  | text (fromUUID : Text) (entry : TextContext)
  /-- A message of another type. -/
  | other
deriving DecidableEq, Repr

/-- The update that an object stands for, when it has all the fields of its type. -/
def readUpdate (o : Object) : Option Update := do
  let type ← o.uint64 "Type"
  if toInt type = bEventPositionUpdateMessage ∨ toInt type = bEventPositionDebugUpdateMessage then
    let uuid ← o.string "UUID"
    let X ← o.int64 "X"
    let Y ← o.int64 "Y"
    let color ← o.string "Color"
    return .position uuid ⟨toInt X, toInt Y, color⟩
  else if toInt type = bEventTimeStampMessage then
    let timestamp ← o.string "TimeStamp"
    return .timeStamp timestamp
  else if toInt type = bEventColorUpdateMessage then
    let uuid ← o.string "UUID"
    let color ← o.string "Color"
    return .color uuid color
  else if toInt type = bEventExternalConnectionExitMessage then
    let uuid ← o.string "UUID"
    return .exit uuid
  else if toInt type = bEventTextUpdateMessage then
    let uuid ← o.string "FromUUID"
    let color ← o.string "Color"
    let text ← o.string "Text"
    let timestamp ← o.string "TimeStamp"
    return .text uuid ⟨true, color, text, timestamp⟩
  else return .other

/-- The variables after an update, for the client with the given UUID.  A position of a player
who was not known makes the client send its own. -/
def Update.apply (clientUUID : Text) (g : Gui) : Update → Gui
  | .position uuid car =>
    { g.setPlayer uuid (some car) with move := g.move || (g.externalplayers uuid).isNone }
  | .timeStamp t => { g with timestamp := t }
  | .color uuid c =>
    match g.externalplayers uuid with
    | some car => g.setPlayer uuid (some { car with color := c })
    | none => g
  | .exit uuid => g.setPlayer uuid none
  | .text fromUUID entry => if fromUUID = clientUUID then g else g.pushText entry
  | .other => g

/-! ### How a computation ends -/

/-- The computation ends in the given variables. -/
def Ends (m : GuiM Unit) (g g' : Gui) : Prop := m.run g = .ok () g'

/-- The computation throws a `simdjson_error`. -/
def Throws (m : GuiM Unit) (g : Gui) : Prop := ∃ g', m.run g = .error .simdjsonError g'

lemma throws_bind_orThrow {α : Type} (v : Option α) (f : α → GuiM Unit) (g : Gui) :
    Throws (orThrow v >>= f) g ↔ ∀ a, v = some a → Throws (f a) g := by
  cases v with
  | none => exact ⟨fun _ a h => absurd h (by simp), fun _ => ⟨g, rfl⟩⟩
  | some a =>
    constructor
    · rintro h b hb
      rw [← Option.some.inj hb]
      exact h
    · intro h
      exact h a rfl

lemma ends_bind_orThrow {α : Type} (v : Option α) (f : α → GuiM Unit) (g g' : Gui) :
    Ends (orThrow v >>= f) g g' ↔ ∃ a, v = some a ∧ Ends (f a) g g' := by
  cases v with
  | none =>
    constructor
    · intro h
      have hthrow : (orThrow none >>= f).run g = .error .simdjsonError g := rfl
      exact absurd (h.symm.trans hthrow) (by simp)
    · rintro ⟨a, h, -⟩
      exact absurd h (by simp)
  | some a =>
    constructor
    · intro h
      exact ⟨a, rfl, h⟩
    · rintro ⟨b, hb, h⟩
      rw [Option.some.inj hb]
      exact h

lemma throws_bind_get (f : Gui → GuiM Unit) (g : Gui) :
    Throws (get >>= f) g ↔ Throws (f g) g := Iff.rfl

lemma ends_bind_get (f : Gui → GuiM Unit) (g g' : Gui) :
    Ends (get >>= f) g g' ↔ Ends (f g) g g' := Iff.rfl

lemma ends_modify (h : Gui → Gui) (g : Gui) : Ends (modify h) g (h g) := rfl

lemma ends_pure (g : Gui) : Ends (pure ()) g g := rfl

lemma Ends.bind {m : GuiM Unit} {f : Unit → GuiM Unit} {g g' g'' : Gui} (h : Ends m g g')
    (h' : Ends (f ()) g' g'') : Ends (m >>= f) g g'' := by
  simp only [Ends, EStateM.run_bind] at *
  rw [h]
  exact h'

lemma Ends.throws_bind {m : GuiM Unit} {f : Unit → GuiM Unit} {g g' : Gui} (h : Ends m g g') :
    Throws (m >>= f) g ↔ Throws (f ()) g' := by
  simp only [Ends, Throws, EStateM.run_bind] at *
  rw [h]

lemma ends_writeAt {uuid : Text} {f : CarContext → CarContext} {g : Gui} {car : CarContext}
    (h : g.externalplayers uuid = some car) :
    Ends (writeAt uuid f) g (g.setPlayer uuid (some (f car))) := by
  rw [writeAt, ends_bind_get, h]
  exact ends_modify _ g

/-! ### What a computation keeps -/

/-- However the computation ends, the variables still satisfy `P` if they did. -/
def Keeps {α : Type} (P : Gui → Prop) (m : GuiM α) : Prop :=
  ∀ g, P g → (∃ a g', m.run g = .ok a g' ∧ P g') ∨ ∃ e g', m.run g = .error e g' ∧ P g'

section Keeps

variable {α β : Type} {P : Gui → Prop}

lemma Keeps.bind {m : GuiM α} {f : α → GuiM β} (hm : Keeps P m) (hf : ∀ a, Keeps P (f a)) :
    Keeps P (m >>= f) := by
  intro g hg
  rcases hm g hg with ⟨a, g', h, hg'⟩ | ⟨e, g', h, hg'⟩
  · rw [EStateM.run_bind, h]
    exact hf a g' hg'
  · rw [EStateM.run_bind, h]
    exact Or.inr ⟨e, g', rfl, hg'⟩

lemma keeps_pure (a : α) : Keeps P (pure a) := fun g hg => Or.inl ⟨a, g, rfl, hg⟩

lemma keeps_get : Keeps P (get : GuiM Gui) := fun g hg => Or.inl ⟨g, g, rfl, hg⟩

lemma keeps_modify {f : Gui → Gui} (hf : ∀ g, P g → P (f g)) : Keeps P (modify f : GuiM Unit) :=
  fun g hg => Or.inl ⟨(), f g, rfl, hf g hg⟩

/-- What follows a conversion has to do with the value that has been read. -/
lemma keeps_bind_orThrow {v : Option α} {f : α → GuiM β} (hf : ∀ a, v = some a → Keeps P (f a)) :
    Keeps P (orThrow v >>= f) := by
  intro g hg
  cases hv : v with
  | none => exact Or.inr ⟨.simdjsonError, g, rfl, hg⟩
  | some a => exact hf a hv g hg

lemma keeps_writeAt {uuid : Text} {f : CarContext → CarContext}
    (hf : ∀ g car, g.externalplayers uuid = some car → P g →
      P (g.setPlayer uuid (some (f car)))) : Keeps P (writeAt uuid f) := by
  intro g hg
  cases hp : g.externalplayers uuid with
  | none =>
    refine Or.inr ⟨.outOfRange, g, ?_, hg⟩
    show (match g.externalplayers uuid with
      | some car => modify (·.setPlayer uuid (some (f car)))
      | none => throw .outOfRange : GuiM Unit).run g = _
    rw [hp]
    rfl
  | some car =>
    refine Or.inl ⟨(), g.setPlayer uuid (some (f car)), ?_, hf g car hp hg⟩
    exact ends_writeAt hp

/-- The position block writes the entry of the player whom the message names, and `move`. -/
lemma keeps_positionUpdate {o : Object}
    (hplayer : ∀ uuid car g, o.string "UUID" = some uuid → P g →
      P (g.setPlayer uuid (some car)))
    (hmove : ∀ g, P g → P { g with move := true }) : Keeps P (positionUpdate o) := by
  have hcase : Keeps P (positionCase o) := by
    refine keeps_bind_orThrow fun uuid hu => keeps_get.bind fun g => ?_
    have hwrite : ∀ f, Keeps P (writeAt uuid f) :=
      fun f => keeps_writeAt fun g _ _ hg => hplayer uuid _ g hu hg
    split_ifs
    · refine keeps_bind_orThrow fun X _ => keeps_bind_orThrow fun Y _ =>
        keeps_bind_orThrow fun color _ => ?_
      exact (keeps_modify fun g hg => hplayer uuid _ g hu hg).bind fun _ => keeps_modify hmove
    · refine keeps_bind_orThrow fun X _ => (hwrite _).bind fun _ => ?_
      refine keeps_bind_orThrow fun Y _ => (hwrite _).bind fun _ => ?_
      exact keeps_bind_orThrow fun color _ => hwrite _
  refine keeps_bind_orThrow fun type _ => ?_
  split_ifs
  · exact hcase
  · exact hcase
  · exact keeps_pure ()

/-- The gui block leaves `move` alone, and brings in no player. -/
lemma keeps_guiUpdate {clientUUID : Text} {o : Object}
    (h : ∀ g g' : Gui, g'.move = g.move →
      (∀ v, g'.externalplayers v ≠ none → g.externalplayers v ≠ none) → P g → P g') :
    Keeps P (guiUpdate clientUUID o) := by
  refine keeps_bind_orThrow fun type _ => ?_
  split_ifs
  · exact keeps_bind_orThrow fun _ _ => keeps_modify fun g => h g _ rfl fun _ hv => hv
  · refine keeps_bind_orThrow fun uuid _ => keeps_get.bind fun _ => ?_
    split_ifs
    · refine keeps_bind_orThrow fun color _ => keeps_writeAt fun g car hp => ?_
      refine h g _ rfl fun v hv => ?_
      by_cases huv : v = uuid
      · rw [huv, hp]
        simp
      · simpa [Gui.setPlayer, huv] using hv
    · exact keeps_pure ()
  · refine keeps_bind_orThrow fun uuid _ => keeps_get.bind fun _ => ?_
    split_ifs
    · refine keeps_modify fun g => h g _ rfl fun v hv => ?_
      by_cases huv : v = uuid
      · exact absurd hv (by simp [Gui.setPlayer, huv])
      · simpa [Gui.setPlayer, huv] using hv
    · exact keeps_pure ()
  · refine keeps_bind_orThrow fun uuid _ => ?_
    split_ifs
    · refine keeps_bind_orThrow fun _ _ => keeps_bind_orThrow fun _ _ =>
        keeps_bind_orThrow fun _ _ => ?_
      exact keeps_modify fun g => h g _ rfl fun _ hv => hv
    · exact keeps_pure ()
  · exact keeps_pure ()

/-- A block keeps what its computation keeps, whatever the message says. -/
lemma Keeps.block {update : Object → GuiM Unit} {front : Text} {g : Gui}
    (h : ∀ o, domParse front = some o → Keeps P (update o)) (hg : P g) :
    P (block update front g).gui := by
  rw [CPPClient.block]
  cases ho : domParse front with
  | none => exact hg
  | some o =>
    rcases h o ho g hg with ⟨a, g', hrun, hg'⟩ | ⟨e, g', hrun, hg'⟩
    · simp only [hrun]
      exact hg'
    · simp only [hrun]
      cases e <;> exact hg'

end Keeps

/-! ### The cases of the position block -/

/-- The fields of a position can all be read. -/
structure HasPosition (o : Object) : Prop where
  uuid : (o.string "UUID").isSome
  X : (o.int64 "X").isSome
  Y : (o.int64 "Y").isSome
  color : (o.string "Color").isSome

lemma setPlayer_setPlayer (g : Gui) (uuid : Text) (car car' : Option CarContext) :
    (g.setPlayer uuid car).setPlayer uuid car' = g.setPlayer uuid car' := by
  simp [Gui.setPlayer]

lemma setPlayer_externalplayers (g : Gui) (uuid : Text) (car : Option CarContext) :
    (g.setPlayer uuid car).externalplayers uuid = car := by
  simp [Gui.setPlayer]

/-- The case of a position carries out the whole update. -/
lemma ends_positionCase {o : Object} {uuid color : Text} {X Y : ℤ}
    (hu : o.string "UUID" = some uuid) (hX : o.int64 "X" = some X) (hY : o.int64 "Y" = some Y)
    (hc : o.string "Color" = some color) (clientUUID : Text) (g : Gui) :
    Ends (positionCase o) g
      ((Update.position uuid ⟨toInt X, toInt Y, color⟩).apply clientUUID g) := by
  simp only [positionCase, readString, readInt64, ends_bind_orThrow, ends_bind_get]
  refine ⟨uuid, hu, ?_⟩
  cases hp : g.externalplayers uuid with
  | none =>
    rw [if_pos rfl, ends_bind_orThrow]
    refine ⟨X, hX, ?_⟩
    rw [ends_bind_orThrow]
    refine ⟨Y, hY, ?_⟩
    rw [ends_bind_orThrow]
    refine ⟨color, hc, ?_⟩
    have hg : (Update.position uuid ⟨toInt X, toInt Y, color⟩).apply clientUUID g
        = { g.setPlayer uuid (some ⟨toInt X, toInt Y, color⟩) with move := true } := by
      simp [Update.apply, hp]
    rw [hg]
    exact (ends_modify _ g).bind (ends_modify _ _)
  | some car =>
    rw [if_neg (by simp), ends_bind_orThrow]
    refine ⟨X, hX, (ends_writeAt hp).bind ?_⟩
    rw [ends_bind_orThrow]
    refine ⟨Y, hY, (ends_writeAt (setPlayer_externalplayers _ _ _)).bind ?_⟩
    rw [ends_bind_orThrow]
    refine ⟨color, hc, ?_⟩
    have hend := ends_writeAt (f := fun car => { car with color := color })
      (setPlayer_externalplayers (g.setPlayer uuid (some { car with X := toInt X })) uuid
        (some ⟨toInt X, toInt Y, car.color⟩))
    have hg : (Update.position uuid ⟨toInt X, toInt Y, color⟩).apply clientUUID g
        = g.setPlayer uuid (some ⟨toInt X, toInt Y, color⟩) := by
      simp [Update.apply, hp, Gui.setPlayer]
    rw [hg]
    simpa [setPlayer_setPlayer] using hend

/-- The case of a position throws when a field is missing: for a new player before it has
written anything, for a known one in the middle of its writes. -/
lemma throws_positionCase {o : Object} (h : ¬ HasPosition o) (g : Gui) :
    Throws (positionCase o) g := by
  simp only [positionCase, readString, readInt64, throws_bind_orThrow, throws_bind_get]
  intro uuid hu
  have hmissing : ∀ X Y color, o.int64 "X" = some X → o.int64 "Y" = some Y →
      o.string "Color" = some color → False := by
    intro X Y color hX hY hc
    exact h ⟨by simp [hu], by simp [hX], by simp [hY], by simp [hc]⟩
  cases hp : g.externalplayers uuid with
  | none =>
    rw [if_pos rfl, throws_bind_orThrow]
    intro X hX
    rw [throws_bind_orThrow]
    intro Y hY
    rw [throws_bind_orThrow]
    intro color hc
    exact (hmissing X Y color hX hY hc).elim
  | some car =>
    rw [if_neg (by simp), throws_bind_orThrow]
    intro X hX
    rw [(ends_writeAt hp).throws_bind, throws_bind_orThrow]
    intro Y hY
    rw [(ends_writeAt (setPlayer_externalplayers _ _ _)).throws_bind, throws_bind_orThrow]
    intro color hc
    exact (hmissing X Y color hX hY hc).elim

/-! ### The cases of the gui block -/

/-- The fields that the case of a colour reads: the colour only of a player who is known. -/
def HasColor (g : Gui) (o : Object) : Prop :=
  ∃ uuid, o.string "UUID" = some uuid ∧
    (g.externalplayers uuid ≠ none → (o.string "Color").isSome)

/-- The fields that the case of a text reads: no more than the sender of one's own text. -/
def HasText (clientUUID : Text) (o : Object) : Prop :=
  ∃ uuid, o.string "FromUUID" = some uuid ∧
    (uuid ≠ clientUUID →
      (o.string "Color").isSome ∧ (o.string "Text").isSome ∧ (o.string "TimeStamp").isSome)

lemma ends_timeStampCase {o : Object} {timestamp : Text}
    (h : o.string "TimeStamp" = some timestamp) (clientUUID : Text) (g : Gui) :
    Ends (timeStampCase o) g ((Update.timeStamp timestamp).apply clientUUID g) := by
  rw [timeStampCase, readString, ends_bind_orThrow]
  exact ⟨timestamp, h, ends_modify _ g⟩

lemma throws_timeStampCase {o : Object} (h : ¬ (o.string "TimeStamp").isSome) (g : Gui) :
    Throws (timeStampCase o) g := by
  rw [timeStampCase, readString, throws_bind_orThrow]
  intro timestamp ht
  exact absurd (by simp [ht]) h

lemma ends_colorUpdateCase {o : Object} {uuid color : Text} (hu : o.string "UUID" = some uuid)
    (hc : o.string "Color" = some color) (clientUUID : Text) (g : Gui) :
    Ends (colorUpdateCase o) g ((Update.color uuid color).apply clientUUID g) := by
  rw [colorUpdateCase, readString, ends_bind_orThrow]
  refine ⟨uuid, hu, ?_⟩
  rw [ends_bind_get]
  cases hp : g.externalplayers uuid with
  | none =>
    rw [if_neg (by simp)]
    simp only [Update.apply, hp]
    exact ends_pure g
  | some car =>
    rw [if_pos (by simp), readString, ends_bind_orThrow]
    refine ⟨color, hc, ?_⟩
    simp only [Update.apply, hp]
    exact ends_writeAt hp

/-- A colour of a player who is not known is skipped. -/
lemma ends_colorUpdateCase_of_unknown {o : Object} {uuid : Text} {g : Gui}
    (hu : o.string "UUID" = some uuid) (hp : g.externalplayers uuid = none) :
    Ends (colorUpdateCase o) g g := by
  rw [colorUpdateCase, readString, ends_bind_orThrow]
  refine ⟨uuid, hu, ?_⟩
  rw [ends_bind_get, if_neg (by simp [hp])]
  exact ends_pure g

lemma throws_colorUpdateCase {o : Object} {g : Gui} (h : ¬ HasColor g o) :
    Throws (colorUpdateCase o) g := by
  rw [colorUpdateCase, readString, throws_bind_orThrow]
  intro uuid hu
  have hmissing : g.externalplayers uuid ≠ none ∧ ¬ (o.string "Color").isSome := by
    by_contra hno
    exact h ⟨uuid, hu, fun hp => by_contra fun hc => hno ⟨hp, hc⟩⟩
  rw [throws_bind_get, if_pos hmissing.1, readString, throws_bind_orThrow]
  intro color hc
  exact absurd (by simp [hc]) hmissing.2

lemma ends_exitCase {o : Object} {uuid : Text} (hu : o.string "UUID" = some uuid)
    (clientUUID : Text) (g : Gui) :
    Ends (exitCase o) g ((Update.exit uuid).apply clientUUID g) := by
  rw [exitCase, readString, ends_bind_orThrow]
  refine ⟨uuid, hu, ?_⟩
  rw [ends_bind_get]
  by_cases hp : g.externalplayers uuid = none
  · have hg : (Update.exit uuid).apply clientUUID g = g := by
      simp [Update.apply, Gui.setPlayer, ← hp]
    rw [if_neg (by simp [hp]), hg]
    exact ends_pure g
  · rw [if_pos hp]
    exact ends_modify _ g

lemma throws_exitCase {o : Object} (h : ¬ (o.string "UUID").isSome) (g : Gui) :
    Throws (exitCase o) g := by
  rw [exitCase, readString, throws_bind_orThrow]
  intro uuid hu
  exact absurd (by simp [hu]) h

lemma ends_textUpdateCase {o : Object} {uuid color text timestamp : Text}
    (hu : o.string "FromUUID" = some uuid) (hc : o.string "Color" = some color)
    (ht : o.string "Text" = some text) (hs : o.string "TimeStamp" = some timestamp)
    (clientUUID : Text) (g : Gui) :
    Ends (textUpdateCase clientUUID o) g
      ((Update.text uuid ⟨true, color, text, timestamp⟩).apply clientUUID g) := by
  rw [textUpdateCase, readString, ends_bind_orThrow]
  refine ⟨uuid, hu, ?_⟩
  by_cases hown : uuid = clientUUID
  · rw [if_neg (by simpa using hown)]
    simp only [Update.apply, if_pos hown]
    exact ends_pure g
  · rw [if_pos hown, readString, ends_bind_orThrow]
    refine ⟨color, hc, ?_⟩
    rw [readString, ends_bind_orThrow]
    refine ⟨text, ht, ?_⟩
    rw [readString, ends_bind_orThrow]
    refine ⟨timestamp, hs, ?_⟩
    simp only [Update.apply, if_neg hown]
    exact ends_modify _ g

/-- One's own text is skipped. -/
lemma ends_textUpdateCase_of_own {o : Object} {clientUUID : Text}
    (hu : o.string "FromUUID" = some clientUUID) (g : Gui) :
    Ends (textUpdateCase clientUUID o) g g := by
  rw [textUpdateCase, readString, ends_bind_orThrow]
  refine ⟨clientUUID, hu, ?_⟩
  rw [if_neg (by simp)]
  exact ends_pure g

lemma throws_textUpdateCase {o : Object} {clientUUID : Text} (h : ¬ HasText clientUUID o)
    (g : Gui) : Throws (textUpdateCase clientUUID o) g := by
  rw [textUpdateCase, readString, throws_bind_orThrow]
  intro uuid hu
  have hown : uuid ≠ clientUUID := by
    rintro rfl
    exact h ⟨uuid, hu, fun hne => absurd rfl hne⟩
  rw [if_pos hown, readString, throws_bind_orThrow]
  intro color hc
  rw [readString, throws_bind_orThrow]
  intro text ht
  rw [readString, throws_bind_orThrow]
  intro timestamp hs
  exact absurd ⟨uuid, hu, fun _ => ⟨by simp [hc], by simp [ht], by simp [hs]⟩⟩ h

/-! ### The blocks -/

/-- The fields that the position block comes to read are there. -/
def PositionFields (o : Object) : Prop :=
  ∃ type, o.uint64 "Type" = some type ∧
    (toInt type = bEventPositionUpdateMessage ∨ toInt type = bEventPositionDebugUpdateMessage →
      HasPosition o)

/-- The fields that the gui block comes to read are there. -/
def GuiFields (clientUUID : Text) (g : Gui) (o : Object) : Prop :=
  ∃ type, o.uint64 "Type" = some type ∧
    (toInt type = bEventTimeStampMessage → (o.string "TimeStamp").isSome) ∧
    (toInt type = bEventColorUpdateMessage → HasColor g o) ∧
    (toInt type = bEventExternalConnectionExitMessage → (o.string "UUID").isSome) ∧
    (toInt type = bEventTextUpdateMessage → HasText clientUUID o)

/-- From `g` to `g'` nothing happened, or the whole update of the object. -/
def Whole (clientUUID : Text) (o : Object) (g g' : Gui) : Prop :=
  g' = g ∨ ∃ u, readUpdate o = some u ∧ g' = u.apply clientUUID g

lemma positionUpdate_of_type {o : Object} {type : ℤ} (h : o.uint64 "Type" = some type) :
    positionUpdate o
      = if toInt type = bEventPositionUpdateMessage then positionCase o
        else if toInt type = bEventPositionDebugUpdateMessage then positionCase o
        else pure () := by
  rw [positionUpdate, readUint64, h]
  rfl

lemma guiUpdate_of_type {o : Object} {type : ℤ} (h : o.uint64 "Type" = some type)
    (clientUUID : Text) :
    guiUpdate clientUUID o
      = if toInt type = bEventTimeStampMessage then timeStampCase o
        else if toInt type = bEventColorUpdateMessage then colorUpdateCase o
        else if toInt type = bEventExternalConnectionExitMessage then exitCase o
        else if toInt type = bEventTextUpdateMessage then textUpdateCase clientUUID o
        else pure () := by
  rw [guiUpdate, readUint64, h]
  rfl

lemma readUpdate_position {o : Object} {type : ℤ} {uuid color : Text} {X Y : ℤ}
    (ht : o.uint64 "Type" = some type)
    (hpos : toInt type = bEventPositionUpdateMessage
      ∨ toInt type = bEventPositionDebugUpdateMessage)
    (hu : o.string "UUID" = some uuid) (hX : o.int64 "X" = some X) (hY : o.int64 "Y" = some Y)
    (hc : o.string "Color" = some color) :
    readUpdate o = some (.position uuid ⟨toInt X, toInt Y, color⟩) := by
  simp [readUpdate, ht, hpos, hu, hX, hY, hc]

theorem positionUpdate_whole {o : Object} (h : PositionFields o) (clientUUID : Text) (g : Gui) :
    ∃ g', Ends (positionUpdate o) g g' ∧ Whole clientUUID o g g' := by
  obtain ⟨type, ht, h⟩ := h
  rw [positionUpdate_of_type ht]
  by_cases hpos : toInt type = bEventPositionUpdateMessage
      ∨ toInt type = bEventPositionDebugUpdateMessage
  · obtain ⟨hu, hX, hY, hc⟩ := h hpos
    obtain ⟨uuid, hu⟩ := Option.isSome_iff_exists.mp hu
    obtain ⟨X, hX⟩ := Option.isSome_iff_exists.mp hX
    obtain ⟨Y, hY⟩ := Option.isSome_iff_exists.mp hY
    obtain ⟨color, hc⟩ := Option.isSome_iff_exists.mp hc
    have hends := ends_positionCase hu hX hY hc clientUUID g
    refine ⟨_, ?_, Or.inr ⟨_, readUpdate_position ht hpos hu hX hY hc, rfl⟩⟩
    rcases hpos with h₁ | h₂
    · rw [if_pos h₁]
      exact hends
    · rw [if_pos h₂, ite_self]
      exact hends
  · rw [not_or] at hpos
    rw [if_neg hpos.1, if_neg hpos.2]
    exact ⟨g, ends_pure g, Or.inl rfl⟩

theorem throws_positionUpdate {o : Object} (h : ¬ PositionFields o) (g : Gui) :
    Throws (positionUpdate o) g := by
  cases ht : o.uint64 "Type" with
  | none =>
    rw [positionUpdate, readUint64, throws_bind_orThrow]
    intro type htype
    exact absurd (ht.symm.trans htype) (by simp)
  | some type =>
    have hpos : (toInt type = bEventPositionUpdateMessage
        ∨ toInt type = bEventPositionDebugUpdateMessage) ∧ ¬ HasPosition o := by
      by_contra hno
      exact h ⟨type, ht, fun hpos => by_contra fun hf => hno ⟨hpos, hf⟩⟩
    rw [positionUpdate_of_type ht]
    have hthrows := throws_positionCase hpos.2 g
    rcases hpos.1 with h₁ | h₂
    · rw [if_pos h₁]
      exact hthrows
    · rw [if_pos h₂, ite_self]
      exact hthrows

theorem guiUpdate_whole {clientUUID : Text} {g : Gui} {o : Object}
    (h : GuiFields clientUUID g o) :
    ∃ g', Ends (guiUpdate clientUUID o) g g' ∧ Whole clientUUID o g g' := by
  obtain ⟨type, ht, hTime, hColor, hExit, hText⟩ := h
  rw [guiUpdate_of_type ht]
  by_cases h₀ : toInt type = bEventTimeStampMessage
  · obtain ⟨timestamp, hs⟩ := Option.isSome_iff_exists.mp (hTime h₀)
    rw [if_pos h₀]
    have hread : readUpdate o = some (.timeStamp timestamp) := by
      simp [readUpdate, ht, h₀, hs, bEventTimeStampMessage, bEventPositionUpdateMessage,
        bEventPositionDebugUpdateMessage]
    exact ⟨_, ends_timeStampCase hs clientUUID g, Or.inr ⟨_, hread, rfl⟩⟩
  rw [if_neg h₀]
  by_cases h₂ : toInt type = bEventColorUpdateMessage
  · obtain ⟨uuid, hu, hc⟩ := hColor h₂
    rw [if_pos h₂]
    by_cases hp : g.externalplayers uuid = none
    · exact ⟨g, ends_colorUpdateCase_of_unknown hu hp, Or.inl rfl⟩
    · obtain ⟨color, hc⟩ := Option.isSome_iff_exists.mp (hc hp)
      have hread : readUpdate o = some (.color uuid color) := by
        simp [readUpdate, ht, h₂, hu, hc, bEventTimeStampMessage, bEventPositionUpdateMessage,
          bEventPositionDebugUpdateMessage, bEventColorUpdateMessage]
      exact ⟨_, ends_colorUpdateCase hu hc clientUUID g, Or.inr ⟨_, hread, rfl⟩⟩
  rw [if_neg h₂]
  by_cases h₃ : toInt type = bEventExternalConnectionExitMessage
  · obtain ⟨uuid, hu⟩ := Option.isSome_iff_exists.mp (hExit h₃)
    rw [if_pos h₃]
    have hread : readUpdate o = some (.exit uuid) := by
      simp [readUpdate, ht, h₃, hu, bEventTimeStampMessage, bEventPositionUpdateMessage,
        bEventPositionDebugUpdateMessage, bEventColorUpdateMessage,
        bEventExternalConnectionExitMessage]
    exact ⟨_, ends_exitCase hu clientUUID g, Or.inr ⟨_, hread, rfl⟩⟩
  rw [if_neg h₃]
  by_cases h₄ : toInt type = bEventTextUpdateMessage
  · obtain ⟨uuid, hu, hfields⟩ := hText h₄
    rw [if_pos h₄]
    by_cases hown : uuid = clientUUID
    · exact ⟨g, ends_textUpdateCase_of_own (hown ▸ hu) g, Or.inl rfl⟩
    · obtain ⟨hc, htext, hs⟩ := hfields hown
      obtain ⟨color, hc⟩ := Option.isSome_iff_exists.mp hc
      obtain ⟨text, htext⟩ := Option.isSome_iff_exists.mp htext
      obtain ⟨timestamp, hs⟩ := Option.isSome_iff_exists.mp hs
      have hread : readUpdate o = some (.text uuid ⟨true, color, text, timestamp⟩) := by
        simp [readUpdate, ht, h₄, hu, hc, htext, hs, bEventTimeStampMessage,
          bEventPositionUpdateMessage, bEventPositionDebugUpdateMessage,
          bEventColorUpdateMessage, bEventExternalConnectionExitMessage, bEventTextUpdateMessage]
      exact ⟨_, ends_textUpdateCase hu hc htext hs clientUUID g, Or.inr ⟨_, hread, rfl⟩⟩
  rw [if_neg h₄]
  exact ⟨g, ends_pure g, Or.inl rfl⟩

theorem throws_guiUpdate {clientUUID : Text} {g : Gui} {o : Object}
    (h : ¬ GuiFields clientUUID g o) : Throws (guiUpdate clientUUID o) g := by
  cases ht : o.uint64 "Type" with
  | none =>
    rw [guiUpdate, readUint64, throws_bind_orThrow]
    intro type htype
    exact absurd (ht.symm.trans htype) (by simp)
  | some type =>
    rw [guiUpdate_of_type ht]
    by_cases h₀ : toInt type = bEventTimeStampMessage
    · rw [if_pos h₀]
      refine throws_timeStampCase (fun hs => h ⟨type, ht, fun _ => hs, ?_⟩) g
      simp [h₀, bEventTimeStampMessage, bEventColorUpdateMessage,
        bEventExternalConnectionExitMessage, bEventTextUpdateMessage]
    rw [if_neg h₀]
    by_cases h₂ : toInt type = bEventColorUpdateMessage
    · rw [if_pos h₂]
      refine throws_colorUpdateCase fun hc =>
        h ⟨type, ht, fun h' => absurd h' h₀, fun _ => hc, ?_⟩
      simp [h₂, bEventColorUpdateMessage, bEventExternalConnectionExitMessage,
        bEventTextUpdateMessage]
    rw [if_neg h₂]
    by_cases h₃ : toInt type = bEventExternalConnectionExitMessage
    · rw [if_pos h₃]
      refine throws_exitCase (fun hu =>
        h ⟨type, ht, fun h' => absurd h' h₀, fun h' => absurd h' h₂, fun _ => hu, ?_⟩) g
      simp [h₃, bEventExternalConnectionExitMessage, bEventTextUpdateMessage]
    rw [if_neg h₃]
    by_cases h₄ : toInt type = bEventTextUpdateMessage
    · rw [if_pos h₄]
      exact throws_textUpdateCase (fun hf => h ⟨type, ht, fun h' => absurd h' h₀,
        fun h' => absurd h' h₂, fun h' => absurd h' h₃, fun _ => hf⟩) g
    · exact absurd ⟨type, ht, fun h' => absurd h' h₀, fun h' => absurd h' h₂,
        fun h' => absurd h' h₃, fun h' => absurd h' h₄⟩ h

lemma block_of_ends {update : Object → GuiM Unit} {s : Text} {o : Object} {g g' : Gui}
    (ho : domParse s = some o) (h : Ends (update o) g g') : block update s g = .popped g' := by
  simp only [block, ho]
  rw [show (update o).run g = .ok () g' from h]

lemma block_of_throws (update : Object → GuiM Unit) {s : Text} {o : Object} {g : Gui}
    (ho : domParse s = some o) (h : Throws (update o) g) :
    ∃ g', block update s g = .escaped .simdjsonError g' := by
  obtain ⟨g', h⟩ := h
  refine ⟨g', ?_⟩
  simp only [block, ho]
  rw [h]

lemma block_of_unparsed {update : Object → GuiM Unit} {s : Text} (ho : domParse s = none)
    (g : Gui) : block update s g = .popped g := by
  simp only [block, ho]

/-! ### Well-formed messages -/

def Update.isPosition : Update → Bool
  | .position _ _ => true
  | _ => false

/-- The types of the messages that the server sends. -/
def serverTypes : List ℤ :=
  [bEventTimeStampMessage, bEventPositionUpdateMessage, bEventColorUpdateMessage,
    bEventExternalConnectionExitMessage, bEventTextUpdateMessage, bEventPositionDebugUpdateMessage]

/-- The text is a message of the server that stands for the update: it has one type, which is
the same to both parsers, and all the fields of that type. -/
def WellFormed (s : Text) (u : Update) : Prop :=
  ∃ type ∈ serverTypes, onDemandType s = some type ∧
    ∃ o, domParse s = some o ∧ o.uint64 "Type" = some type ∧ readUpdate o = some u

instance (s : Text) (u : Update) : Decidable (WellFormed s u) :=
  decidable_of_iff (∃ type ∈ serverTypes, onDemandType s = some type ∧
      (domParse s).any fun o =>
        decide (o.uint64 "Type" = some type) && decide (readUpdate o = some u)) <| by
    simp only [WellFormed, Option.any_eq_true, Bool.and_eq_true, decide_eq_true_eq]

/-- The type of a message of the server is not too large for an `int`. -/
lemma toInt_serverType {type : ℤ} (h : type ∈ serverTypes) : toInt type = type := by
  have hall : ∀ t ∈ serverTypes, toInt t = t := by decide
  exact hall type h

lemma isPosition_readUpdate {o : Object} {type : ℤ} {u : Update}
    (ht : o.uint64 "Type" = some type) (h : readUpdate o = some u) :
    u.isPosition = true ↔ toInt type = bEventPositionUpdateMessage
      ∨ toInt type = bEventPositionDebugUpdateMessage := by
  simp only [readUpdate, ht, Option.bind_eq_bind, Option.bind_some] at h
  split_ifs at h with hpos h₀ h₂ h₃ h₄ <;>
    simp only [Option.bind_eq_some_iff, Option.pure_def, Option.some.injEq] at h
  · obtain ⟨_, -, _, -, _, -, _, -, rfl⟩ := h
    simp [Update.isPosition, hpos]
  · obtain ⟨_, -, rfl⟩ := h
    simp [Update.isPosition, hpos]
  · obtain ⟨_, -, _, -, rfl⟩ := h
    simp [Update.isPosition, hpos]
  · obtain ⟨_, -, rfl⟩ := h
    simp [Update.isPosition, hpos]
  · obtain ⟨_, -, _, -, _, -, _, -, rfl⟩ := h
    simp [Update.isPosition, hpos]
  · subst h
    simp [Update.isPosition, hpos]

/-- The position block carries out a position that it can read. -/
lemma ends_positionUpdate {o : Object} {u : Update} (h : readUpdate o = some u)
    (hp : u.isPosition) (clientUUID : Text) (g : Gui) :
    Ends (positionUpdate o) g (u.apply clientUUID g) := by
  cases ht : o.uint64 "Type" with
  | none => simp [readUpdate, ht] at h
  | some type =>
    have hpos := (isPosition_readUpdate ht h).mp hp
    simp only [readUpdate, ht, Option.bind_eq_bind, Option.bind_some, if_pos hpos,
      Option.bind_eq_some_iff, Option.pure_def, Option.some.injEq] at h
    obtain ⟨uuid, hu, X, hX, Y, hY, color, hc, rfl⟩ := h
    have hends := ends_positionCase hu hX hY hc clientUUID g
    rw [positionUpdate_of_type ht]
    rcases hpos with h₁ | h₂
    · rw [if_pos h₁]
      exact hends
    · rw [if_pos h₂, ite_self]
      exact hends

/-- The gui block carries out any other update that it can read. -/
lemma ends_guiUpdate {o : Object} {u : Update} (h : readUpdate o = some u)
    (hp : ¬ u.isPosition) (clientUUID : Text) (g : Gui) :
    Ends (guiUpdate clientUUID o) g (u.apply clientUUID g) := by
  cases ht : o.uint64 "Type" with
  | none => simp [readUpdate, ht] at h
  | some type =>
    have hpos := mt (isPosition_readUpdate ht h).mpr hp
    simp only [readUpdate, ht, Option.bind_eq_bind, Option.bind_some, if_neg hpos] at h
    rw [guiUpdate_of_type ht]
    split_ifs at h ⊢ with h₀ h₂ h₃ h₄ <;>
      simp only [Option.bind_eq_some_iff, Option.pure_def, Option.some.injEq] at h
    · obtain ⟨timestamp, hs, rfl⟩ := h
      exact ends_timeStampCase hs clientUUID g
    · obtain ⟨uuid, hu, color, hc, rfl⟩ := h
      exact ends_colorUpdateCase hu hc clientUUID g
    · obtain ⟨uuid, hu, rfl⟩ := h
      exact ends_exitCase hu clientUUID g
    · obtain ⟨uuid, hu, color, hc, text, htext, timestamp, hs, rfl⟩ := h
      exact ends_textUpdateCase hu hc htext hs clientUUID g
    · subst h
      exact ends_pure g

lemma WellFormed.relay_eq {s : Text} {u : Update} (h : WellFormed s u) :
    relay s = if u.isPosition then .position else .gui := by
  obtain ⟨type, hmem, hon, o, -, ht, hu⟩ := h
  have hs : s ≠ [] := by
    rintro rfl
    rw [readsType_onDemandType.empty] at hon
    cases hon
  have hpos := isPosition_readUpdate ht hu
  rw [toInt_serverType hmem] at hpos
  rw [relay, if_neg hs]
  simp only [hon, ← hpos]

lemma WellFormed.block_position {s : Text} {u : Update} (h : WellFormed s u)
    (hp : u.isPosition) (clientUUID : Text) (g : Gui) :
    block positionUpdate s g = .popped (u.apply clientUUID g) := by
  obtain ⟨type, -, -, o, ho, -, hu⟩ := h
  exact block_of_ends ho (ends_positionUpdate hu hp clientUUID g)

lemma WellFormed.block_gui {s : Text} {u : Update} (h : WellFormed s u) (hp : ¬ u.isPosition)
    (clientUUID : Text) (g : Gui) :
    block (guiUpdate clientUUID) s g = .popped (u.apply clientUUID g) := by
  obtain ⟨type, -, -, o, ho, -, hu⟩ := h
  exact block_of_ends ho (ends_guiUpdate hu hp clientUUID g)

end MultiplayerCars.CPPClient
