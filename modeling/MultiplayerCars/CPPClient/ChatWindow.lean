import MultiplayerCars.CPPClient.Calls

/-!
# The lines of the chat window

`gui_textmessagesdisplay` is a deque that is filled with empty lines before the main loop starts,
and a line that comes in at its front pushes one out at its back.  Lines come from the player, when
the button is clicked or Enter is released, and from the messages of the other players, as far as
they can be read.  So the window shows the lines that have come in last, and nothing else, whatever
arrives.
-/

namespace MultiplayerCars.CPPClient

open Lib Lib.Json

/-! ### Where lines come from -/

/-- The chat message that a JSON text holds, unless it is the client's own: who sent it, and the
line to be shown. -/
def chatOf (clientUUID : Text) (s : Text) : Option (Text × TextContext) :=
  match updateOf s with
  | some (.text fromUUID entry) => if fromUUID = clientUUID then none else some (fromUUID, entry)
  | _ => none

namespace Client

/-- The chat message of another player that a step takes from its queue. -/
def heard (c : Client) : ClientAct → Option (Text × TextContext)
  | .guiFront => c.guiJsonQueue.head?.bind (chatOf c.clientUUID)
  | _ => none

/-- The line by which the player's own text is shown. -/
def echoed (c : Client) : ClientAct → Option TextContext
  | .mouse color true _ =>
    some ⟨false, (color.getD c.carColor).text, c.textmessage.text, c.gui.timestamp⟩
  | .typing textmessage true => some ⟨false, c.carColor.text, textmessage.text, c.gui.timestamp⟩
  | _ => none

/-- The line that a step brings into the window. -/
def line (c : Client) (a : ClientAct) : Option TextContext :=
  ((c.heard a).map Prod.snd).or (c.echoed a)

end Client

/-- The lines that a run has brought into the window, oldest first. -/
def chatLines (l : List (Client × ClientAct)) : List TextContext :=
  l.filterMap fun x => x.1.line x.2

/-- The line that is there before anybody has said anything. -/
def blankLine : TextContext := ⟨false, [], [], []⟩

/-- A window that shows the newest of some lines, the newest at the front. -/
def Newest (lines display : List TextContext) : Prop :=
  display = (lines.reverse ++ List.replicate maxDisplayedTextMessages blankLine).take
    maxDisplayedTextMessages

/-! ### What a block does to the window -/

section

variable {c c' : Client} {a : ClientAct}

/-- The computation leaves the window alone. -/
def KeepsWindow {α : Type} (m : GuiM α) : Prop :=
  ∀ d, Keeps (fun g => g.textmessagesdisplay = d) m

lemma keepsWindow_positionUpdate (o : Object) : KeepsWindow (positionUpdate o) :=
  fun _ => keeps_positionUpdate (fun _ _ _ _ hg => hg) fun _ hg => hg

/-- An object that is a text of another player brings in its line. -/
lemma readUpdate_text {o : Object} {type : ℤ} {uuid color text timestamp : Text}
    (ht : o.uint64 "Type" = some type) (htype : toInt type = bEventTextUpdateMessage)
    (hu : o.string "FromUUID" = some uuid) (hc : o.string "Color" = some color)
    (htext : o.string "Text" = some text) (hs : o.string "TimeStamp" = some timestamp) :
    readUpdate o = some (.text uuid ⟨true, color, text, timestamp⟩) := by
  simp [readUpdate, ht, htype, hu, hc, htext, hs, bEventTimeStampMessage,
    bEventPositionUpdateMessage, bEventPositionDebugUpdateMessage, bEventColorUpdateMessage,
    bEventExternalConnectionExitMessage, bEventTextUpdateMessage]

/-- Any other object leaves the window alone, also when it lacks a field. -/
lemma keepsWindow_guiUpdate {clientUUID : Text} {o : Object}
    (h : ∀ uuid entry, readUpdate o = some (.text uuid entry) → uuid = clientUUID) :
    KeepsWindow (guiUpdate clientUUID o) := by
  intro d
  have hplayer : ∀ uuid car, ∀ g : Gui, g.textmessagesdisplay = d →
      (g.setPlayer uuid car).textmessagesdisplay = d := fun _ _ _ hg => hg
  refine keeps_bind_orThrow fun type ht => ?_
  split_ifs with h₀ h₂ h₃ h₄
  · exact keeps_bind_orThrow fun _ _ => keeps_modify fun g hg => hg
  · refine keeps_bind_orThrow fun uuid _ => keeps_get.bind fun _ => ?_
    split_ifs
    · exact keeps_bind_orThrow fun color _ => keeps_writeAt fun g _ _ hg => hplayer uuid _ g hg
    · exact keeps_pure ()
  · refine keeps_bind_orThrow fun uuid _ => keeps_get.bind fun _ => ?_
    split_ifs
    · exact keeps_modify (hplayer uuid none)
    · exact keeps_pure ()
  · refine keeps_bind_orThrow fun uuid hu => ?_
    split_ifs with hown
    · -- the text of another player, with all its fields, is excluded
      refine keeps_bind_orThrow fun color hc => keeps_bind_orThrow fun text htext =>
        keeps_bind_orThrow fun timestamp hs => ?_
      exact absurd (h _ _ (readUpdate_text ht h₄ hu hc htext hs)) hown
    · exact keeps_pure ()
  · exact keeps_pure ()

lemma KeepsWindow.block {update : Object → GuiM Unit} {front : Text}
    (h : ∀ o, domParse front = some o → KeepsWindow (update o)) (g : Gui) :
    (block update front g).gui.textmessagesdisplay = g.textmessagesdisplay :=
  Keeps.block (P := fun g' => g'.textmessagesdisplay = g.textmessagesdisplay)
    (fun o ho => h o ho _) rfl

/-- What the gui block does to the window: the line of another player comes in, and nothing else
does. -/
theorem window_guiUpdate (clientUUID front : Text) (g : Gui) :
    (block (guiUpdate clientUUID) front g).gui.textmessagesdisplay
      = match chatOf clientUUID front with
        | some said => said.2 :: g.textmessagesdisplay.dropLast
        | none => g.textmessagesdisplay := by
  cases hchat : chatOf clientUUID front with
  | some said =>
    rw [chatOf] at hchat
    split at hchat
    · rename_i uuid entry hu
      split_ifs at hchat with hown
      obtain rfl := Option.some.inj hchat
      rw [updateOf, Option.bind_eq_some_iff] at hu
      obtain ⟨o, ho, hread⟩ := hu
      have hends := ends_guiUpdate hread (by simp [Update.isPosition]) clientUUID g
      rw [block_of_ends ho hends, BlockEnd.gui, Update.apply, if_neg hown]
      rfl
    · cases hchat
  | none =>
    refine KeepsWindow.block (fun o ho => keepsWindow_guiUpdate fun uuid entry hread => ?_) g
    by_contra hown
    have hu : updateOf front = some (.text uuid entry) := by
      rw [updateOf, ho, Option.bind_some, hread]
    rw [chatOf, hu] at hchat
    dsimp only at hchat
    rw [if_neg hown] at hchat
    cases hchat

/-! ### Steps and runs -/

/-- A step changes the window by the line that it brings in. -/
theorem window_of_step (hs : ClientStep c a c') :
    c'.gui.textmessagesdisplay
      = match c.line a with
        | some line => line :: c.gui.textmessagesdisplay.dropLast
        | none => c.gui.textmessagesdisplay := by
  cases hs with
  | posFront =>
    obtain ⟨pc, -, hc⟩ := exists_endBlock c _ _
    rw [hc]
    exact KeepsWindow.block (fun o _ => keepsWindow_positionUpdate o) c.gui
  | @guiFront front rest hpc hq =>
    obtain ⟨pc, -, hc⟩ := exists_endBlock c (block (guiUpdate c.clientUUID) front c.gui) .guiPop
    rw [hc]
    dsimp only
    rw [window_guiUpdate, Client.line, Client.heard, hq]
    cases hchat : chatOf c.clientUUID front with
    | some said => simp [hchat]
    | none => simp [hchat, Client.echoed]
  | keys pressed =>
    obtain ⟨X, Y, move, -, hc⟩ := steered_keys c pressed
    rw [hc]
    rfl
  | mouse color send ready => cases color <;> cases send <;> rfl
  | move ready =>
    simp only [Client.sendMove]
    split_ifs <;> rfl
  | typing textmessage enter => cases enter <;> rfl
  | text ready =>
    simp only [Client.sendText]
    split_ifs <;> rfl
  | _ => rfl

/-- A line that comes in at the front pushes out the oldest. -/
lemma Newest.push {lines display : List TextContext} (h : Newest lines display)
    (line : TextContext) : Newest (lines ++ [line]) (line :: display.dropLast) := by
  have hlong : maxDisplayedTextMessages
      ≤ (lines.reverse ++ List.replicate maxDisplayedTextMessages blankLine).length := by
    simp
  rw [Newest] at h ⊢
  rw [h, List.reverse_append, List.reverse_singleton, List.append_assoc, List.singleton_append,
    List.dropLast_eq_take, List.length_take, Nat.min_eq_left hlong, List.take_take]
  rfl

lemma Newest.step {lines : List TextContext} (h : Newest lines c.gui.textmessagesdisplay)
    (hs : ClientStep c a c') : Newest (lines ++ (c.line a).toList) c'.gui.textmessagesdisplay := by
  rw [window_of_step hs]
  cases c.line a with
  | none => simpa using h
  | some line => exact h.push line

/-- **The window shows what has come in last.**  After any run, whatever has arrived, the window
shows the five lines that have come in last, the newest first, and empty ones as long as there
have been fewer. -/
theorem window_newest {uuid : UuidV4} {l : List (Client × ClientAct)}
    (h : (client uuid).Exec l c) : Newest (chatLines l) c.gui.textmessagesdisplay := by
  induction h with
  | nil => rfl
  | @snoc l c c' a hl hs ih =>
    have hlines : chatLines (l ++ [(c, a)]) = chatLines l ++ (c.line a).toList := by
      rw [chatLines, List.filterMap_append, ← chatLines]
      cases hline : c.line a <;> simp [hline]
    rw [hlines]
    exact ih.step (clientStep_of_step hs)

/-! ### What is still to be shown -/

lemma chatOf_of_isPosition {clientUUID s : Text} {u : Update} (hu : WellFormed s u)
    (hp : u.isPosition) : chatOf clientUUID s = none := by
  rw [chatOf, hu.updateOf_eq]
  cases u with
  | position uuid car => rfl
  | _ => cases hp

/-- The chat messages that have arrived and have not been shown. -/
def Client.unheard (c : Client) : List (Text × TextContext) :=
  (c.untaken false ++ c.unrelayed).filterMap (chatOf c.clientUUID)

/-- A chat message is shown when its turn comes: those that have been shown and those that are
still to be shown are those that have arrived, in this order. -/
theorem Supplied.heard_step {P : Update → Prop} (h : Supplied P c) (ho : Brings P a)
    (hs : ClientStep c a c') {said : List (Text × TextContext)}
    (hsaid : said ++ c.unheard = c.arrived.filterMap (chatOf c.clientUUID)) :
    said ++ (c.heard a).toList ++ c'.unheard
      = c'.arrived.filterMap (chatOf c'.clientUUID) := by
  have huuid : c'.clientUUID = c.clientUUID := by
    rw [Client.clientUUID, hs.sessionStep.uuid, Client.clientUUID]
  have hnone : ∀ {a}, a.takes ≠ some false → c.heard a = none := by
    intro a ha
    cases a with
    | guiFront => exact absurd rfl ha
    | _ => rfl
  rw [huuid, Client.unheard, huuid, List.filterMap_append]
  rw [Client.unheard, List.filterMap_append] at hsaid
  cases h.flow ho hs with
  | @arrive msg u hu hP ha hr hq hp =>
    rw [hnone (by simp [ClientAct.takes]), hq, hr, ha, List.filterMap_append,
      List.filterMap_append, ← hsaid]
    simp
  | @relay msg u hu ha hr hq ho' hp =>
    rw [hnone (by simp [ClientAct.takes]), ha, ← hsaid, hr, List.filterMap_cons]
    cases hlane : lane msg with
    | false =>
      rw [hlane] at hq
      rw [hq, List.filterMap_append]
      cases hchat : chatOf c.clientUUID msg <;> simp [hchat]
    | true =>
      -- a position passes by in the other queue
      rw [hlane] at ho'
      have hpos : u.isPosition := by rw [← hu.lane_eq, hlane]
      rw [show c'.untaken false = c.untaken false from ho', chatOf_of_isPosition hu hpos]
      simp
  | @take a msg u ht hu hP ha hr hq ho' hg =>
    rw [ha, ← hsaid, hr]
    cases hlane : lane msg with
    | false =>
      rw [hlane] at ht hq
      obtain ⟨rfl, huntaken⟩ : a = .guiFront ∧ c.untaken false = c.guiJsonQueue := by
        cases hs with
        | guiFront hpc => exact ⟨rfl, by simp [Client.untaken, hpc]⟩
        | _ => cases ht
      rw [Client.heard, ← huntaken, hq, List.head?_cons, Option.bind_some, List.filterMap_cons]
      cases hchat : chatOf c.clientUUID msg <;> simp
    | true =>
      rw [hlane] at ht ho'
      rw [hnone (by rw [ht]; simp), show c'.untaken false = c.untaken false from ho']
      simp
  | drop ha hr hq hp =>
    have huntaken : c'.untaken false = c.untaken false := by
      cases hs with
      | discardPop hpc => simp [Client.untaken, hpc]
    rw [hnone (by simp [ClientAct.takes]), ha, hr, huntaken, ← hsaid]
    simp
  | quiet hm ht hd ha hr hq hp =>
    rw [hnone (by rw [ht]; simp), ha, hr, hq, ← hsaid]
    simp

end

/-- The player `b` says something, and the player says nothing but releases Enter. -/
def answering : List ClientAct :=
  receive ("\x7b\"Type\":4,\"FromUUID\":\"b\",\"Color\":\"FF00FF\"," ++
      "\"Text\":\"hi\",\"TimeStamp\":\"now\"\x7d").toList
    ++ [.posEmpty, .guiEmpty, .guiSize, .guiFront, .guiPop,
      .keys ⟨false, false, false, false⟩, .mouse none false true, .move true,
      .typing emptyText true]

lemma answering_runs : ((client someUuid).run (client someUuid).init answering).isSome := by
  decide +kernel

@[irreducible] def answeredClient : List (Client × ClientAct) × Client :=
  ((client someUuid).run (client someUuid).init answering).get answering_runs

theorem window_newest_answered :
    Newest (chatLines answeredClient.1) answeredClient.2.gui.textmessagesdisplay ∧
      (chatLines answeredClient.1).map (·.leftSide) = [true, false] := by
  have hexec : (client someUuid).Exec answeredClient.1 answeredClient.2 := by
    rw [answeredClient]
    exact Machine.exec_get_run answering_runs
  refine ⟨window_newest hexec, ?_⟩
  rw [answeredClient]
  decide +kernel

end MultiplayerCars.CPPClient
