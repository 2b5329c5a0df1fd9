import MultiplayerCars.CPPClient.Converge
import MultiplayerCars.Wire.Codec
import MultiplayerCars.Wire.Honest

/-!
# Where a client says that its car is

The position that a frame states is the one that a peer finds in the payload when the server has
passed it on.  A client whose car has moved has `move` set until it has stated the new position, so
the last position that it has stated is that of its car, unless `move` is set.
-/

namespace MultiplayerCars.Wire

open Lib Lib.Json CPPClient
open GoServer (Event Peers Message routeEvent unmarshalEvent)

/-- The position of the player that the frame states. -/
def stated (uuid : Text) (f : Frame) : Option (ℤ × ℤ) :=
  (unmarshalEvent f.bytes).bind fun e =>
    if e.type = GoServer.eventPositionMessage then place uuid e.payload else none

/-- The position that the frames state last; a car that has not been moved is at the origin. -/
def lastStated (uuid : Text) (fs : List Frame) : ℤ × ℤ := (Feed.latest stated uuid fs).getD (0, 0)

section

variable {uuid : UuidV4} {v : Text} {f : Frame} {fs : List Frame}

lemma stated_posFrame (k k' : HexColor) (uuid : UuidV4) {X Y : ℤ}
    (hX : 0 ≤ X ∧ X < windowScreenWidth) (hY : 0 ≤ Y ∧ Y < windowYBoundary) (v : Text) :
    stated v ⟨k', posFrame k.text uuid.text X Y⟩ = if uuid.text = v then some (X, Y) else none := by
  have hwidth : windowScreenWidth = 1600 := rfl
  have hheight : windowYBoundary = 570 := by decide
  have hwf := wellFormed_posFrame k uuid (X := X) (Y := Y) ⟨by omega, by omega⟩
    ⟨by omega, by omega⟩
  rw [stated, unmarshalEvent_posFrame, Option.bind_some, if_pos rfl, place, hwf.updateOf_eq]

lemma stated_of_noPosition (h : NoPosition f.bytes) (v : Text) : stated v f = none := by
  cases he : unmarshalEvent f.bytes with
  | none => rw [stated, he, Option.bind_none]
  | some e => rw [stated, he, Option.bind_some, if_neg (h e he).1]

/-- An honest client states its own position, in the frames that count as positions. -/
lemma stated_honest (h : Honest uuid f) {p : ℤ × ℤ} (hp : stated v f = some p) :
    v = uuid.text ∧ f.isPosition ∧ (0 ≤ p.1 ∧ p.1 < windowScreenWidth) ∧
      0 ≤ p.2 ∧ p.2 < windowYBoundary := by
  cases h with
  | @position k X Y hX hY hf =>
    have hframe : f = ⟨f.color, posFrame k.text uuid.text X Y⟩ := by rw [← hf]
    rw [hframe, stated_posFrame k f.color uuid hX hY] at hp
    split_ifs at hp with hv
    obtain rfl := Option.some.inj hp
    refine ⟨hv.symm, ?_, hX, hY⟩
    rw [hframe]
    exact isPosition_posFrame k uuid X Y
  | other _ hf =>
    rw [stated_of_noPosition hf] at hp
    cases hp

/-- What the server sends to the peers because of a frame puts a player where the frame states. -/
lemma place_reply (h : Honest uuid f) {e : Event} (he : unmarshalEvent f.bytes = some e)
    {c : GoServer.Client} {now : Text} {peers : Peers} {m : Message}
    (hr : (routeEvent e c now).2 = .send peers m) (v : Text) :
    place v m.bytes = stated v f := by
  by_cases hpos : e.type = GoServer.eventPositionMessage
  · rw [GoServer.routeEvent_position hpos] at hr
    obtain ⟨-, rfl⟩ := GoServer.Reply.send.inj hr
    rw [stated, he, Option.bind_some, if_pos hpos]
    rfl
  · have hno : NoPosition f.bytes := by
      cases h with
      | @position k X Y hX hY hf =>
        rw [hf, unmarshalEvent_posFrame] at he
        rw [← Option.some.inj he] at hpos
        exact absurd rfl hpos
      | other _ hf => exact hf
    have hwelcome := (welcome_of_noPosition hpos (hno e he).2 c now).1 peers m hr fun _ => False
    obtain ⟨u, hu, -, hposition⟩ := hwelcome
    rw [stated_of_noPosition hno, place, hu.updateOf_eq]
    cases u with
    | position v' car => exact (hposition v' car rfl).elim
    | _ => rfl

/-! ### The last position -/

lemma lastStated_append_of_some {p : ℤ × ℤ} (h : stated v f = some p) (fs : List Frame) :
    lastStated v (fs ++ [f]) = p := by
  rw [lastStated, Feed.latest_append, Feed.latest_singleton, h]
  rfl

lemma lastStated_append_of_none (h : ∀ f ∈ fs, stated v f = none) (fs' : List Frame) :
    lastStated v (fs' ++ fs) = lastStated v fs' := by
  rw [lastStated, lastStated, Feed.latest_append, Feed.latest_eq_none.mpr h, Option.none_or]

/-- A frame that states nothing makes no difference between the others. -/
lemma lastStated_insert (h : stated v f = none) (fs fs' : List Frame) :
    lastStated v (fs ++ [f] ++ fs') = lastStated v (fs ++ fs') := by
  simp only [lastStated, Feed.latest_append, Feed.latest_singleton, h, Option.none_or]

/-- Unless the car has still to be reported, it is where the client has said last. -/
def Truthful (c : Client) : Prop :=
  c.gui.move = true ∨
    lastStated c.clientUUID (c.session.written ++ c.session.pending) = (c.X, c.Y)

/-- The frames of a session, those that are written and those that wait, after one step. -/
lemma lastStated_sessionStep {c : Client} {a : ClientAct} {s t : Session} (hp : Paced s)
    (hs : SessionStep c a s t) (ha : ∀ ready, a ≠ .move ready)
    (htext : a = .text true → c.text = true →
      NoPosition (chatFrame s.uuid s.currColor c.textmessage)) (v : Text) :
    lastStated v (t.written ++ t.pending) = lastStated v (s.written ++ s.pending) := by
  cases hs with
  | same => rfl
  | recolor k => rfl
  | position he => exact absurd he (ha true)
  | color k =>
    have hno : stated v ⟨k, colorFrame k.text⟩ = none :=
      stated_of_noPosition (noPosition_colorFrame k) v
    exact lastStated_insert hno s.written s.pending
  | text he ht =>
    have hno : stated v ⟨s.currColor, chatFrame s.uuid s.currColor c.textmessage⟩ = none := by
      refine stated_of_noPosition ?_ v
      dsimp only
      exact htext he ht
    rw [chatFrame] at hno
    exact lastStated_insert hno s.written s.pending
  | front hw hq => simp only [Session.pending, hw]
  | @write tmp hw =>
    -- what is written is what waited at the front
    obtain ⟨q, hq⟩ := List.head?_eq_some_iff.mp (hp.writing tmp hw)
    simp only [Session.pending, hw, hq, List.tail_cons, List.append_assoc, List.singleton_append]
  | pop hw => simp only [Session.pending, hw]

/-- A car that the keys move has to be reported. -/
lemma move_or_still (c : Client) (k : Keys) :
    (c.keys k).gui.move = true ∨ ((c.keys k).gui.move = c.gui.move ∧ (c.keys k).X = c.X ∧
      (c.keys k).Y = c.Y) := by
  have hsteer : ∀ (c : Client) (pressed allowed : Bool) (X Y : ℤ),
      (c.steer pressed allowed X Y).gui.move = true ∨ c.steer pressed allowed X Y = c := by
    intro c pressed allowed X Y
    rw [Client.steer]
    split_ifs
    · exact Or.inl rfl
    · exact Or.inr rfl
  have hkeep : ∀ (c : Client) (pressed allowed : Bool) (X Y : ℤ), c.gui.move = true →
      (c.steer pressed allowed X Y).gui.move = true := by
    intro c pressed allowed X Y hm
    rcases hsteer c pressed allowed X Y with h | h
    · exact h
    · rw [h]
      exact hm
  rw [Client.keys]
  rcases hsteer c k.up (1 < c.Y) c.X (c.Y - 2) with h | h
  · exact Or.inl (hkeep _ _ _ _ _ (hkeep _ _ _ _ _ (hkeep _ _ _ _ _ h)))
  rw [h]
  rcases hsteer c k.down (c.Y < windowYBoundary - getCarHeight - 1) c.X (c.Y + 2) with h | h
  · exact Or.inl (hkeep _ _ _ _ _ (hkeep _ _ _ _ _ h))
  rw [h]
  rcases hsteer c k.left (1 < c.X) (c.X - 2) c.Y with h | h
  · exact Or.inl (hkeep _ _ _ _ _ h)
  rw [h]
  rcases hsteer c k.right (c.X < windowScreenWidth - getCarWidth - 1) (c.X + 2) c.Y with h | h
  · exact Or.inl h
  · rw [h]
    exact Or.inr ⟨rfl, rfl, rfl⟩

/-- The car moves by the keys only. -/
lemma still_of_step {c c' : Client} {a : ClientAct} (hs : ClientStep c a c')
    (ha : ∀ k, a ≠ .keys k) : c'.X = c.X ∧ c'.Y = c.Y := by
  cases hs with
  | posFront | guiFront =>
    obtain ⟨pc, -, hc⟩ := exists_endBlock c _ _
    rw [hc]
    exact ⟨rfl, rfl⟩
  | keys k => exact absurd rfl (ha k)
  | mouse color send ready => cases color <;> cases send <;> exact ⟨rfl, rfl⟩
  | move ready =>
    simp only [Client.sendMove]
    split_ifs <;> exact ⟨rfl, rfl⟩
  | typing textmessage enter => cases enter <;> exact ⟨rfl, rfl⟩
  | text ready =>
    simp only [Client.sendText]
    split_ifs <;> exact ⟨rfl, rfl⟩
  | _ => exact ⟨rfl, rfl⟩

lemma Truthful.keys {c : Client} (h : Truthful c) (k : Keys) : Truthful (c.keys k) := by
  rcases move_or_still c k with hm | ⟨hm, hX, hY⟩
  · exact Or.inl hm
  · rcases h with h | h
    · exact Or.inl (hm.trans h)
    · right
      rw [Client.clientUUID, keys_session, hX, hY]
      exact h

lemma Truthful.sendMove {c : Client} (h : Truthful c) (hon : OnScreen c) (hp : Paced c.session)
    {ready : Bool} (hc : c.gui.move = true → ready = true) : Truthful (c.sendMove ready) := by
  rw [Client.sendMove]
  split_ifs with hm
  · -- the position is stated, since the session is ready
    right
    obtain rfl : ready = true := hc hm
    show lastStated c.clientUUID ((c.session.sendPosition true c.X c.Y).written
      ++ (c.session.sendPosition true c.X c.Y).pending) = (c.X, c.Y)
    rw [hp.pending_sendPosition, ← List.append_assoc]
    refine lastStated_append_of_some ?_ _
    rw [stated_posFrame _ _ _ ⟨hon.left, hon.right⟩ ⟨hon.top, hon.bottom⟩]
    exact if_pos rfl
  · exact h

theorem Truthful.step {c c' : Client} {a : ClientAct} (h : Truthful c) (hon : OnScreen c)
    (hp : Paced c.session) (hc : Civil c a) (hs : ClientStep c a c') : Truthful c' := by
  by_cases hkeys : ∃ k, a = .keys k
  · obtain ⟨k, rfl⟩ := hkeys
    cases hs with
    | keys => exact h.keys k
  by_cases hmove : ∃ ready, a = .move ready
  · obtain ⟨ready, rfl⟩ := hmove
    cases hs with
    | move => exact h.sendMove hon hp hc
  have huuid : c'.clientUUID = c.clientUUID := by
    rw [Client.clientUUID, hs.sessionStep.uuid, Client.clientUUID]
  rcases h with h | h
  · rcases hs.move_stays h with hm | hm
    · exact Or.inl hm
    · exact absurd hm hmove
  · right
    obtain ⟨hX, hY⟩ := still_of_step hs fun k he => hkeys ⟨k, he⟩
    rw [huuid, hX, hY, ← h]
    refine lastStated_sessionStep hp hs.sessionStep (fun ready he => hmove ⟨ready, he⟩) ?_ _
    rintro rfl ht
    exact hc rfl ht

end

end MultiplayerCars.Wire
