import MultiplayerCars.Wire.Agreement
import MultiplayerCars.Wire.Bounds
import MultiplayerCars.Wire.Courtesy

/-!
# Nobody is thrown out

A reader hangs up on a client whose frame is too long or is no event, and either goroutine of a
client does when its connection fails.  The frames of a client whose texts need no escapes are
neither: each of them is accepted, and handed on to the others.  So a player stays in the game for
as long as its own connection holds, whatever becomes of the others.
-/

namespace MultiplayerCars.Wire

open Lib Lib.Json CPPClient
open GoServer (ClientId Act Server Pc Thread Goes byteLength readLimit unmarshalEvent)

/-- The connection of the client fails, at a read or at the write of a ping or of a time stamp. -/
def failsFor (c : ClientId) : WorldAct → Bool
  | .server (.readStop c') => c' == c
  | .server (.pingDone c' ok) | .server (.tickDone c' ok) => c' == c && !ok
  | _ => false

/-- No goroutine of the client is inside `removeClient`. -/
def Seated (w : World) (c : ClientId) : Prop := ∀ t, t.owner = c → ¬ (w.server.pc t).Leaving

section

variable {P : Party} {w w' : World} {l : List (World × WorldAct)} {c : ClientId}

/-! ### Every frame is accepted -/

/-- A frame that means something is within the read limit. -/
lemma Meant.fits {uuid : UuidV4} {f : Frame} {now : Text} {u : Update} (h : Meant uuid f now u) :
    byteLength f.bytes ≤ readLimit := by
  have hwidth : windowScreenWidth = 1600 := rfl
  have hheight : windowYBoundary = 570 := by decide
  cases h with
  | position hX hY hf =>
    rw [hf]
    exact byteLength_posFrame _ uuid ⟨by omega, by omega⟩ ⟨by omega, by omega⟩
  | @color k hf =>
    rw [hf]
    exact (fits_colorRawJson k).frame
  | @chat k t ht hf =>
    rw [hf]
    exact byteLength_chatFrame uuid k ht

/-- What holds in every state of a run in which the texts need no escapes. -/
lemma courteous_of_exec (h : (world P).Exec l w) (hspoken : Machine.Meets Outspoken l) :
    Courteous P (fun _ => True) w := by
  refine h.invariant_of_meets (P := Courteous P fun _ => True) (I := fun _ => True)
    (fun _ _ _ => trivial) (Courteous.start P fun _ _ => ⟨trivial, trivial⟩) ?_ hspoken
  rintro w a w' - hw ha hs
  refine hw.step ⟨fun _ => trivial, fun _ => trivial, fun _ _ _ => trivial⟩ ha
    (worldStep_of_step hs) (fun _ _ => ⟨trivial, trivial⟩) ?_
  cases a with
  | client => exact fun _ _ _ _ => trivial
  | _ => trivial

/-- **Every frame is accepted.**  In every state of such a run, a reader that waits can read the
frame that is next, at any time, and then hands on to the others what the frame says. -/
theorem frames_accepted (h : (world P).Exec l w) (hspoken : Machine.Meets Outspoken l)
    (hreading : w.server.pc (.read c) = .reading) {f : Frame} {rest : List Frame}
    (hup : w.up c = f :: rest) (now : Text) :
    ∃ w' r u, (world P).step w (.server (.readFrame c f.bytes now)) = some w' ∧
      w'.server.pc (.read c) = .range r ∧ r.peers = .others (P.uuid c).text ∧
        Meant (P.uuid c) f now u ∧ WellFormed r.packet.message.bytes u := by
  have hcourteous := courteous_of_exec h hspoken
  obtain ⟨u, hmeant, -⟩ := hcourteous.said_up (f := f) (by rw [hup]; simp) now
  obtain ⟨-, huuid⟩ := hcourteous.uuid_of_reading hreading
  obtain ⟨e, m, he, hr, hwf⟩ := reply_of_meant hmeant huuid
  have hserves : w.serves P (.readFrame c f.bytes now) = true := by
    rw [World.serves, hup]
    simp
  have hpc : (w.server.readFrame c f.bytes now).pc (.read c)
      = w.server.loop (.others (P.uuid c).text) ⟨c, m, .frame (w.server.frames c) e.type⟩ := by
    rw [GoServer.readFrame_pc, if_pos rfl, GoServer.handled_send he hr]
  refine ⟨{ w with
      server := w.server.readFrame c f.bytes now, down := w.sent (.readFrame c f.bytes now) },
    _, u, ?_, hpc, rfl, hmeant, hwf⟩
  simp only [world, World.step, Server.step]
  rw [if_pos hserves, if_pos ⟨hreading, hmeant.fits⟩, Option.map_some]

/-! ### Who stays -/

/-- A goroutine begins to leave when the connection of its client fails, or at a frame that is no
event. -/
lemma leaving_of_goes {s : Server} {a : Act} {t : Thread} {p q : Pc} (hg : Goes s a t p q)
    (hq : q.Leaving) : p.Leaving ∨ failsFor t.owner (.server a) = true ∨
      ∃ frame now, a = .readFrame t.owner frame now ∧ unmarshalEvent frame = none := by
  cases hg with
  | @endRange _ l =>
    left
    by_contra hp
    exact GoServer.not_leaving_next hp hq
  | @readFrame c frame now =>
    refine Or.inr (Or.inr ⟨frame, now, rfl, ?_⟩)
    cases he : unmarshalEvent frame with
    | none => rfl
    | some e =>
      have hpc := GoServer.leaving_handled hq
      rw [Server.handled, he] at hpc
      dsimp only at hpc
      split at hpc <;> cases hpc
  | @readStop c => exact Or.inr (Or.inl (by simp [failsFor, Thread.owner]))
  | @pingDone c ok =>
    cases ok
    · exact Or.inr (Or.inl (by simp [failsFor, Thread.owner]))
    · exact absurd hq id
  | @tickDone c ok =>
    cases ok
    · exact Or.inr (Or.inl (by simp [failsFor, Thread.owner]))
    · exact absurd hq id
  | lockRemove | check | close | delete | unlockRemove => exact Or.inl trivial
  | announce => exact absurd hq (by simp [Pc.Leaving, Server.loop, Server.initPosition])
  | _ => exact Or.inl hq

lemma Seated.step (h : Seated w c) (hcourteous : Courteous P (fun _ => True) w) {a : WorldAct}
    (ha : failsFor c a = false) (hs : WorldStep P w a w') : Seated w' c := by
  cases hs with
  | @server b s hserves hs =>
    rintro t rfl hleaving
    rcases hs.goes hcourteous.server.started t with he | hg
    · rw [he] at hleaving
      exact h t rfl hleaving
    · rcases leaving_of_goes hg hleaving with hp | hfails | ⟨frame, now, rfl, hnone⟩
      · exact h t rfl hp
      · rw [hfails] at ha
        cases ha
      · -- the frame is one of the client, and that is understood
        obtain ⟨f, rest, hup, rfl⟩ := up_of_serves hserves
        obtain ⟨u, hmeant, -⟩ := hcourteous.said_up (f := f) (by rw [hup]; simp) now
        have hreading : w.server.pc (.read t.owner) = .reading := by
          cases hs with
          | readFrame hc => exact hc
        obtain ⟨-, huuid⟩ := hcourteous.uuid_of_reading hreading
        obtain ⟨e, -, he, -⟩ := reply_of_meant hmeant huuid
        rw [he] at hnone
        cases hnone
  | client => exact h
  | deliver => exact h

/-- **Nobody is thrown out.**  In every run in which the texts need no escapes, no goroutine of a
client ever begins to remove it as long as its own connection has not failed, also if clients come
and go, and connections of others fail. -/
theorem nobody_thrown_out (h : (world P).Exec l w) (hspoken : Machine.Meets Outspoken l)
    (hholds : Machine.Meets (fun _ a => failsFor c a = false) l) :
    Machine.Always (fun w => Seated w c) l w := by
  have hboth : Machine.Meets (fun w a => Outspoken w a ∧ failsFor c a = false) l :=
    fun x hx => ⟨hspoken x hx, hholds x hx⟩
  refine h.always_of_meets (fun l w h hl => ?_) hboth
  induction h with
  | nil =>
    rintro t - ht
    exact ht
  | @snoc l w w' a hexec hs ih =>
    obtain ⟨hl, -, ha⟩ := Machine.meets_snoc.mp hl
    have hspoken : Machine.Meets Outspoken l := fun x hx => (hl x hx).1
    exact (ih hl).step (courteous_of_exec hexec hspoken) ha (worldStep_of_step hs)

end

/-! ### A player goes -/

/-- After the two have met, the first drives to the right, and the connection of the second fails:
the reader of the second closes it. -/
def desertion : List WorldAct :=
  meet ++ drives 0 ++ [.server (.readStop 1), .server (.lockRemove (.read 1)),
    .server (.check (.read 1)), .server (.close (.read 1))]

lemma desertion_runs : ((world pair).run (world pair).init desertion).isSome := by
  decide +kernel

@[irreducible] def desertedWorld : List (World × WorldAct) × World :=
  ((world pair).run (world pair).init desertion).get desertion_runs

lemma exec_desertion : (world pair).Exec desertedWorld.1 desertedWorld.2 := by
  unfold desertedWorld
  exact Machine.exec_get_run desertion_runs

/-- A check that no text is sent, and that the connection of the first client holds. -/
def isSettled (x : World × WorldAct) : Bool :=
  !failsFor 0 x.2 && match x.2 with
  | .client i (.text _) => !(x.1.client i).text
  | _ => true

lemma desertion_settled : desertedWorld.1.all isSettled := by
  decide +kernel

lemma desertion_outspoken : Machine.Meets Outspoken desertedWorld.1 := by
  rintro ⟨w, a⟩ hx
  have hcheck := List.all_eq_true.mp desertion_settled _ hx
  cases a with
  | client i a =>
    cases a with
    | text ready =>
      have hno : failsFor 0 (.client i (.text ready)) = false ∧ (w.client i).text = false := by
        simpa [isSettled] using hcheck
      intro _ ht
      rw [hno.2] at ht
      cases ht
    | _ => trivial
  | _ => trivial

lemma deserted_check : desertedWorld.2.server.pc (.read 1) = .removeDelete ∧
    desertedWorld.2.server.pc (.read 0) = .reading ∧
      (desertedWorld.2.up 0).map Frame.bytes
        = [posFrame defaultColor.text (pair.uuid 0).text 2 0] := by
  decide +kernel

theorem nobody_thrown_out_desertion :
    Machine.Always (fun w => Seated w 0) desertedWorld.1 desertedWorld.2 ∧
      ¬ Seated desertedWorld.2 1 := by
  refine ⟨nobody_thrown_out exec_desertion desertion_outspoken ?_, fun hseated => ?_⟩
  · intro x hx
    have hcheck := List.all_eq_true.mp desertion_settled x hx
    rw [isSettled, Bool.and_eq_true] at hcheck
    simpa using hcheck.1
  · refine hseated (.read 1) rfl ?_
    rw [deserted_check.1]
    trivial

/-- The frame that the first client has written since is accepted. -/
theorem frames_accepted_desertion : ∃ f : Frame, ∃ w' r,
    f.bytes = posFrame defaultColor.text (pair.uuid 0).text 2 0 ∧
      (world pair).step desertedWorld.2 (.server (.readFrame 0 f.bytes [])) = some w' ∧
        w'.server.pc (.read 0) = .range r := by
  obtain ⟨-, hreading, hbytes⟩ := deserted_check
  obtain ⟨f, rest, hup, hf, -⟩ := List.map_eq_cons_iff.mp hbytes
  obtain ⟨w', r, -, hstep, hpc, -⟩ :=
    frames_accepted exec_desertion desertion_outspoken hreading hup []
  exact ⟨f, w', r, hf, hstep, hpc⟩

end MultiplayerCars.Wire
