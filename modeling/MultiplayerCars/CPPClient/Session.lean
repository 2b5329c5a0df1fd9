import MultiplayerCars.Lib.Machine
import MultiplayerCars.CPPClient.Frames

/-!
# The session, and the order in which it writes its frames

`sendPosition` pushes its frame to `asyncWriteQueue`, from which `workerWrite` takes and writes
it; `sendColorUpdate` and `sendTextMessage` write their frames at once.  A colour or a text
therefore overtakes the positions that are still in the queue.  The frames are written in the
order of the calls exactly when no such call finds a position waiting.
-/

namespace MultiplayerCars.CPPClient

open Lib Lib.Json Lib.Machine

/-- A frame: the colour that was put into it, and its bytes. -/
structure Frame where
  color : HexColor
  bytes : Text
deriving DecidableEq

/-- Where `workerWrite` stands: waiting at the front of the queue, about to write what it found
there, about to pop it. -/
inductive Worker
  | front
  | write (tmp : Frame)
  | pop
deriving DecidableEq

/-- A session that is connected. -/
structure Session where
  uuid : UuidV4
  currColor : HexColor
  asyncWriteQueue : List Frame
  worker : Worker
  /-- The frames handed to `m_wss.write`, oldest first. -/
  written : List Frame
  /-- The frames built by the calls, in call order. -/
  issued : List Frame
deriving DecidableEq

namespace Session

def start (uuid : UuidV4) (colorStr : HexColor) : Session :=
  ⟨uuid, colorStr, [], .front, [], []⟩

/-- `sendPosition`; `ready` is the value of `m_isConnected && m_wss.is_message_done()`. -/
def sendPosition (s : Session) (ready : Bool) (X Y : ℤ) : Session :=
  let frame : Frame := ⟨s.currColor, posFrame s.currColor.text s.uuid.text X Y⟩
  if ready then
    { s with asyncWriteQueue := s.asyncWriteQueue ++ [frame], issued := s.issued ++ [frame] }
  else s

/-- Write a frame from the calling thread. -/
def writeNow (s : Session) (frame : Frame) : Session :=
  { s with written := s.written ++ [frame], issued := s.issued ++ [frame] }

/-- `sendColorUpdate`: the colour is stored in any case. -/
def sendColorUpdate (s : Session) (ready : Bool) (hexValueColor : HexColor) : Session :=
  let s₁ : Session := { s with currColor := hexValueColor }
  if ready then s₁.writeNow ⟨hexValueColor, colorFrame hexValueColor.text⟩ else s₁

/-- `sendTextMessage("", "", text)`, as the main loop calls it: to nobody in particular, in the
current colour, and global. -/
def sendTextMessage (s : Session) (ready : Bool) (text : TypedText) : Session :=
  if ready then
    s.writeNow ⟨s.currColor, textMsgFrame s.currColor.text s.uuid.text [] text.text true⟩
  else s

/-- The frames in the queue that are still to be written. -/
def pending (s : Session) : List Frame :=
  match s.worker with
  | .pop => s.asyncWriteQueue.tail
  | _ => s.asyncWriteQueue

end Session

inductive SessionAct
  | sendPosition (X Y : ℤ)
  | sendColorUpdate (hexValueColor : HexColor)
  | sendTextMessage (text : TypedText)
  | workerFront | workerWrite | workerPop
deriving DecidableEq

/-- One step of the main thread or of `workerWrite`, with `is_message_done()` true. -/
def Session.step (s : Session) : SessionAct → Option Session
  | .sendPosition X Y => some (s.sendPosition true X Y)
  | .sendColorUpdate k => some (s.sendColorUpdate true k)
  | .sendTextMessage t => some (s.sendTextMessage true t)
  | .workerFront =>
    match s.worker, s.asyncWriteQueue with
    | .front, frame :: _ => some { s with worker := .write frame }
    | _, _ => none
  | .workerWrite =>
    match s.worker with
    | .write tmp => some { s with written := s.written ++ [tmp], worker := .pop }
    | _ => none
  | .workerPop =>
    match s.worker with
    | .pop => some { s with asyncWriteQueue := s.asyncWriteQueue.tail, worker := .front }
    | _ => none

/-- A session with its two threads. -/
def session (uuid : UuidV4) (colorStr : HexColor) : Machine Session SessionAct where
  init := Session.start uuid colorStr
  step := Session.step

/-! ### Frames of positions -/

/-- The frames of positions begin with their type. -/
def Frame.isPosition (f : Frame) : Bool := "\x7b\"Type\":0".toList.isPrefixOf f.bytes

lemma isPosition_posFrame (k : HexColor) (u : UuidV4) (X Y : ℤ) :
    Frame.isPosition ⟨k, posFrame k.text u.text X Y⟩ := by
  rw [Frame.isPosition, posFrame_eq k.plain u.plain]
  rfl

lemma isPosition_colorFrame (k : HexColor) :
    Frame.isPosition ⟨k, colorFrame k.text⟩ = false := by
  rw [Frame.isPosition, colorFrame_eq k.plain]
  rfl

/-- Whatever its text is, the frame of a text is empty or begins with another type. -/
lemma isPosition_textMsgFrame (k : HexColor) (u : UuidV4) (t : Text) :
    Frame.isPosition ⟨k, textMsgFrame k.text u.text [] t true⟩ = false := by
  obtain ⟨hsq, hm⟩ := squeezes_textMsgHead k.plain u.plain
    (rfl : ([] : Text).all isPlain)
  have hmin : textMsgFrame k.text u.text [] t true = [] ∨
      ∃ r, textMsgFrame k.text u.text [] t true = textMsgFront k.text u.text [] ++ r := by
    rw [textMsgFrame]
    by_cases hclosed : Closed (textMsgRawJson k.text u.text [] t true)
    · right
      refine ⟨squeeze .str (t ++ textMsgTail true), ?_⟩
      rw [minifies_minify.squeezes ⟨rfl, hclosed⟩, textMsgRawJson, List.append_assoc,
        squeeze_append, hsq, hm]
    · exact Or.inl (minifies_minify.unclosed hclosed)
  rw [Frame.isPosition]
  rcases hmin with h | ⟨r, h⟩
  · simp only [h]
    rfl
  · simp only [h]
    rfl

/-! ### The two ways to the wire -/

/-- The frames have been written in the order of the calls, so far; and once the queue is
drained all of them have been, and the last one carries the colour of the session. -/
structure InCallOrder (s : Session) : Prop where
  ordered : s.written <+: s.issued
  drained : s.asyncWriteQueue = [] → s.written = s.issued ∧
    ∀ f ∈ s.written.getLast?, f.color = s.currColor

/-- A colour or a text is sent only when no position waits to be written. -/
def Unhurried (s : Session) : SessionAct → Prop
  | .sendColorUpdate _ | .sendTextMessage _ => s.pending = []
  | _ => True

/-- `workerWrite` has in hand what stands at the front of the queue. -/
structure Paced (s : Session) : Prop where
  writing : ∀ tmp, s.worker = .write tmp → s.asyncWriteQueue.head? = some tmp
  popping : s.worker = .pop → s.asyncWriteQueue ≠ []

lemma Paced.pending_sendPosition {s : Session} (h : Paced s) (X Y : ℤ) :
    (s.sendPosition true X Y).pending
      = s.pending ++ [⟨s.currColor, posFrame s.currColor.text s.uuid.text X Y⟩] := by
  simp only [Session.pending, Session.sendPosition, if_true]
  split
  · rename_i hw
    exact List.tail_append_of_ne_nil (h.popping hw)
  · rfl

lemma Paced.sendPosition {s : Session} (h : Paced s) (X Y : ℤ) :
    Paced (s.sendPosition true X Y) := by
  constructor
  · intro tmp hw
    have hhead := h.writing tmp hw
    simp [Session.sendPosition, hhead]
  · intro _
    simp [Session.sendPosition]

/-- What holds of a session in every state, whatever the order of its frames. -/
structure Sound (s : Session) : Prop where
  /-- The queue holds positions. -/
  queue : ∀ f ∈ s.asyncWriteQueue, f.isPosition
  writing : ∀ tmp, s.worker = .write tmp → s.asyncWriteQueue.head? = some tmp
  popping : s.worker = .pop → s.asyncWriteQueue ≠ []
  /-- The positions are written in call order, and none gets lost. -/
  positions : s.issued.filter Frame.isPosition
    = s.written.filter Frame.isPosition ++ s.pending
  count : s.issued.length = s.written.length + s.pending.length
  color : ∀ f ∈ s.issued.getLast?, f.color = s.currColor

/-- The frames are in call order exactly when those that wait are the last that were issued. -/
lemma Sound.prefix_iff {s : Session} (h : Sound s) :
    s.written <+: s.issued ↔ s.issued = s.written ++ s.pending := by
  constructor
  · rintro ⟨r, hr⟩
    have hpos := h.positions
    have hlen := h.count
    rw [← hr, List.filter_append, List.append_cancel_left_eq] at hpos
    rw [← hr, List.length_append] at hlen
    have hall : r.filter Frame.isPosition = r := by
      refine List.filter_sublist.eq_of_length ?_
      rw [hpos]
      omega
    rw [← hr, ← hpos, hall]
  · intro hi
    exact ⟨s.pending, hi.symm⟩

lemma Sound.inCallOrder_iff {s : Session} (h : Sound s) :
    InCallOrder s ↔ s.issued = s.written ++ s.pending := by
  rw [← h.prefix_iff]
  refine ⟨InCallOrder.ordered, fun hp => ⟨hp, fun hq => ?_⟩⟩
  have hpend : s.pending = [] := by
    rw [Session.pending, hq]
    split <;> rfl
  have heq : s.written = s.issued := by
    rw [h.prefix_iff.mp hp, hpend, List.append_nil]
  exact ⟨heq, heq ▸ h.color⟩

lemma Sound.exists_queue_of_writing {s : Session} (h : Sound s) {tmp : Frame}
    (hw : s.worker = .write tmp) : ∃ q, s.asyncWriteQueue = tmp :: q := by
  have hhead := h.writing tmp hw
  cases hs : s.asyncWriteQueue with
  | nil => simp [hs] at hhead
  | cons f q =>
    rw [hs, List.head?_cons, Option.some.injEq] at hhead
    exact ⟨q, by rw [hhead]⟩

/-- A frame that is written at once. -/
lemma Sound.writeNow {s : Session} (h : Sound s) {f : Frame} (hf : f.isPosition = false)
    {k : HexColor} (hk : f.color = k) : Sound ({ s with currColor := k }.writeNow f) where
  queue := h.queue
  writing := h.writing
  popping := h.popping
  positions := by
    have hpos : (s.writeNow f).issued.filter Frame.isPosition
        = (s.writeNow f).written.filter Frame.isPosition ++ s.pending := by
      simpa [Session.writeNow, hf] using h.positions
    exact hpos
  count := by
    have hlen : (s.writeNow f).issued.length
        = (s.writeNow f).written.length + s.pending.length := by
      have := h.count
      simp only [Session.writeNow, List.length_append, List.length_singleton]
      omega
    exact hlen
  color := by simp [Session.writeNow, hk]

lemma Sound.paced {s : Session} (h : Sound s) : Paced s := ⟨h.writing, h.popping⟩

/-- A position that is pushed to the queue. -/
lemma Sound.sendPosition {s : Session} (h : Sound s) (X Y : ℤ) :
    Sound (s.sendPosition true X Y) := by
  have hf := isPosition_posFrame s.currColor s.uuid X Y
  have hpend := h.paced.pending_sendPosition X Y
  have hpaced := h.paced.sendPosition X Y
  refine ⟨fun f hmem => ?_, hpaced.writing, hpaced.popping, ?_, ?_, ?_⟩
  · simp only [Session.sendPosition, if_true, List.mem_append, List.mem_singleton] at hmem
    rcases hmem with hmem | rfl
    · exact h.queue f hmem
    · exact hf
  · rw [hpend, ← List.append_assoc]
    simp only [Session.sendPosition, if_true, List.filter_append, h.positions]
    simp [hf]
  · have := h.count
    rw [hpend]
    simp only [Session.sendPosition, if_true, List.length_append, List.length_singleton]
    omega
  · simp [Session.sendPosition]

theorem Sound.step {s s' : Session} {a : SessionAct} (h : Sound s) (hs : s.step a = some s') :
    Sound s' := by
  cases a with
  | sendPosition X Y =>
    cases hs
    exact h.sendPosition X Y
  | sendColorUpdate k =>
    cases hs
    exact h.writeNow (isPosition_colorFrame k) rfl
  | sendTextMessage t =>
    cases hs
    exact h.writeNow (isPosition_textMsgFrame _ _ _) rfl
  | workerFront =>
    simp only [Session.step] at hs
    split at hs
    · rename_i frame q hw hq
      cases hs
      have hp := h.positions
      have hc := h.count
      simp only [Session.pending, hw] at hp hc
      refine ⟨h.queue, fun tmp ht => ?_, fun ht => ?_, hp, hc, h.color⟩
      · cases ht
        simp [hq]
      · cases ht
    · cases hs
  | workerWrite =>
    simp only [Session.step] at hs
    split at hs
    · rename_i tmp hw
      cases hs
      obtain ⟨q, hq⟩ := h.exists_queue_of_writing hw
      have hf : tmp.isPosition := h.queue tmp (by simp [hq])
      have hp := h.positions
      have hc := h.count
      simp only [Session.pending, hw, hq] at hp hc
      refine ⟨h.queue, fun t ht => ?_, fun _ => by simp [hq], ?_, ?_, h.color⟩
      · cases ht
      · simp [Session.pending, hq, hp, hf]
      · simp only [Session.pending, hq, List.tail_cons, List.length_append, List.length_cons,
          List.length_nil] at hc ⊢
        omega
    · cases hs
  | workerPop =>
    simp only [Session.step] at hs
    split at hs
    · rename_i hw
      cases hs
      have hp := h.positions
      have hc := h.count
      simp only [Session.pending, hw] at hp hc
      refine ⟨fun f hf => h.queue f (List.mem_of_mem_tail hf), fun t ht => ?_, fun ht => ?_, hp, hc,
        h.color⟩
      · cases ht
      · cases ht
    · cases hs

lemma Sound.start (uuid : UuidV4) (colorStr : HexColor) : Sound (Session.start uuid colorStr) := by
  refine ⟨?_, ?_, ?_, rfl, rfl, ?_⟩
  · simp [Session.start]
  · simp [Session.start]
  · simp [Session.start]
  · simp [Session.start]

lemma sound_of_exec {uuid : UuidV4} {colorStr : HexColor} (l : List (Session × SessionAct))
    (s : Session) (h : (session uuid colorStr).Exec l s) : Sound s :=
  h.invariant (Sound.start uuid colorStr) fun _ _ _ hi hs => hi.step hs

/-- A frame that is written at once is in call order exactly if nothing waits before it. -/
lemma Sound.writeNow_iff {s : Session} (h : Sound s) (ho : InCallOrder s) {f : Frame}
    (hf : f.isPosition = false) {k : HexColor} (hk : f.color = k) :
    InCallOrder ({ s with currColor := k }.writeNow f) ↔ s.pending = [] := by
  have hpend : ({ s with currColor := k }.writeNow f).pending = s.pending := rfl
  rw [(h.writeNow hf hk).inCallOrder_iff, hpend]
  have hi := h.inCallOrder_iff.mp ho
  simp only [Session.writeNow, hi, List.append_assoc, List.append_cancel_left_eq]
  constructor
  · intro he
    cases hq : s.pending with
    | nil => rfl
    | cons g q =>
      -- a position waits, and it is not the frame that was written
      have hmem : g ∈ s.asyncWriteQueue := by
        have hg : g ∈ s.pending := by simp [hq]
        rw [Session.pending] at hg
        split at hg
        · exact List.mem_of_mem_tail hg
        · exact hg
      rw [hq, List.cons_append, List.singleton_append, List.cons.injEq] at he
      have hg := h.queue g hmem
      rw [he.1, hf] at hg
      cases hg
  · intro he
    simp [he]

/-- A step from a state in call order ends in one exactly if it does not hurry past a
position. -/
theorem inCallOrder_step {s s' : Session} {a : SessionAct} (h : Sound s) (ho : InCallOrder s)
    (hs : s.step a = some s') : InCallOrder s' ↔ Unhurried s a := by
  have h' := h.step hs
  have hi := h.inCallOrder_iff.mp ho
  -- only the two calls that write at once can overtake what waits
  cases a with
  | sendColorUpdate k =>
    cases hs
    exact h.writeNow_iff ho (isPosition_colorFrame k) rfl
  | sendTextMessage t =>
    cases hs
    exact h.writeNow_iff ho (isPosition_textMsgFrame _ _ _) rfl
  | sendPosition X Y =>
    cases hs
    refine iff_of_true ?_ trivial
    rw [h'.inCallOrder_iff, ← h'.prefix_iff]
    exact ho.ordered.trans (List.prefix_append _ _)
  | workerFront =>
    refine iff_of_true ?_ trivial
    simp only [Session.step] at hs
    split at hs
    · cases hs
      rw [h'.inCallOrder_iff, ← h'.prefix_iff]
      exact ho.ordered
    · cases hs
  | workerWrite =>
    refine iff_of_true ?_ trivial
    simp only [Session.step] at hs
    split at hs
    · rename_i tmp hw
      cases hs
      obtain ⟨q, hq⟩ := h.exists_queue_of_writing hw
      rw [h'.inCallOrder_iff]
      simp [Session.pending, hw, hq, hi]
    · cases hs
  | workerPop =>
    refine iff_of_true ?_ trivial
    simp only [Session.step] at hs
    split at hs
    · cases hs
      rw [h'.inCallOrder_iff, ← h'.prefix_iff]
      exact ho.ordered
    · cases hs

lemma inCallOrder_start (uuid : UuidV4) (colorStr : HexColor) :
    InCallOrder (Session.start uuid colorStr) :=
  (Sound.start uuid colorStr).inCallOrder_iff.mpr rfl

/-- **Call order, exactly.**  In every state of a run the frames are in call order if and only
if no colour and no text of the run is sent while a position waits to be written. -/
theorem in_call_order_iff {uuid : UuidV4} {colorStr : HexColor}
    {l : List (Session × SessionAct)} {s : Session} (h : (session uuid colorStr).Exec l s) :
    Always InCallOrder l s ↔ Meets Unhurried l :=
  h.always_iff_meets sound_of_exec (inCallOrder_start uuid colorStr)
    fun _ _ _ hi ho hs => inCallOrder_step hi ho hs

/-! ### A colour that overtakes a position -/

def someUuid : UuidV4 where
  text := "00000000-0000-4000-8000-000000000000".toList
  shape := by decide

def blue : HexColor where
  text := "0079F1".toList
  length := by decide
  digits := by decide

def red : HexColor where
  text := "E62937".toList
  length := by decide
  digits := by decide

/-- A position is sent and then a colour, before the position is written. -/
def hurried : List SessionAct :=
  [.sendPosition 0 0, .sendColorUpdate red, .workerFront, .workerWrite, .workerPop]

lemma hurried_runs : ((session someUuid blue).run (session someUuid blue).init hurried).isSome := by
  decide

def overtakenSession : List (Session × SessionAct) × Session :=
  ((session someUuid blue).run (session someUuid blue).init hurried).get hurried_runs

lemma exec_hurried : (session someUuid blue).Exec overtakenSession.1 overtakenSession.2 :=
  exec_get_run hurried_runs

/-- Frames can be written out of call order; the last one can carry a colour that the session no
longer has. -/
theorem frames_out_of_order :
    ¬ ∀ uuid colorStr s, (session uuid colorStr).Reachable s → InCallOrder s := by
  intro h
  have hs := h someUuid blue overtakenSession.2 ⟨_, exec_hurried⟩
  have hlast : overtakenSession.2.written.getLast?.map Frame.color = some blue := by
    decide +kernel
  obtain ⟨f, hf, hblue⟩ := Option.map_eq_some_iff.mp hlast
  have hred : f.color = red := (hs.drained (by decide +kernel)).2 f hf
  rw [hblue] at hred
  exact absurd hred (by decide)

theorem in_call_order_iff_hurried :
    Always InCallOrder overtakenSession.1 overtakenSession.2
      ↔ Meets Unhurried overtakenSession.1 :=
  in_call_order_iff exec_hurried

end MultiplayerCars.CPPClient
