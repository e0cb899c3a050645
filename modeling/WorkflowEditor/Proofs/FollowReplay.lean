/-
  WorkflowEditor.Proofs.FollowReplay
  ──────────────────────────────────
  **FOLLOWING A RUN AGREES WITH REPLAYING ITS CAPTURE.**

  A reader that follows a stream stops at the first piece with which the
  run is over; a replay takes in every frame of the capture.  The two agree
  because nothing touches a run that is over:

    • `apply_of_isOver`, `fail_of_isOver` — an ended run, and the
      conversation with it, stay as they are,
    • `Reachable.agrees` — that needs the conversation of the session to be
      the one of its current run, which holds of every session that the
      operations make,
    • `follow_eq` — so the reader misses nothing by stopping,
    • `consume_eq_replay` — and leaves what the replay leaves.
-/
import WorkflowEditor.Proofs.StreamReading
import WorkflowEditor.Run.Stream
import Mathlib.Logic.Relation

namespace WorkflowEditor.Run

/-- Failing says nothing of a conversation. -/
theorem Trace.conversationId_fail (t : Trace) (raw : Json) :
    (t.fail raw).1.conversationId = t.conversationId := by
  unfold fail
  split <;> rfl

namespace Session

/-! ## §1. The current run. -/

/-- The newest trace of entries, of which the newest comes first. -/
def newest? (entries : List Entry) : Option Trace :=
  entries.findSome? fun entry =>
    match entry with
    | .assistant trace => some trace
    | .user _ => none

/-- What is revised is the newest trace. -/
theorem newest?_reviseNewest (f : Trace → Trace) (entries : List Entry) :
    newest? (reviseNewest f entries) = (newest? entries).map f := by
  induction entries with
  | nil => rfl
  | cons entry entries ih =>
      cases entry with
      | assistant trace => rfl
      | user text => exact ih

/-- A trace that is put in its own place changes nothing. -/
theorem reviseNewest_same {trace : Trace} {entries : List Entry}
    (h : newest? entries = some trace) : reviseNewest (fun _ => trace) entries = entries := by
  induction entries with
  | nil => rfl
  | cons entry entries ih =>
      cases entry with
      | assistant old =>
          obtain rfl : old = trace := Option.some.inj h
          rfl
      | user text => exact congrArg (Entry.user text :: ·) (ih h)

theorem current?_eq (s : Session) : s.current? = newest? s.entries.reverse := rfl

theorem current?_reviseCurrent (s : Session) (f : Trace → Trace) :
    (s.reviseCurrent f).current? = s.current?.map f := by
  rw [current?_eq, current?_eq]
  unfold reviseCurrent
  rw [List.reverse_reverse, newest?_reviseNewest]

/-- A trace that was put in is the current one. -/
theorem current?_replaced {s : Session} {trace : Trace} (h : s.current? = some trace)
    (next : Trace) : (s.reviseCurrent fun _ => next).current? = some next := by
  rw [current?_reviseCurrent, h]
  rfl

theorem reviseCurrent_same {s : Session} {trace : Trace} (h : s.current? = some trace) :
    (s.reviseCurrent fun _ => trace) = s := by
  unfold reviseCurrent
  rw [reviseNewest_same h, List.reverse_reverse]

/-- A session has ended if its current run has. -/
theorem isOver_iff (s : Session) :
    s.status.isOver ↔ ∃ trace, s.current? = some trace ∧ trace.status.isOver := by
  unfold status
  cases s.current? with
  | none => simp [Status.isOver]
  | some trace => simp

/-! ## §2. The conversation of a session is that of its current run. -/

/-- A current run that names a conversation names that of the session. -/
def Agrees (s : Session) : Prop :=
  ∀ trace id, s.current? = some trace → trace.conversationId = some id →
    s.conversationId = some id

/-- What a single event or error does to a session. -/
inductive Step : Session → Session → Prop
  | apply (s : Session) (event : Event) : Step s (s.apply event).1
  | fail (s : Session) (raw : Json) : Step s (s.fail raw).1

/-- What events and errors, one after the other, do to a session. -/
abbrev Steps : Session → Session → Prop := Relation.ReflTransGen Step

/-- An event or an error leaves the session and its current run in
agreement. -/
theorem Step.agrees {s s' : Session} (h : Step s s') (ha : s.Agrees) : s'.Agrees := by
  cases h with
  | apply event =>
      unfold Session.apply
      cases hcurrent : s.current? with
      | none => exact ha
      | some trace =>
          intro next id hnext hid
          obtain rfl : (s.advance trace event).1 = next :=
            Option.some.inj ((current?_replaced hcurrent _).symm.trans hnext)
          -- What the run names goes before what the session had.
          show ((s.advance trace event).1.conversationId <|> s.conversationId) = some id
          rw [hid]
          rfl
  | fail raw =>
      unfold Session.fail
      cases hcurrent : s.current? with
      | none => exact ha
      | some trace =>
          intro next id hnext hid
          obtain rfl : (trace.fail raw).1 = next :=
            Option.some.inj ((current?_replaced hcurrent _).symm.trans hnext)
          exact ha trace id hcurrent (trace.conversationId_fail raw ▸ hid)

theorem Steps.agrees {s s' : Session} (h : Steps s s') (ha : s.Agrees) : s'.Agrees := by
  induction h with
  | refl => exact ha
  | tail _ hstep ih => exact hstep.agrees ih

/-! ## §3. A run that is over stays as it is. -/

/-- A run that is over takes no event in. -/
theorem advance_of_isOver (s : Session) {trace : Trace} (h : trace.status.isOver)
    (event : Event) : s.advance trace event = (trace, false) := by
  have happly : trace.apply event = (trace, false) := if_pos h
  unfold advance
  rw [happly]
  split
  · rename_i heq
    cases heq
  · rfl

/-- An event that comes late leaves the whole session as it is, its
conversation too. -/
theorem apply_of_isOver {s : Session} (ha : s.Agrees) (h : s.status.isOver) (event : Event) :
    (s.apply event).1 = s := by
  obtain ⟨trace, hcurrent, hover⟩ := s.isOver_iff.1 h
  unfold apply
  rw [hcurrent]
  dsimp only
  rw [advance_of_isOver s hover, reviseCurrent_same hcurrent]
  have hsame : (trace.conversationId <|> s.conversationId) = s.conversationId := by
    cases hid : trace.conversationId with
    | none => rfl
    | some id => exact (ha trace id hcurrent hid).symm
  rw [hsame]

theorem fail_of_isOver {s : Session} (h : s.status.isOver) (raw : Json) : (s.fail raw).1 = s := by
  obtain ⟨trace, hcurrent, hover⟩ := s.isOver_iff.1 h
  have hfail : trace.fail raw = (trace, false) := if_pos hover
  unfold fail
  rw [hcurrent]
  dsimp only
  rw [hfail, reviseCurrent_same hcurrent]

/-- **Nothing touches a run that is over**, nor the conversation with
it. -/
theorem Steps.of_isOver {s s' : Session} (h : Steps s s') (ha : s.Agrees)
    (hover : s.status.isOver) : s' = s := by
  induction h with
  | refl => rfl
  | tail _ hstep ih =>
      subst ih
      cases hstep with
      | apply event => exact apply_of_isOver ha hover event
      | fail raw => exact fail_of_isOver hover raw

/-! ## §4. Frames and signals are taken in event by event. -/

/-- Frames that cannot be read are left out, and the others are events. -/
theorem steps_applyFrames (s : Session) (frames : List Sse.Frame) :
    Steps s (s.applyFrames frames) := by
  induction frames generalizing s with
  | nil => exact .refl
  | cons frame frames ih =>
      refine .trans ?_ (ih (s.applyFrame frame))
      unfold applyFrame
      split
      · exact .single (.apply s _)
      · exact .refl

theorem applyFrames_append (s : Session) (xs ys : List Sse.Frame) :
    s.applyFrames (xs ++ ys) = (s.applyFrames xs).applyFrames ys :=
  List.foldl_append

end Session

/-- Whatever the stream does, it only tells events and errors. -/
theorem Following.steps_follow (f : Following) (signals : List Signal) :
    Session.Steps f.session (f.follow signals).session := by
  induction signals generalizing f with
  | nil =>
      show Session.Steps _ f.finish.session
      unfold finish
      dsimp only
      split
      · exact Session.steps_applyFrames _ _
      · exact (Session.steps_applyFrames _ _).tail (.fail _ _)
  | cons signal rest ih =>
      -- A piece, and an abort, which is noticed like an empty piece.
      have hchunk (f : Following) (bytes : List UInt8) :
          Session.Steps f.session
            (if (f.takeChunk bytes).session.status.isOver then f.takeChunk bytes
              else (f.takeChunk bytes).follow rest).session := by
        have htake : Session.Steps f.session (f.takeChunk bytes).session :=
          Session.steps_applyFrames _ _
        split
        · exact htake
        · exact htake.trans (ih _)
      cases signal with
      | chunk bytes => exact hchunk f bytes
      | broken cause => exact .single (.fail _ _)
      | abort => exact hchunk { f with aborted := true } []
      | wait aborted =>
          unfold follow
          split
          · exact .single (.fail _ _)
          · exact ih f
      | stall =>
          unfold follow
          split
          · exact .single (.fail _ _)
          · exact .refl

/-! ## §5. The sessions that their operations make. -/

/-- A session that the operations on sessions make, in any order. -/
inductive Session.Reachable : Session → Prop
  | empty : Reachable .empty
  | ofGraph {α : Type} (g : Graph α) : Reachable (.ofGraph g)
  | send {s s' : Session} {message : String} {inputs : Fields} {request : Request} :
      Reachable s → s.send message inputs = .ok (s', request) → Reachable s'
  | apply {s : Session} (event : Event) : Reachable s → Reachable (s.apply event).1
  | fail {s : Session} (raw : Json) : Reachable s → Reachable (s.fail raw).1
  | replay {s : Session} (capture : String) : Reachable s → Reachable (s.replay capture).1
  | consume {s : Session} (aborted : Bool) (signals : List Signal) :
      Reachable s → Reachable (s.consume aborted signals).1.session
  | reset {s : Session} : Reachable s → Reachable s.reset

/-- Following a run does nothing to a session but tell it events and one
error. -/
theorem Session.steps_consume (s : Session) (aborted : Bool) (signals : List Signal) :
    Steps s (s.consume aborted signals).1.session := by
  unfold consume
  cases aborted with
  | true => exact .single (.fail s (.str "run aborted"))
  | false => exact Following.steps_follow ⟨s, .start, false⟩ signals

/-- **In every session the conversation is that of the current run.** -/
theorem Session.Reachable.agrees {s : Session} (h : s.Reachable) : s.Agrees := by
  induction h with
  | empty => exact fun _ _ hcurrent => nomatch hcurrent
  | ofGraph g => exact fun _ _ hcurrent => nomatch hcurrent
  | @send s s' message inputs request _ hsend ih =>
      unfold Session.send at hsend
      split at hsend
      · obtain ⟨rfl, rfl⟩ := Prod.mk.inj (Except.ok.inj hsend)
        -- The new run has not told of any conversation yet.
        have hnew : Session.newest?
            (s.entries ++ [Entry.user message, Entry.assistant .streaming]).reverse
              = some .streaming := by
          rw [List.reverse_append]
          rfl
        intro trace id hcurrent hid
        obtain rfl : Trace.streaming = trace := Option.some.inj (hnew.symm.trans hcurrent)
        cases hid
      · cases hsend
  | apply event _ ih => exact (Session.Step.apply _ event).agrees ih
  | fail raw _ ih => exact (Session.Step.fail _ raw).agrees ih
  | replay capture _ ih => exact (Session.steps_applyFrames _ _).agrees ih
  | consume aborted signals _ ih => exact (Session.steps_consume _ aborted signals).agrees ih
  | reset _ _ => exact fun _ _ hcurrent => nomatch hcurrent

/-! ## §6. Streams that only deliver. -/

/-- Signals of a stream that delivers pieces and ends, without breaking off
and without an abort. -/
inductive Delivers : List Signal → List (List UInt8) → Prop
  | nil : Delivers [] []
  | chunk {signals : List Signal} {pieces : List (List UInt8)} (bytes : List UInt8) :
      Delivers signals pieces → Delivers (.chunk bytes :: signals) (bytes :: pieces)
  | wait {signals : List Signal} {pieces : List (List UInt8)} :
      Delivers signals pieces → Delivers (.wait false :: signals) pieces

/-- A session whose stream has ended: a run that is not over by then has
failed. -/
def Session.ended (s : Session) : Session :=
  if s.status.isOver then s else (s.fail (.str "stream ended before workflow_end")).1

/-- **A reader that stops early misses nothing.** -/
theorem Following.follow_eq {f : Following} (ha : f.session.Agrees) (hf : f.aborted = false)
    {signals : List Signal} {pieces : List (List UInt8)} (h : Delivers signals pieces) :
    (f.follow signals).session
      = (f.session.applyFrames (f.decoder.receiveFrom pieces)).ended := by
  induction h generalizing f with
  | nil =>
      rw [Sse.Decoder.receiveFrom_nil]
      show f.finish.session = _
      unfold finish Session.ended
      dsimp only
      split <;> rfl
  | @chunk signals pieces bytes _ ih =>
      have hsteps : Session.Steps f.session (f.takeChunk bytes).session :=
        Session.steps_applyFrames _ _
      have hagrees := hsteps.agrees ha
      have hsplit : f.session.applyFrames (f.decoder.receiveFrom (bytes :: pieces))
          = (f.takeChunk bytes).session.applyFrames
            ((f.takeChunk bytes).decoder.receiveFrom pieces) := by
        rw [Sse.Decoder.receiveFrom_cons, Session.applyFrames_append]
        rfl
      rw [hsplit]
      unfold follow
      dsimp only
      split
      · -- The reader stops; what the replay still takes in does nothing.
        rename_i hover
        rw [(Session.steps_applyFrames _ _).of_isOver hagrees hover]
        exact (if_pos hover).symm
      · exact ih hagrees hf
  | wait _ ih =>
      unfold follow
      rw [hf]
      exact ih ha hf

/-- **Following a stream leaves what replaying its capture leaves**, except
that a run that is not over by then has failed. -/
theorem Session.consume_eq_replay {s : Session} (hs : s.Reachable) {signals : List Signal}
    {pieces : List (List UInt8)} (h : Delivers signals pieces) :
    ∃ capture, (∀ text, Utf8.Reads pieces.flatten text ↔ text = capture)
      ∧ (s.consume false signals).1.session = (s.replay (String.ofList capture)).1.ended
      ∧ (s.consume false signals).2 = (s.replay (String.ofList capture)).1.ended.status := by
  have hsession : (s.consume false signals).1.session
      = (s.replay (String.ofList (Utf8.lossy pieces.flatten))).1.ended := by
    show (Following.follow ⟨s, .start, false⟩ signals).session = _
    rw [Following.follow_eq hs.agrees rfl h]
    show (s.applyFrames (Sse.Decoder.receive pieces)).ended = _
    rw [Sse.Decoder.receive_eq_frames]
    rfl
  refine ⟨Utf8.lossy pieces.flatten, ?_, hsession, ?_⟩
  · intro text
    exact ⟨Utf8.Reads.eq_lossy, fun htext => htext ▸ Utf8.reads_lossy pieces.flatten⟩
  · rw [← hsession]
    rfl

/-- A run that was just asked for, and a stream that is cut inside a
character. -/
theorem Session.consume_eq_replay_sent :
    let s : Session := ⟨[.user "hello", .assistant .streaming], none, [], []⟩
    let signals : List Signal := [.chunk [0x64, 0xC3], .wait false, .chunk [0xA9, 0x0A]]
    ∃ capture, (∀ text, Utf8.Reads [0x64, 0xC3, 0xA9, 0x0A] text ↔ text = capture)
      ∧ (s.consume false signals).1.session = (s.replay (String.ofList capture)).1.ended
      ∧ (s.consume false signals).2 = (s.replay (String.ofList capture)).1.ended.status := by
  intro s signals
  have hsend : Session.empty.send "hello" [] = .ok (s, ⟨1, "hello", [], none⟩) := rfl
  have hdelivers : Delivers signals [[0x64, 0xC3], [0xA9, 0x0A]] :=
    .chunk _ (.wait (.chunk _ .nil))
  exact Session.consume_eq_replay (.send .empty hsend) hdelivers

end WorkflowEditor.Run
