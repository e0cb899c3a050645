/-
  WorkflowEditor.Run.Stream
  ─────────────────────────
  **FOLLOWING A RUN.**

  A run is followed while its stream arrives, or all at once from a
  capture.  Frames whose payload cannot be read are passed over.  A run
  whose stream breaks off, ends too early or is aborted has failed.

  What a stream does, as its reader sees it, is a list of signals.  An
  abort asked for while the reader is busy is only noticed when the reader
  has to wait or starts to read.

  No Mathlib.
-/
import WorkflowEditor.Run.Session

namespace WorkflowEditor.Run

/-! ## §1. Frames. -/

namespace Session

/-- Takes a frame into the current run. -/
def applyFrame (s : Session) (frame : Sse.Frame) : Session :=
  match Event.ofFrame frame with
  | .ok event => (s.apply event).1
  | .error _ => s

/-- Takes frames into the current run. -/
def applyFrames (s : Session) (frames : List Sse.Frame) : Session := frames.foldl applyFrame s

/-- Takes a whole capture into the current run; answers where that stands
then. -/
def replay (s : Session) (capture : String) : Session × Status :=
  let s := s.applyFrames (Sse.Decoder.frames capture)
  (s, s.status)

end Session

/-! ## §2. Streams. -/

/-- What a stream does. -/
inductive Signal where
  /-- A piece arrives. -/
  | chunk (bytes : List UInt8)
  /-- The stream breaks off. -/
  | broken (cause : String)
  /-- An abort is asked for while the reader is busy. -/
  | abort
  /-- The reader has to wait; an abort may be asked for meanwhile. -/
  | wait (aborted : Bool)
  /-- Nothing more arrives, and the stream does not end either. -/
  | stall

/-- A run that is being followed. -/
structure Following where
  session : Session
  decoder : Sse.Decoder
  aborted : Bool

namespace Following

/-- Fails the run. -/
def fail (f : Following) (raw : Json) : Following :=
  { f with session := (f.session.fail raw).1 }

/-- Fails the run because it was aborted. -/
def failAborted (f : Following) : Following := f.fail (.str "run aborted")

/-- Takes in a piece of the stream. -/
def takeChunk (f : Following) (bytes : List UInt8) : Following :=
  let (decoder, frames) := f.decoder.feedBytes bytes
  { f with decoder := decoder, session := f.session.applyFrames frames }

/-- The stream has ended. -/
def finish (f : Following) : Following :=
  let (decoder, frame) := f.decoder.finish
  let f :=
    { f with decoder := decoder, session := f.session.applyFrames frame.toList }
  if f.session.status.isOver then f
  else f.fail (.str "stream ended before workflow_end")

/-- Follows the signals of a stream that ends after them.  Once the run is
over the rest of the stream is not looked at; a reader of a stream that
stalls waits on, with what it has read so far. -/
def follow (f : Following) : List Signal → Following
  | [] => f.finish
  | .chunk bytes :: rest =>
      let f := f.takeChunk bytes
      if f.session.status.isOver then f else follow f rest
  | .abort :: rest =>
      let f := { f with aborted := true }.takeChunk []
      if f.session.status.isOver then f else follow f rest
  | .broken cause :: _ => f.fail (.obj [("error", .str cause)])
  | .wait aborted :: rest =>
      if f.aborted || aborted then { f with aborted := true }.failAborted
      else follow f rest
  | .stall :: _ => if f.aborted then f.failAborted else f

end Following

/-- Follows a run, which may have been aborted before it was read; answers
where it stands then. -/
def Session.consume (s : Session) (aborted : Bool) (signals : List Signal) :
    Following × Status :=
  let f : Following := ⟨s, .start, aborted⟩
  let f := if aborted then f.failAborted else f.follow signals
  (f, f.session.status)

end WorkflowEditor.Run
