/-
  WorkflowEditor.Run.Sse
  ──────────────────────
  **THE EVENT STREAM OF A RUN.**

  A run is told as a text of lines.  A line `event:` names the frame to
  come and lines `data:` hold its data; a blank line ends it.  Lines that
  begin with a colon are remarks, other fields are passed over, and one
  blank behind the colon does not count.  A frame without data is none,
  and one without a name is a `message`.

  The decoder takes the stream in pieces, as text or as bytes.  A line that
  is not ended and a character that is cut wait for the next piece.

  No Mathlib.
-/
import WorkflowEditor.Text.Utf8

namespace WorkflowEditor.Sse

/-- A frame of an event stream. -/
structure Frame where
  event : String
  data : String
  deriving Repr, DecidableEq

/-- What has been read of a frame that is not ended. -/
structure Decoder where
  /-- The characters of the line so far, the newest first. -/
  line : List Char
  /-- The bytes of a character that is cut. -/
  held : List UInt8
  event : Option String
  /-- The data lines so far, in order. -/
  data : List String
  deriving Repr

namespace Decoder

/-- The decoder before a stream. -/
def start : Decoder := ⟨[], [], none, []⟩

/-! ## §1. Lines. -/

/-- Ends the frame. -/
def dispatch (d : Decoder) : Decoder × Option Frame :=
  let frame :=
    if d.data.isEmpty then none
    else
      -- An empty name counts as none.
      let name := (d.event.filter fun e => e != "").getD "message"
      some ⟨name, "\n".intercalate d.data⟩
  ({ d with event := none, data := [] }, frame)

/-- The field and the value of a line. -/
def splitField (line : List Char) : List Char × List Char :=
  let field := line.takeWhile fun c => c != ':'
  match line.dropWhile fun c => c != ':' with
  | ':' :: ' ' :: value => (field, value)
  | ':' :: value => (field, value)
  | _ => (field, [])

/-- Takes in a line. -/
def takeLine (d : Decoder) (line : List Char) : Decoder × Option Frame :=
  match line with
  | [] => d.dispatch
  | ':' :: _ => (d, none)
  | _ =>
      let (field, value) := splitField line
      if field = "event".toList then ({ d with event := some (String.ofList value) }, none)
      else if field = "data".toList then
        ({ d with data := d.data ++ [String.ofList value] }, none)
      else (d, none)

/-- The line so far, without a carriage return at its end. -/
def currentLine (d : Decoder) : List Char :=
  match d.line with
  | '\r' :: line => line.reverse
  | line => line.reverse

/-- Takes in one character. -/
def step (d : Decoder) (c : Char) : Decoder × Option Frame :=
  if c = '\n' then { d with line := [] }.takeLine d.currentLine
  else ({ d with line := c :: d.line }, none)

/-! ## §2. Pieces of a stream. -/

/-- Takes in characters; answers the frames they end. -/
def feedChars (d : Decoder) : List Char → Decoder × List Frame
  | [] => (d, [])
  | c :: rest =>
      let (d, frame) := d.step c
      let (d, frames) := feedChars d rest
      (d, frame.toList ++ frames)

/-- Takes in a piece of text. -/
def feed (d : Decoder) (text : String) : Decoder × List Frame := d.feedChars text.toList

/-- Takes in a piece of bytes. -/
def feedBytes (d : Decoder) (bytes : List UInt8) : Decoder × List Frame :=
  let (cs, held) := Utf8.decode (d.held ++ bytes)
  { d with held := held }.feedChars cs

/-- Ends the stream: what was not ended by a blank line is ended now. -/
def finish (d : Decoder) : Decoder × Option Frame :=
  let d := { d with line := (Utf8.lossy d.held).reverse ++ d.line, held := [] }
  if d.line.isEmpty then d.dispatch
  else
    -- The last line ends here; if it does not end the frame, the end of the stream does.
    match { d with line := [] }.takeLine d.currentLine with
    | (d, some frame) => (d, some frame)
    | (d, none) => d.dispatch

/-- Feeding two pieces of text is feeding them as one. -/
theorem feedChars_append (d : Decoder) (xs ys : List Char) :
    d.feedChars (xs ++ ys)
      = (((d.feedChars xs).1.feedChars ys).1,
          (d.feedChars xs).2 ++ ((d.feedChars xs).1.feedChars ys).2) := by
  induction xs generalizing d with
  | nil => rfl
  | cons c rest ih => simp [feedChars, ih, List.append_assoc]

/-- The frames of a stream that is given as a whole. -/
def frames (text : String) : List Frame :=
  let (d, frames) := start.feed text
  frames ++ d.finish.2.toList

end Decoder

end WorkflowEditor.Sse
