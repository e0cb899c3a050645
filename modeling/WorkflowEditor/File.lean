/-
  WorkflowEditor.File
  ───────────────────
  **FILES AS THEY WERE FOUND.**

  A file is found at a path and has a text if it could be read.  What it
  holds is decoded from that text; finding the text is left to the program.

  No Mathlib.
-/
import WorkflowEditor.Json.Decode

namespace WorkflowEditor

/-- A file, with its text if it could be read. -/
structure File where
  path : String
  text? : Option String
  deriving Repr, DecidableEq

/-- Why a file does not give the value asked for. -/
inductive FileError where
  | unreadable (path : String)
  | malformed (cause : DecodeError)
  deriving Repr, DecidableEq

/-- The error as a sentence. -/
def FileError.message : FileError → String
  | .unreadable path => "Could not read '" ++ path ++ "'"
  | .malformed cause => "Failed to parse JSON: " ++ cause.message?.getD "malformed text"

namespace File

/-- The text of a file. -/
def text (file : File) : Except FileError String :=
  match file.text? with
  | some text => .ok text
  | none => .error (.unreadable file.path)

/-- The value that a file holds. -/
def decode {β : Type} (file : File) (d : Decoder β) : Except FileError β := do
  (d.ofText (← file.text)).mapError .malformed

end File

end WorkflowEditor
