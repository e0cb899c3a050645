/-
  WorkflowEditor.Main
  ───────────────────
  **THE PROGRAM.**

  Reads the files that a request names, carries it out, and prints what it
  says, followed by a summary of the time it took.

  No Mathlib.
-/
import WorkflowEditor.CommandLine

open WorkflowEditor
open WorkflowEditor.CommandLine

/-- A file as it is found. -/
def findFile (path : String) : IO File := do
  let text? ← try some <$> IO.FS.readFile path catch _ => pure none
  return ⟨path, text?⟩

/-- How a run's standing is named in the summary. -/
def standing : Run.Status → String
  | .idle => "Idle"
  | .streaming => "Streaming"
  | .completed => "Completed"
  | .failed => "Failed"

/-- The lines behind a report: the time that was taken and, after a replay,
where the run stands.  A document that is written out stands alone. -/
def summary (command : Command) (report : Report) (milliseconds : Nat) : String :=
  let total := toString milliseconds ++ "ms"
  let header := "\n--- Performance Summary ---\n"
  match command, report.final with
  | .roundtrip, _ => ""
  | _, some final =>
      header ++ "Replay:               " ++ total ++ "\n"
        ++ "Final Status:         " ++ standing final ++ "\n"
  | _, none => header ++ "Total Execution:      " ++ total ++ "\n"

/-- Carries out a request. -/
def perform (request : Request) : IO UInt32 := do
  let begun ← IO.monoMsNow
  let settings ←
    match request.settings with
    | some path => some <$> findFile path
    | none => pure none
  let file ← findFile request.file
  match CommandLine.run request.command settings file with
  | .error e =>
      IO.eprintln ("\nError: " ++ e.message)
      return 1
  | .ok report =>
      let ended ← IO.monoMsNow
      IO.print (report.text ++ summary request.command report (ended - begun))
      return if report.success then 0 else 1

/-- The program. -/
def main (arguments : List String) : IO UInt32 :=
  match Request.parse? arguments with
  | some request => perform request
  | none => do
      IO.eprintln
        "usage: [--settings FILE] validate FILE | scope FILE NODE | roundtrip FILE | trace FILE"
      return 2
