/-
  WorkflowEditor.CommandLine
  ──────────────────────────
  **THE COMMANDS OF THE PROGRAM.**

      validate   — says what keeps a document from being run
      scope      — lists the variables that a node may refer to
      roundtrip  — loads a document and writes it as it is saved
      trace      — replays the capture of a run and shows its trace

  Commands are functions of the files they are given; reading files and
  printing is left to the program.

  No Mathlib.
-/
import WorkflowEditor.Document.Validation
import WorkflowEditor.File
import WorkflowEditor.Graph.Load
import WorkflowEditor.Graph.Save
import WorkflowEditor.Run.Format
import WorkflowEditor.Run.Stream
import WorkflowEditor.Scope.Resolve

namespace WorkflowEditor.CommandLine

/-- A command. -/
inductive Command where
  | validate
  | scope (id : String)
  | roundtrip
  | trace
  deriving Repr, DecidableEq

/-- Why a command could not be carried out. -/
inductive CommandError where
  | settings (cause : FileError)
  | workflow (cause : FileError)
  | capture (cause : FileError)
  | load (cause : LoadError)
  | graph (cause : GraphError)
  | inputs (cause : Run.MissingInputs)

/-- The error as a sentence. -/
def CommandError.message : CommandError → String
  | .settings cause => "Failed to load settings: " ++ cause.message
  | .workflow cause => "Failed to load workflow: " ++ cause.message
  | .capture cause => "Failed to read event capture: " ++ cause.message
  | .load cause => "Failed to build graph: " ++ cause.message
  | .graph cause => cause.message?.getD "The graph refused the request"
  | .inputs cause => cause.message

/-- What a command that was carried out says. -/
structure Report where
  text : String
  /-- Whether all is well. -/
  success : Bool
  /-- Where the replayed run stands. -/
  final : Option Run.Status

/-! ## §1. Lists. -/

/-- A text with blanks behind it up to a width. -/
def padded (width : Nat) (text : String) : String :=
  text ++ String.ofList (List.replicate (width - text.length) ' ')

/-- A variable as a line of a list. -/
def variableLine (v : Variable) : String :=
  "  " ++ padded 40 v.value ++ " " ++ padded 16 v.dataType.tag ++ " from " ++ v.origin.name
    ++ "\n"

/-- An issue as a line of a list. -/
def issueLine (issue : Issue) : String := "  -> " ++ issue.text ++ "\n"

/-- Lines one after the other. -/
def lines {β : Type} (line : β → String) (items : List β) : String :=
  String.join (items.map line)

/-! ## §2. Commands. -/

/-- The report on a document. -/
def validate (doc : Document Float) : Report :=
  match doc.validate with
  | [] =>
      ⟨"Workflow is valid: " ++ toString doc.nodes.length ++ " nodes, "
        ++ toString doc.edges.length ++ " edges\n", true, none⟩
  | issues =>
      ⟨"Workflow has " ++ toString issues.length ++ " problem(s):\n" ++ lines issueLine issues,
        false, none⟩

/-- The report on the variables of a node. -/
def scope (g : Graph Float) (id : String) : Except CommandError Report := do
  let inScope ← (g.resolve id).mapError .graph
  let list := if inScope.isEmpty then "  (none)\n" else lines variableLine inScope
  return ⟨"Variables in scope for '" ++ id ++ "':\n" ++ list, true, none⟩

/-- The report on the capture of a run. -/
def trace (capture : String) : Except CommandError Report := do
  let (session, _) ← (Run.Session.empty.send "(replay)" []).mapError .inputs
  let (session, status) := session.replay capture
  return ⟨(session.current?.map Run.Trace.text).getD "", true, some status⟩

/-- Carries out a command on a file, with settings if they are given. -/
def run (command : Command) (settings : Option File) (file : File) :
    Except CommandError Report := do
  let settings ←
    match settings with
    | some file => (file.decode Settings.record.decoder).mapError .settings
    | none => .ok .standard
  let document := (file.decode Document.record.decoder).mapError CommandError.workflow
  let graph := do
    let doc ← document
    (doc.toGraph settings).mapError CommandError.load
  match command with
  | .validate => validate <$> document
  | .scope id => do scope (← graph) id
  | .roundtrip => do return ⟨(← graph).toDocument.toText ++ "\n", true, none⟩
  | .trace => do trace (← file.text.mapError .capture)

/-! ## §3. Arguments. -/

/-- What the program is asked to do. -/
structure Request where
  command : Command
  settings : Option String
  file : String
  deriving Repr, DecidableEq

/-- The request that arguments make: `--settings FILE` anywhere before
`--`, then a command with its file and, for `scope`, a node id. -/
def Request.parse? (arguments : List String) : Option Request :=
  words none [] arguments
where
  words (settings : Option String) (plain : List String) :
      List String → Option Request
    | [] => ofWords settings plain
    | "--" :: rest => ofWords settings (plain ++ rest)
    | [option] => ofWords settings (plain ++ [option])
    | option :: value :: rest =>
        if option = "--settings" ∨ option = "-s" then words (some value) plain rest
        else words settings (plain ++ [option]) (value :: rest)
  ofWords (settings : Option String) : List String → Option Request
    | ["validate", file] => some ⟨.validate, settings, file⟩
    | ["scope", file, id] => some ⟨.scope id, settings, file⟩
    | ["roundtrip", file] => some ⟨.roundtrip, settings, file⟩
    | ["trace", file] => some ⟨.trace, settings, file⟩
    | _ => none

end WorkflowEditor.CommandLine
