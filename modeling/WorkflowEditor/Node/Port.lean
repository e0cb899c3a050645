/-
  WorkflowEditor.Node.Port
  ────────────────────────
  **PORTS AND BRANCH LAYOUTS.**

  Edges enter a node on its left side and leave it on its right side.  The
  ports on the right follow from the configuration:

      if-else              — one per case (at least one), then the `ELSE`
      question-classifier  — one per category
      http-request         — `SUCCESS` and `ERROR` when errors branch
      end, break           — none, and none for a placeholder
      all else             — one

  No Mathlib.
-/
import WorkflowEditor.Node.Kind
import WorkflowEditor.Node.Form

namespace WorkflowEditor

/-- The side of a node. -/
inductive Side where
  | left
  | right
  deriving Repr, DecidableEq

/-- The name of a side. -/
def Side.name : Side → String
  | .left => "left"
  | .right => "right"

/-- A place where edges enter or leave a node. -/
structure Port where
  id : String
  side : Side
  text : Option String
  deriving Repr, DecidableEq

namespace Port

/-- The entry of a node. -/
def entry : Port := ⟨"left", .left, none⟩

/-- The exit of a node that does not branch. -/
def exit : Port := ⟨"right", .right, none⟩

/-- The exit of a branch. -/
def branch (id text : String) : Port := ⟨id, .right, some text⟩

/-- The port id of the branch at a position, counted from zero. -/
def caseId (index : Nat) : String := "CASE" ++ toString (index + 1)

/-- The port id for a request that went well. -/
def successId : String := "SUCCESS"

/-- The port id for a request that failed. -/
def errorId : String := "ERROR"

end Port

/-- The ports on the right side of a node. -/
structure BranchLayout where
  ports : List Port
  /-- The last port catches what no branch takes, and stays last. -/
  trailingElse : Bool
  deriving Repr, DecidableEq

namespace BranchLayout

/-- The ports of the cases before the `ELSE`. -/
def cases (count : Nat) : List Port :=
  (List.range count).map fun i => .branch (Port.caseId i) (if i = 0 then "IF" else "ELIF")

/-- What a category's port shows: its class name, or else its port id. -/
def categoryText (index : Nat) (category : Json) : String :=
  match (category.field? "class_name").bind Json.str? with
  | some name => if name = "" then Port.caseId index else name
  | none => Port.caseId index

/-- The ports of a list of categories. -/
def categories (items : List Json) : List Port :=
  items.mapIdx fun i item => .branch (Port.caseId i) (categoryText i item)

/-- The layout of a node of a kind with a form. -/
def of (kind : Kind) (form : Form) : BranchLayout :=
  match kind with
  | .ifElse =>
      let count := max (form.items "cases").length 1
      ⟨cases count ++ [.branch (Port.caseId count) "ELSE"], true⟩
  | .questionClassifier => ⟨categories (form.items "categories"), false⟩
  | .httpRequest =>
      if form.nestedText? "error_handle" "method" = some "branch" then
        ⟨[.branch Port.successId Port.successId, .branch Port.errorId Port.errorId], false⟩
      else ⟨[.exit], false⟩
  | .finish | .leave | .addNode => ⟨[], false⟩
  | _ => ⟨[.exit], false⟩

end BranchLayout

/-- The ports on the left side of a node of a kind. -/
def entryPorts (kind : Kind) : List Port :=
  if kind.acceptsIncoming then [.entry] else []

/-- All ports of a node of a kind with a form. -/
def portsOf (kind : Kind) (form : Form) : List Port :=
  entryPorts kind ++ (BranchLayout.of kind form).ports

/-- The branch that an edge from a port is saved under. -/
def edgeLabel? (kind : Kind) (port : String) : Option String :=
  match kind with
  | .ifElse | .questionClassifier => some port
  | .httpRequest => if port = Port.successId ∨ port = Port.errorId then some port else none
  | _ => none

end WorkflowEditor
