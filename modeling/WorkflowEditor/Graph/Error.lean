/-
  WorkflowEditor.Graph.Error
  ──────────────────────────
  **WHY A CHANGE IS REFUSED.**

  Each error names its cause; its sentence is made from that.

  No Mathlib.
-/
import WorkflowEditor.Json.Decode
import WorkflowEditor.Node.Port

namespace WorkflowEditor

/-- Why two nodes cannot be connected. -/
inductive ConnectionError where
  | targetIsStart (id : String)
  | sourceIsEnd (id : String)
  | selfLoop (id : String)
  | crossContainer (source target : String)
  | unknownPort (id port : String) (side : Side)
  | duplicate (source sourcePort target : String)
  deriving Repr, DecidableEq

/-- The error as a sentence. -/
def ConnectionError.message : ConnectionError → String
  | .targetIsStart id =>
      "Node '" ++ id ++ "' is a start node and cannot receive connections"
  | .sourceIsEnd id => "Node '" ++ id ++ "' is an end node and cannot emit connections"
  | .selfLoop id => "Node '" ++ id ++ "' cannot connect to itself"
  | .crossContainer source target =>
      "Nodes '" ++ source ++ "' and '" ++ target
        ++ "' live in different containers and cannot be connected"
  | .unknownPort id port side =>
      "Node '" ++ id ++ "' has no " ++ side.name ++ " port named '" ++ port ++ "'"
  | .duplicate source sourcePort target =>
      "An edge from '" ++ source ++ "' (" ++ sourcePort ++ ") to '" ++ target
        ++ "' already exists"

/-- Why a change of the graph is refused. -/
inductive GraphError where
  | nodeNotFound (id : String)
  | edgeNotFound (id : String)
  | invalidConnection (cause : ConnectionError)
  | nestedContainer (kind : Kind) (container : String)
  | protectedNode (id : String)
  | reservedKind (kind : Kind)
  | notBranching (id : String) (kind : Kind)
  | branchOutOfRange (id : String) (index count : Nat)
  | lastBranch (id : String)
  | invalidPayload (cause : DecodeError)
  deriving Repr, DecidableEq

/-- The error as a sentence, where it has one of its own. -/
def GraphError.message? : GraphError → Option String
  | .nodeNotFound id => some ("Node '" ++ id ++ "' not found in the graph")
  | .edgeNotFound id => some ("Edge '" ++ id ++ "' not found in the graph")
  | .invalidConnection cause => some ("Invalid connection: " ++ cause.message)
  | .nestedContainer kind container =>
      some ("A '" ++ kind.tag ++ "' node cannot be placed inside container '"
        ++ container ++ "'")
  | .protectedNode id =>
      some ("Node '" ++ id ++ "' is owned by its container and cannot be removed on its own")
  | .reservedKind kind => some ("Node '" ++ kind.tag ++ "' cannot be created directly")
  | .notBranching id kind =>
      some ("Node '" ++ id ++ "' of type '" ++ kind.tag ++ "' has no editable branches")
  | .branchOutOfRange id index count =>
      some ("Branch index " ++ toString index ++ " is out of range for node '" ++ id
        ++ "' with " ++ toString count ++ " branches")
  | .lastBranch id => some ("Node '" ++ id ++ "' must keep at least one branch")
  | .invalidPayload cause => cause.message?

end WorkflowEditor
