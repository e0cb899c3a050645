/-
  WorkflowEditor.Document.Basic
  ─────────────────────────────
  **THE STORED WORKFLOW.**

  A document holds the nodes and edges of a workflow, the variables of its
  conversations, and what concerns the document as a whole.  Fields of
  nodes and edges that the editor does not know are kept beside the others
  and are stored again as they were.

  No Mathlib.
-/
import WorkflowEditor.Geometry
import WorkflowEditor.Json.Basic
import WorkflowEditor.Node.Kind

namespace WorkflowEditor

/-! ## §1. What concerns the document as a whole. -/

/-- The bounds within which a workflow is run. -/
structure ExecutionConfig where
  maxIterations : Nat
  /-- In seconds. -/
  timeout : Nat
  enableCache : Bool
  parallelLimit : Nat
  deriving Repr, DecidableEq

/-- The bounds where none are given. -/
def ExecutionConfig.standard : ExecutionConfig := ⟨100, 600, true, 5⟩

/-- What starts a workflow on its own. -/
structure Trigger where
  kind : String
  config : Fields

/-- What concerns the document as a whole. -/
structure DocumentInfo where
  id : Option String
  appId : Option String
  execution : ExecutionConfig
  triggers : List Trigger
  isActive : Bool
  /-- In milliseconds since the epoch, as is the next. -/
  createdAt : Option Int
  updatedAt : Option Int

/-- A document about which nothing is said. -/
def DocumentInfo.blank : DocumentInfo where
  id := none
  appId := none
  execution := .standard
  triggers := []
  isActive := true
  createdAt := none
  updatedAt := none

/-- A variable of the conversation, which every node may refer to. -/
structure ConversationVariable where
  name : String
  dataType : String
  required : Bool
  default : Option Json
  description : Option String

/-! ## §2. Nodes, edges and the document. -/

/-- A node as it is stored. -/
structure StoredNode (α : Type) where
  id : String
  kind : Kind
  name : Option String
  position : Option (Position α)
  config : Fields
  /-- The container that encloses the node. -/
  cycle : Option String
  /-- Fields the editor does not know. -/
  extra : Fields

/-- An edge as it is stored. -/
structure StoredEdge where
  source : String
  target : String
  /-- The branch of the source that the edge leaves by. -/
  label : Option String
  /-- Fields the editor does not know. -/
  extra : Fields

/-- A stored workflow. -/
structure Document (α : Type) where
  info : DocumentInfo
  nodes : List (StoredNode α)
  edges : List StoredEdge
  vars : List ConversationVariable

end WorkflowEditor
