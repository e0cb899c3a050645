/-
  WorkflowEditor.Scope.Resolve
  ────────────────────────────
  **THE VARIABLES A NODE MAY REFER TO.**

  In order: what the node's container injects, what the nodes before it
  publish (the nearest first), what the nodes before its container
  publish, and the variables of the conversation.  Of variables with the
  same value the first one counts.

  No Mathlib.
-/
import WorkflowEditor.Digraph
import WorkflowEditor.Graph.Containment
import WorkflowEditor.Scope.Typing

namespace WorkflowEditor

/-- Where a variable comes from. -/
structure Origin where
  id : String
  name : String
  /-- Absent for the conversation, which is no node. -/
  kind : Option Kind
  deriving Repr, DecidableEq

/-- A variable that can be picked. -/
structure Variable where
  key : String
  label : String
  dataType : VariableType
  /-- The reference that is put into templates. -/
  value : String
  origin : Origin
  deriving Repr, DecidableEq

/-- The variable of a namespace with a name. -/
def Variable.named (space name : String) (type : VariableType) (origin : Origin) :
    Variable where
  key := space ++ "_" ++ name
  label := name
  dataType := type
  value := space ++ "." ++ name
  origin := origin

/-- The variables of a list whose value no earlier one has. -/
def distinctValues : List String → List Variable → List Variable
  | _, [] => []
  | seen, v :: rest =>
      if seen.contains v.value then distinctValues seen rest
      else v :: distinctValues (v.value :: seen) rest

namespace Graph

variable {α : Type}

/-- The edges by their ends. -/
def links (g : Graph α) : Digraph := g.edges.map fun edge => (edge.source, edge.target)

/-- The nodes before a node, the nearest first. -/
def ancestors (g : Graph α) (id : String) : List String := g.links.ancestors id

/-- Fields of a node as variables. -/
def variablesOf (g : Graph α) (node : Node α) (fields : List OutputField) : List Variable :=
  fields.map fun field =>
    .named (if field.system then systemSpace else node.id) field.name (g.fieldType field)
      ⟨node.id, node.name, some node.kind⟩

/-- What the node with an id publishes. -/
def outputsOf (g : Graph α) (id : String) : List Variable :=
  match g.node? id with
  | some node => g.variablesOf node node.outputs
  | none => []

/-- The variables of the conversation. -/
def conversationVariables (g : Graph α) : List Variable :=
  g.vars.map fun v =>
    .named conversationSpace v.name (.ofTag v.dataType)
      ⟨conversationSpace, "Conversation", none⟩

/-- The variables that the node with an id may refer to. -/
def resolve (g : Graph α) (id : String) : Except GraphError (List Variable) := do
  let node ← g.require id
  -- A child sees what its container injects and what stands before that.
  let (injected, before) :=
    match g.containerOf? node with
    | some container =>
        (g.variablesOf container container.injected,
          (g.ancestors container.id).flatMap g.outputsOf)
    | none => ([], [])
  return distinctValues [] <|
    injected ++ (g.ancestors id).flatMap g.outputsOf ++ before ++ g.conversationVariables

end Graph

end WorkflowEditor
