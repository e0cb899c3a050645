/-
  WorkflowEditor.Scope.Outputs
  ────────────────────────────
  **WHAT NODES PUBLISH.**

  Each kind of node publishes some fields, and a container injects some
  into its children.  The type of a field is known from the node, or it is
  that of another reference, or that of the items of another reference.
  Which of these it is can be read off the node alone (`TypeSource`);
  following references is the work of `Scope.Typing`.

  No Mathlib.
-/
import WorkflowEditor.Graph.Basic
import WorkflowEditor.Scope.Selector
import WorkflowEditor.Scope.VariableType

namespace WorkflowEditor

/-- Where the type of a field comes from. -/
inductive TypeSource where
  | known (type : VariableType)
  | sameAs (reference : String)
  | elementOf (reference : String)
  deriving Repr, DecidableEq

/-- A field that a node publishes. -/
structure OutputField where
  name : String
  source : TypeSource
  /-- Published for the whole system and not under the node's id. -/
  system : Bool
  deriving Repr, DecidableEq

namespace OutputField

/-- A field of a known type under the node's id. -/
def plain (name : String) (type : VariableType) : OutputField := ⟨name, .known type, false⟩

/-- The variables of the system, which the start publishes. -/
def systemFields : List OutputField :=
  ["message", "conversation_id", "execution_id", "workspace_id", "user_id"].map fun name =>
    ⟨name, .known .string, true⟩

/-- The field that a declaration stands for; one without a name stands for
none, and one without a type is a string. -/
def ofDeclaration? (item : Json) : Option OutputField := do
  let name ← (item.field? "name").bind Json.str?
  if name = "" then none
  else
    let type := ((item.field? "type").bind Json.str?).map VariableType.ofTag
    return .plain name (type.getD .string)

/-- The declarations in a list of a form. -/
def declared (form : Form) (key : String) : List OutputField :=
  (form.items key).filterMap ofDeclaration?

/-- The type of the first reference of a list. -/
def firstSource (references : Option Json) : TypeSource :=
  let first := do
    let items ← references.bind Json.arr?
    let text ← items.head?.bind Json.str?
    parseSelector? text
  match first with
  | some reference => .sameAs reference
  | none => .known .any

/-- The field of a group of an aggregator; one without a key has none. -/
def ofGroup? (group : Json) : Option OutputField :=
  ((group.field? "key").bind Json.str?).map fun name =>
    ⟨name, firstSource (group.field? "value"), false⟩

/-- The fields of an aggregator: one for each group, or one for all. -/
def aggregated (form : Form) : List OutputField :=
  let grouped := ((form.get? "group").bind Json.bool?).getD false
  match (form.get? "group_variables").bind Json.arr? with
  | none => [.plain "output" .any]
  | some entries =>
      if grouped then entries.filterMap ofGroup?
      else [⟨"output", firstSource (some (.arr entries)), false⟩]

end OutputField

namespace Node

open OutputField

variable {α : Type}

/-- The fields that a node publishes to the nodes behind it. -/
def outputs (node : Node α) : List OutputField :=
  match node.kind with
  | .start => declared node.form "variables" ++ systemFields
  | .llm | .agent | .jinjaRender | .memoryWrite => [plain "output" .string]
  | .httpRequest =>
      [plain "body" .string, plain "status_code" .number, plain "headers" .object,
        plain "output" .string]
  | .tool =>
      [plain "data" .string, plain "error_code" .string, plain "execution_time" .number]
  | .memoryRead => [plain "answer" .string, plain "intermediate_outputs" .arrayObject]
  | .knowledgeRetrieval => [plain "output" .arrayString]
  | .questionClassifier => [plain "class_name" .string, plain "output" .string]
  | .code => declared node.form "output_variables"
  | .parameterExtractor => declared node.form "params"
  | .varAggregator => aggregated node.form
  | .iteration =>
      let type := ((node.form.get? "output_type").bind Json.str?).map VariableType.ofTag
      [plain "output" (type.getD .any)]
  | .loop => declared node.form "cycle_vars"
  | .finish | .answer | .ifElse | .assigner | .cycleStart | .leave | .addNode | .other _ => []

/-- The fields that a container injects into its children. -/
def injected (node : Node α) : List OutputField :=
  match node.kind with
  | .loop => declared node.form "cycle_vars"
  | .iteration =>
      let input := ((node.form.get? "input").bind Json.str?).bind parseSelector?
      let source :=
        match input with
        | some reference => .elementOf reference
        | none => .known .any
      [⟨"item", source, false⟩, plain "index" .number]
  | _ => []

/-- Every field of a node that a reference may name. -/
def fields (node : Node α) : List OutputField :=
  node.outputs ++ if node.kind.isContainer then node.injected else []

/-- The field of a node that a reference names. -/
def field? (node : Node α) (name : String) : Option OutputField :=
  node.fields.find? fun field => field.name == name && !field.system

end Node

end WorkflowEditor
