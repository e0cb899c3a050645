/-
  WorkflowEditor.Document.Format
  ──────────────────────────────
  **THE WRITTEN FORM OF A DOCUMENT.**

  Reading and writing of the document and all its parts.  Fields are
  written in a fixed order; one that is absent is left out.  The fields a
  node or edge keeps for others come last, in the order they were read.

  No Mathlib.
-/
import WorkflowEditor.Document.Basic
import WorkflowEditor.Json.Printer
import WorkflowEditor.Settings

namespace WorkflowEditor

/-! ## §1. Reading. -/

/-- The kind behind a tag. -/
def Kind.decoder : Decoder Kind := fun room r => Kind.ofTag <$> Decoder.text room r

/-- The fields of the bounds for running. -/
def ExecutionConfig.record : Record ExecutionConfig :=
  let d := ExecutionConfig.standard
  ExecutionConfig.mk
    <$> .defaulted "max_iterations" .nat32 d.maxIterations
    <*> .defaulted "timeout" .nat32 d.timeout
    <*> .defaulted "enable_cache" .bool d.enableCache
    <*> .defaulted "parallel_limit" .nat32 d.parallelLimit

/-- The fields of a trigger. -/
def Trigger.record : Record Trigger :=
  Trigger.mk <$> .required "type" .text <*> .defaulted "config" .fields []

/-- The fields of a conversation variable. -/
def ConversationVariable.record : Record ConversationVariable :=
  ConversationVariable.mk
    <$> .required "name" .text
    <*> .defaulted "type" .text "string"
    <*> .defaulted "required" .bool false
    <*> .optional "default" .json
    <*> .optional "description" .text

/-- The fields of a node. -/
def StoredNode.record : Record (Fields → StoredNode Float) :=
  StoredNode.mk
    <$> .required "id" .text
    <*> .required "type" Kind.decoder
    <*> .optional "name" .text
    <*> .optional "position" Position.record.decoder
    <*> .defaulted "config" .fields []
    <*> .optional "cycle" .text

/-- The fields of an edge. -/
def StoredEdge.record : Record (Fields → StoredEdge) :=
  StoredEdge.mk
    <$> .required "source" .text
    <*> .required "target" .text
    <*> .optional "label" .text

/-- The fields of a document. -/
def Document.record : Record (Document Float) :=
  make
    <$> .optional "id" .text
    <*> .optional "app_id" .text
    <*> .defaulted "nodes" (.list StoredNode.record.decoderWithRest) []
    <*> .defaulted "edges" (.list StoredEdge.record.decoderWithRest) []
    <*> .defaulted "variables" (.list ConversationVariable.record.decoder) []
    <*> .defaulted "execution_config" ExecutionConfig.record.decoder .standard
    <*> .defaulted "triggers" (.list Trigger.record.decoder) []
    <*> .defaulted "is_active" .bool true
    <*> .optional "created_at" .int64
    <*> .optional "updated_at" .int64
where
  make (id appId : Option String) (nodes : List (StoredNode Float))
      (edges : List StoredEdge) (vars : List ConversationVariable)
      (execution : ExecutionConfig) (triggers : List Trigger) (isActive : Bool)
      (createdAt updatedAt : Option Int) : Document Float :=
    ⟨⟨id, appId, execution, triggers, isActive, createdAt, updatedAt⟩,
      nodes, edges, vars⟩

/-- The document that a text holds. -/
def Document.ofText (text : String) : Except DecodeError (Document Float) :=
  Document.record.decoder.ofText text

/-! ## §2. Writing. -/

/-- A field that is written only if it has a value. -/
def fieldIf {β : Type} (name : String) (write : β → Json) : Option β → Fields
  | some b => [(name, write b)]
  | none => []

/-- The bounds for running as JSON. -/
def ExecutionConfig.toJson (c : ExecutionConfig) : Json :=
  .obj
    [("max_iterations", .int c.maxIterations), ("timeout", .int c.timeout),
      ("enable_cache", .bool c.enableCache), ("parallel_limit", .int c.parallelLimit)]

/-- A trigger as JSON. -/
def Trigger.toJson (t : Trigger) : Json :=
  .obj [("type", .str t.kind), ("config", .obj t.config)]

/-- A conversation variable as JSON. -/
def ConversationVariable.toJson (v : ConversationVariable) : Json :=
  .obj <|
    [("name", .str v.name), ("type", .str v.dataType), ("required", .bool v.required)]
      ++ fieldIf "default" id v.default
      ++ fieldIf "description" .str v.description

/-- A node as JSON. -/
def StoredNode.toJson (n : StoredNode Float) : Json :=
  .obj <|
    [("id", .str n.id), ("type", .str n.kind.tag)]
      ++ fieldIf "name" .str n.name
      ++ fieldIf "position" Position.toJson n.position
      ++ [("config", .obj n.config)]
      ++ fieldIf "cycle" .str n.cycle
      ++ n.extra

/-- An edge as JSON. -/
def StoredEdge.toJson (e : StoredEdge) : Json :=
  .obj <|
    [("source", .str e.source), ("target", .str e.target)]
      ++ fieldIf "label" .str e.label
      ++ e.extra

/-- A document as JSON. -/
def Document.toJson (d : Document Float) : Json :=
  .obj <|
    fieldIf "id" .str d.info.id
      ++ fieldIf "app_id" .str d.info.appId
      ++ [("nodes", .arr (d.nodes.map StoredNode.toJson)),
        ("edges", .arr (d.edges.map StoredEdge.toJson)),
        ("variables", .arr (d.vars.map ConversationVariable.toJson)),
        ("execution_config", d.info.execution.toJson),
        ("triggers", .arr (d.info.triggers.map Trigger.toJson)),
        ("is_active", .bool d.info.isActive)]
      ++ fieldIf "created_at" .int d.info.createdAt
      ++ fieldIf "updated_at" .int d.info.updatedAt

/-- A document as text, in the pretty form. -/
def Document.toText (d : Document Float) : String := d.toJson.pretty

end WorkflowEditor
