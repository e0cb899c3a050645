/-
  WorkflowEditor.Node.Template
  ────────────────────────────
  **THE NODE LIBRARY.**

  What a node of each kind looks like when it is new: its name, size,
  ports and configuration.

  No Mathlib.
-/
import WorkflowEditor.Node.Port
import WorkflowEditor.Settings

namespace WorkflowEditor

/-! ## §1. The configuration of a new node. -/

namespace Kind

/-- A condition without expressions. -/
def emptyCondition : Json :=
  .obj [("logical_operator", .str "and"), ("expressions", .arr [])]

/-- A category without a name. -/
def emptyCategory : Json := .obj [("class_name", .str "")]

/-- The configuration of a new node, as it is stored. -/
def defaultConfig : Kind → Fields
  | .start => [("variables", .arr [])]
  | .finish => [("output", .str "")]
  | .answer => [("answer", .str "")]
  | .llm =>
      [("model_id", .str ""), ("context", .str ""),
        ("messages", .arr [.obj [("role", .str "system"), ("content", .str "")]]),
        ("memory",
          .obj [("enable", .bool false), ("enable_window", .bool false),
            ("window_size", .int 20)]),
        ("temperature", .float 0.7), ("max_tokens", .int 1000)]
  | .knowledgeRetrieval =>
      [("query", .str ""), ("knowledge_bases", .arr []), ("reranker_id", .null),
        ("reranker_top_k", .int 4)]
  | .ifElse => [("cases", .arr [emptyCondition])]
  | .code =>
      [("language", .str "python3"), ("code", .str ""), ("input_variables", .arr []),
        ("output_variables", .arr [])]
  | .jinjaRender => [("template", .str ""), ("mapping", .arr [])]
  | .questionClassifier =>
      [("model_id", .str ""), ("input_variable", .str ""),
        ("categories", .arr [emptyCategory, emptyCategory]),
        ("user_supplement_prompt", .str "")]
  | .httpRequest =>
      [("method", .str "GET"), ("url", .str ""),
        ("auth",
          .obj [("auth_type", .str "none"), ("header", .str ""), ("api_key", .str "")]),
        ("headers", .obj []), ("params", .obj []),
        ("body", .obj [("content_type", .str "none"), ("data", .str "")]),
        ("verify_ssl", .bool true),
        ("timeouts",
          .obj [("connect_timeout", .int 5), ("read_timeout", .int 5),
            ("write_timeout", .int 5)]),
        ("retry", .obj [("max_attempts", .int 1), ("retry_interval", .int 100)]),
        ("error_handle", .obj [("method", .str "none")])]
  | .tool => [("tool_id", .str ""), ("tool_parameters", .obj [])]
  | .agent => [("agent_id", .str ""), ("message", .str "")]
  | .assigner => [("assignments", .arr [])]
  | .varAggregator =>
      [("group", .bool false), ("group_variables", .arr []), ("group_type", .obj [])]
  | .parameterExtractor =>
      [("model_id", .str ""), ("text", .str ""), ("params", .arr []), ("prompt", .str "")]
  | .loop =>
      [("condition", emptyCondition), ("cycle_vars", .arr []), ("max_loop", .int 10)]
  | .iteration =>
      [("input", .str ""), ("parallel", .bool false), ("parallel_count", .int 4),
        ("flatten", .bool false), ("output", .str ""), ("output_type", .str "array[string]")]
  | .memoryRead =>
      [("message", .str ""), ("config_id", .str ""), ("search_switch", .str "0")]
  | .memoryWrite => [("message", .str ""), ("config_id", .str "")]
  | .cycleStart | .leave | .addNode | .other _ => []

end Kind

/-! ## §2. Templates. -/

/-- A new node of the library. -/
structure Template (α : Type) where
  kind : Kind
  name : String
  size : Size α
  ports : List Port
  /-- The configuration as it is stored. -/
  config : Fields

/-- The size of a new node. -/
def Settings.sizeOf {α : Type} (settings : Settings α) (kind : Kind) : Size α :=
  if kind.isContainer then settings.minContainerSize else settings.defaultNodeSize

/-- The library's node of a kind. -/
def Template.of {α : Type} (settings : Settings α) (kind : Kind) : Template α where
  kind := kind
  name := kind.defaultName
  size := settings.sizeOf kind
  ports := portsOf kind ⟨kind.defaultConfig⟩
  config := kind.defaultConfig

end WorkflowEditor
