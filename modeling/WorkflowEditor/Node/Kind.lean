/-
  WorkflowEditor.Node.Kind
  ────────────────────────
  **THE KINDS OF NODES.**

  A kind is written as a tag.  A tag that the editor does not know makes a
  kind too, which is kept as it is, so a document with newer nodes
  survives being loaded and saved.

  No Mathlib.
-/

namespace WorkflowEditor

/-- The kind of a node. -/
inductive Kind where
  | start
  | finish
  | answer
  | llm
  | knowledgeRetrieval
  | ifElse
  | code
  | jinjaRender
  | questionClassifier
  | httpRequest
  | tool
  | agent
  | assigner
  | varAggregator
  | parameterExtractor
  | loop
  | iteration
  | cycleStart
  | leave
  | memoryRead
  | memoryWrite
  | addNode
  /-- A kind that is known by its tag only. -/
  | other (tag : String)
  deriving Repr, DecidableEq

namespace Kind

/-! ## §1. Tags. -/

/-- Every known kind, in the order of the node library. -/
def known : List Kind :=
  [.start, .finish, .answer, .llm, .knowledgeRetrieval, .ifElse, .code, .jinjaRender,
    .questionClassifier, .httpRequest, .tool, .agent, .assigner, .varAggregator,
    .parameterExtractor, .loop, .iteration, .cycleStart, .leave, .memoryRead,
    .memoryWrite, .addNode]

/-- The tag of a kind. -/
def tag : Kind → String
  | .start => "start"
  | .finish => "end"
  | .answer => "answer"
  | .llm => "llm"
  | .knowledgeRetrieval => "knowledge-retrieval"
  | .ifElse => "if-else"
  | .code => "code"
  | .jinjaRender => "jinja-render"
  | .questionClassifier => "question-classifier"
  | .httpRequest => "http-request"
  | .tool => "tool"
  | .agent => "agent"
  | .assigner => "assigner"
  | .varAggregator => "var-aggregator"
  | .parameterExtractor => "parameter-extractor"
  | .loop => "loop"
  | .iteration => "iteration"
  | .cycleStart => "cycle-start"
  | .leave => "break"
  | .memoryRead => "memory-read"
  | .memoryWrite => "memory-write"
  | .addNode => "add-node"
  | .other tag => tag

/-- The known kind with a tag. -/
def ofTag? (tag : String) : Option Kind :=
  known.find? fun kind => kind.tag == tag

/-- The kind with a tag. -/
def ofTag (tag : String) : Kind := (ofTag? tag).getD (.other tag)

/-- A kind read from a tag has that tag. -/
theorem tag_ofTag (t : String) : (ofTag t).tag = t := by
  unfold ofTag ofTag?
  cases h : known.find? fun kind => kind.tag == t with
  | none => rfl
  | some kind => simpa using List.find?_some h

/-! ## §2. What a kind is for. -/

/-- Loops and iterations enclose other nodes. -/
def isContainer : Kind → Bool
  | .loop | .iteration => true
  | _ => false

/-- Kinds whose outgoing ports depend on their configuration. -/
def isBranching : Kind → Bool
  | .ifElse | .questionClassifier | .httpRequest => true
  | _ => false

/-- Whether edges may lead to nodes of the kind. -/
def acceptsIncoming : Kind → Bool
  | .start | .cycleStart => false
  | _ => true

/-- Whether edges may leave nodes of the kind. -/
def emitsOutgoing : Kind → Bool
  | .finish | .leave => false
  | _ => true

/-- Kinds that only the editor itself creates. -/
def isReserved : Kind → Bool
  | .cycleStart => true
  | _ => false

/-- The stand-in for a node that is still to be chosen; it is never saved. -/
def isPlaceholder : Kind → Bool
  | .addNode => true
  | _ => false

/-- The name of a new node. -/
def defaultName : Kind → String
  | .start => "Start"
  | .finish => "End"
  | .answer => "Answer"
  | .llm => "LLM"
  | .knowledgeRetrieval => "Knowledge Retrieval"
  | .ifElse => "If/Else"
  | .code => "Code"
  | .jinjaRender => "Template"
  | .questionClassifier => "Question Classifier"
  | .httpRequest => "HTTP Request"
  | .tool => "Tool"
  | .agent => "Agent"
  | .assigner => "Variable Assigner"
  | .varAggregator => "Variable Aggregator"
  | .parameterExtractor => "Parameter Extractor"
  | .loop => "Loop"
  | .iteration => "Iteration"
  | .cycleStart => "Cycle Start"
  | .leave => "Break"
  | .memoryRead => "Memory Read"
  | .memoryWrite => "Memory Write"
  | .addNode => "Add Node"
  | .other tag => tag

end Kind

end WorkflowEditor
