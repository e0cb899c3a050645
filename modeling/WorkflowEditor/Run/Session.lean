/-
  WorkflowEditor.Run.Session
  ──────────────────────────
  **A CHAT WITH A WORKFLOW.**

  A session is the history of a chat: what the user sent and, after each
  message, the trace of the run that answers it.  The last of these is the
  current run.  A session made for a graph knows which inputs a run needs
  and what the nodes are called.

  No Mathlib.
-/
import WorkflowEditor.Graph.Basic
import WorkflowEditor.Run.Trace
import WorkflowEditor.Text.Blank

namespace WorkflowEditor.Run

/-- An entry of a chat. -/
inductive Entry where
  | user (text : String)
  | assistant (trace : Trace)

/-- What is asked of the engine. -/
structure Request where
  /-- The place of the run among the entries; it is not sent. -/
  run : Nat
  message : String
  inputs : Fields
  conversationId : Option String

/-- A request as JSON. -/
def Request.toJson (r : Request) : Json :=
  .obj <|
    [("message", .str r.message), ("variables", .obj r.inputs)]
      ++ fieldIf "conversation_id" .str r.conversationId
      ++ [("stream", .bool true)]

/-- Inputs that a run needs and that were not given. -/
structure MissingInputs where
  names : List String
  deriving Repr, DecidableEq

/-- The error as a sentence. -/
def MissingInputs.message (e : MissingInputs) : String :=
  "Missing required input variables: " ++ ", ".intercalate e.names

/-- The name and the kind of a node. -/
structure Label where
  name : String
  kind : Kind
  deriving Repr, DecidableEq

/-- A chat with a workflow. -/
structure Session where
  entries : List Entry
  conversationId : Option String
  /-- The inputs that a run needs, in the order of their declaration. -/
  required : List String
  /-- What nodes are called, by id. -/
  labels : List (String × Label)

namespace Session

/-! ## §1. New sessions. -/

/-- A chat with a workflow that is not known. -/
def empty : Session := ⟨[], none, [], []⟩

/-- The name of a declared input, if a run needs it. -/
def requiredName? (item : Json) : Option String :=
  if ((item.field? "required").bind Json.bool?).getD false then
    (item.field? "name").bind Json.str?
  else none

/-- An item declares an input that a run needs if it is marked so and has a
name. -/
theorem requiredName?_eq_some_iff {item : Json} {name : String} :
    requiredName? item = some name
      ↔ item.field? "required" = some (.bool true) ∧ item.field? "name" = some (.str name) := by
  have hname : (item.field? "name").bind Json.str? = some name
      ↔ item.field? "name" = some (.str name) := by
    cases item.field? "name" with
    | none => simp
    | some value => cases value <;> simp [Json.str?]
  unfold requiredName?
  cases item.field? "required" with
  | none => simp
  | some value =>
      cases value with
      | bool marked => cases marked <;> simp [Json.bool?, hname]
      | null | num | str | arr | obj => simp [Json.bool?]

/-- A chat with the workflow of a graph. -/
def ofGraph {α : Type} (g : Graph α) : Session where
  entries := []
  conversationId := none
  required :=
    (g.nodes.filter fun node => node.kind = .start && node.cycle.isNone).flatMap fun node =>
      (node.form.items "variables").filterMap requiredName?
  labels := g.nodes.map fun node => (node.id, ⟨node.name, node.kind⟩)

/-! ## §2. The current run. -/

/-- The trace of the current run. -/
def current? (s : Session) : Option Trace :=
  s.entries.reverse.findSome? fun entry =>
    match entry with
    | .assistant trace => some trace
    | .user _ => none

/-- Changes the last trace of a list of entries; the newest entry comes
first. -/
def reviseNewest (f : Trace → Trace) : List Entry → List Entry
  | [] => []
  | .assistant trace :: rest => .assistant (f trace) :: rest
  | .user text :: rest => .user text :: reviseNewest f rest

/-- Changes the trace of the current run. -/
def reviseCurrent (s : Session) (f : Trace → Trace) : Session :=
  { s with entries := (reviseNewest f s.entries.reverse).reverse }

/-- Where the current run stands. -/
def status (s : Session) : Status := (s.current?.map Trace.status).getD .idle

/-! ## §3. Sending. -/

/-- Whether an input was not given: absent, `null` or blank. -/
def isUnset : Option Json → Bool
  | none => true
  | some .null => true
  | some (.str text) => (trimBlanks text.toList).isEmpty
  | some _ => false

/-- Starts a run, unless an input that it needs was not given. -/
def send (s : Session) (message : String) (inputs : Fields) :
    Except MissingInputs (Session × Request) :=
  match s.required.filter fun name => isUnset (inputs.lookup name) with
  | [] =>
      let entries := s.entries ++ [.user message, .assistant .streaming]
      .ok ({ s with entries := entries },
        ⟨entries.length - 1, message, inputs, s.conversationId⟩)
  | names => .error ⟨names⟩

/-! ## §4. Events. -/

/-- Puts the name and the kind of a node into its entry. -/
def label (s : Session) (nodeId : String) (t : Trace) : Trace :=
  match s.labels.lookup nodeId with
  | some label =>
      t.reviseNode nodeId fun entry =>
        { entry with name := some label.name, kind := some label.kind }
  | none => t

/-- The trace after an event, with the entry of a node that was started
labelled. -/
def advance (s : Session) (t : Trace) (event : Event) : Trace × Bool :=
  match event, t.apply event with
  | .nodeStart nodeId .., (t, true) => (s.label nodeId t, true)
  | _, result => result

/-- Takes an event into the current run; answers whether it had any
effect. -/
def apply (s : Session) (event : Event) : Session × Bool :=
  match s.current? with
  | none => (s, false)
  | some trace =>
      let (trace, applied) := s.advance trace event
      ({ s.reviseCurrent fun _ => trace with
          conversationId := trace.conversationId <|> s.conversationId },
        applied)

/-- Ends the current run with an error from outside; answers whether that
had any effect. -/
def fail (s : Session) (raw : Json) : Session × Bool :=
  match s.current? with
  | none => (s, false)
  | some trace =>
      let (trace, failed) := trace.fail raw
      (s.reviseCurrent fun _ => trace, failed)

/-- Forgets the history and the conversation. -/
def reset (s : Session) : Session := { s with entries := [], conversationId := none }

end Session

/-! ## §5. Display. -/

/-- What stands below the text of an answer. -/
inductive SubContent where
  | nodes (entries : List NodeTrace)
  | failure (raw : Json)

/-- An entry as it is displayed. -/
inductive Item where
  | user (text : String)
  | assistant (content : Option String) (status : Status) (sub : SubContent)
      (error : Option Json)

namespace Item

/-- A trace as it is displayed. -/
def ofTrace (t : Trace) : Item :=
  let sub :=
    match t.failure with
    | some raw => .failure raw
    | none => .nodes t.nodes
  .assistant t.content t.status sub (t.error <|> t.failure)

/-- An entry as it is displayed. -/
def ofEntry : Entry → Item
  | .user text => .user text
  | .assistant trace => ofTrace trace

/-- A displayed entry as JSON. -/
def toJson : Item → Json
  | .user text => .obj [("role", .str "user"), ("content", .str text)]
  | .assistant content status sub error =>
      .obj <|
        [("role", .str "assistant"), ("content", (content.map Json.str).getD .null),
          ("status", .str status.name),
          ("subContent",
            match sub with
            | .nodes entries => .arr (entries.map NodeTrace.toJson)
            | .failure raw => raw)]
          ++ fieldIf "error" id error

end Item

/-- The entries of a chat as they are displayed. -/
def Session.items (s : Session) : List Item := s.entries.map .ofEntry

end WorkflowEditor.Run
