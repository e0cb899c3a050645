/-
  WorkflowEditor.Run.Trace
  ────────────────────────
  **THE TRACE OF A RUN.**

  A trace is what the events of a run add up to: where the run stands, the
  text it has answered, and an entry for each node that was started.  Once
  the run is over nothing changes its trace any more.

  No Mathlib.
-/
import WorkflowEditor.Document.Format
import WorkflowEditor.Run.Event

namespace WorkflowEditor.Run

/-! ## §1. Entries of nodes. -/

/-- What is known of one node of a run. -/
structure NodeTrace where
  nodeId : String
  name : Option String
  kind : Option Kind
  status : NodeStatus
  input : Json
  output : Json
  error : Option Json
  elapsed : Option Float

namespace NodeTrace

/-- The entry of a node that was just started. -/
def started (nodeId : String) : NodeTrace where
  nodeId := nodeId
  name := none
  kind := none
  status := .running
  input := .null
  output := .null
  error := none
  elapsed := none

/-- The entry of a node that is started again. -/
def restarted (entry : NodeTrace) : NodeTrace :=
  { started entry.nodeId with name := entry.name, kind := entry.kind }

/-- An entry as JSON. -/
def toJson (entry : NodeTrace) : Json :=
  .obj <|
    [("node_id", .str entry.nodeId)]
      ++ fieldIf "name" .str entry.name
      ++ fieldIf "type" (fun kind => .str kind.tag) entry.kind
      ++ [("status", .str entry.status.name), ("input", entry.input),
        ("output", entry.output)]
      ++ fieldIf "error" id entry.error
      ++ fieldIf "elapsed_time" .float entry.elapsed

end NodeTrace

/-! ## §2. Traces. -/

/-- What the events of a run add up to. -/
structure Trace where
  status : Status
  /-- The text answered so far. -/
  content : Option String
  nodes : List NodeTrace
  /-- The error that the run ended with. -/
  error : Option Json
  /-- What went wrong outside any node; it is shown instead of the
  nodes. -/
  failure : Option Json
  executionId : Option String
  conversationId : Option String
  elapsed : Option Float

namespace Trace

/-- The trace of no run. -/
def idle : Trace where
  status := .idle
  content := none
  nodes := []
  error := none
  failure := none
  executionId := none
  conversationId := none
  elapsed := none

/-- The trace of a run that was asked for and has not answered yet. -/
def streaming : Trace := { idle with status := .streaming }

/-- The entry of a node. -/
def node? (t : Trace) (id : String) : Option NodeTrace :=
  t.nodes.find? fun entry => entry.nodeId == id

/-- Changes the entry of a node. -/
def reviseNode (t : Trace) (id : String) (f : NodeTrace → NodeTrace) : Trace :=
  { t with nodes := t.nodes.map fun entry => if entry.nodeId = id then f entry else entry }

/-- Ends the run with an error from outside; answers whether that had any
effect. -/
def fail (t : Trace) (raw : Json) : Trace × Bool :=
  if t.status.isOver then (t, false)
  else ({ t with status := .failed, content := none, failure := some raw }, true)

/-- Takes in an event of a run that is not over. -/
def take (t : Trace) : Event → Trace × Bool
  | .workflowStart executionId conversationId =>
      ({ t with
          executionId := executionId <|> t.executionId
          conversationId := conversationId <|> t.conversationId },
        true)
  | .message chunk conversationId =>
      ({ t with
          content := some (t.content.getD "" ++ chunk)
          conversationId := conversationId <|> t.conversationId },
        true)
  | .nodeStart nodeId conversationId executionId _ =>
      let t :=
        if (t.node? nodeId).isSome then t.reviseNode nodeId NodeTrace.restarted
        else { t with nodes := t.nodes ++ [.started nodeId] }
      ({ t with
          executionId := executionId <|> t.executionId
          conversationId := conversationId <|> t.conversationId },
        true)
  | .nodeEnd nodeId input output elapsed status =>
      if (t.node? nodeId).isSome then
        (t.reviseNode nodeId fun entry =>
          { entry with
            status := status.getD .completed
            input := input
            output := output
            elapsed := elapsed },
          true)
      else (t, false)
  | .nodeError nodeId input error elapsed =>
      if (t.node? nodeId).isSome then
        (t.reviseNode nodeId fun entry =>
          { entry with
            status := .failed
            input := input
            output := .null
            error := some error
            elapsed := elapsed },
          true)
      else (t, false)
  | .workflowEnd status error elapsed =>
      ({ t with
          status := status
          error := error
          elapsed := elapsed
          content := t.content.filter fun text => text != "" },
        true)
  | .failure payload => ((t.fail payload).1, true)
  | .ignored _ => (t, false)

/-- Takes in an event; answers whether it had any effect.  The first event
makes an idle run a streaming one. -/
def apply (t : Trace) (event : Event) : Trace × Bool :=
  if t.status.isOver then (t, false)
  else ({ t with status := .streaming }).take event

end Trace

end WorkflowEditor.Run
