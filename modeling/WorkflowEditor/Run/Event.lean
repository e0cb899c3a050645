/-
  WorkflowEditor.Run.Event
  ────────────────────────
  **WHAT A RUN TELLS.**

  The frames of an event stream carry a name and a payload in JSON.  An
  event with a name that is not known is not looked at any further.

  No Mathlib.
-/
import WorkflowEditor.Json.Decode
import WorkflowEditor.Run.Sse

namespace WorkflowEditor.Run

/-! ## §1. Statuses. -/

/-- Where a node stands in a run. -/
inductive NodeStatus where
  | running
  | completed
  | failed
  deriving Repr, DecidableEq

/-- Where a run stands. -/
inductive Status where
  | idle
  | streaming
  | completed
  | failed
  deriving Repr, DecidableEq

/-- The name of a status. -/
def NodeStatus.name : NodeStatus → String
  | .running => "running"
  | .completed => "completed"
  | .failed => "failed"

/-- The status with a name. -/
def NodeStatus.ofName? (name : String) : Option NodeStatus :=
  [.running, .completed, .failed].find? fun (status : NodeStatus) => status.name == name

namespace Status

/-- The name of a status. -/
def name : Status → String
  | .idle => "idle"
  | .streaming => "streaming"
  | .completed => "completed"
  | .failed => "failed"

/-- Whether a run has ended. -/
def isOver : Status → Bool
  | .completed | .failed => true
  | _ => false

end Status

/-! ## §2. Events. -/

/-- An event of a run. -/
inductive Event where
  | workflowStart (executionId conversationId : Option String)
  | message (chunk : String) (conversationId : Option String)
  | nodeStart (nodeId : String) (conversationId executionId : Option String)
      (timestamp : Option Int)
  | nodeEnd (nodeId : String) (input output : Json) (elapsed : Option Float)
      (status : Option NodeStatus)
  | nodeError (nodeId : String) (input error : Json) (elapsed : Option Float)
  | workflowEnd (status : Status) (error : Option Json) (elapsed : Option Float)
  /-- Something went wrong outside any node. -/
  | failure (payload : Json)
  /-- An event with a name that is not known. -/
  | ignored (name : String)

namespace Event

/-- The name of an event. -/
def name : Event → String
  | .workflowStart .. => "workflow_start"
  | .message .. => "message"
  | .nodeStart .. => "node_start"
  | .nodeEnd .. => "node_end"
  | .nodeError .. => "node_error"
  | .workflowEnd .. => "workflow_end"
  | .failure _ => "error"
  | .ignored name => name

/-! ## §3. Payloads. -/

/-- The name of a node status, alone or as the only key of an object
without a value. -/
def statusDecoder : Decoder NodeStatus := fun room r =>
  let named (name : String) : Except DecodeError NodeStatus :=
    match NodeStatus.ofName? name with
    | some status => .ok status
    | none => .error .malformed
  match room.enter, r with
  | _, .str (some name) => named name
  | some _, .obj [(some name, .null)] true => named name
  | _, _ => .error .malformed

/-- The payload of `workflow_start`. -/
def workflowStartRecord : Record Event :=
  workflowStart <$> .optional "execution_id" .text <*> .optional "conversation_id" .text

/-- The payload of `message`. -/
def messageRecord : Record Event :=
  message <$> .defaulted "chunk" .text "" <*> .optional "conversation_id" .text

/-- The payload of `node_start`. -/
def nodeStartRecord : Record Event :=
  nodeStart
    <$> .required "node_id" .text
    <*> .optional "conversation_id" .text
    <*> .optional "execution_id" .text
    <*> .optional "timestamp" .int64

/-- The payload of `node_end`. -/
def nodeEndRecord : Record Event :=
  nodeEnd
    <$> .required "node_id" .text
    <*> .defaulted "input" .json .null
    <*> .defaulted "output" .json .null
    <*> .optional "elapsed_time" .float
    <*> .optional "status" statusDecoder

/-- The payload of `node_error`. -/
def nodeErrorRecord : Record Event :=
  nodeError
    <$> .required "node_id" .text
    <*> .defaulted "input" .json .null
    <*> .defaulted "error" .json .null
    <*> .optional "elapsed_time" .float

/-- The payload of `workflow_end`.  Any status but `failed` is a
success. -/
def workflowEndRecord : Record Event :=
  make <$> .optional "status" .text <*> .optional "error" .json
    <*> .optional "elapsed_time" .float
where
  make (status : Option String) (error : Option Json) (elapsed : Option Float) : Event :=
    .workflowEnd (if status = some "failed" then .failed else .completed) error elapsed

/-- The event with a name and a payload.  The payload of `error` may be
any text; if it is no JSON, it is taken as it stands. -/
def parse (name data : String) : Except DecodeError Event :=
  match name with
  | "workflow_start" => workflowStartRecord.decoder.ofText data
  | "message" => messageRecord.decoder.ofText data
  | "node_start" => nodeStartRecord.decoder.ofText data
  | "node_end" => nodeEndRecord.decoder.ofText data
  | "node_error" => nodeErrorRecord.decoder.ofText data
  | "workflow_end" => workflowEndRecord.decoder.ofText data
  | "error" => .ok (.failure ((Json.ofText? data).getD (.str data)))
  | other => .ok (.ignored other)

/-- The event of a frame. -/
def ofFrame (frame : Sse.Frame) : Except DecodeError Event := parse frame.event frame.data

end Event

end WorkflowEditor.Run
