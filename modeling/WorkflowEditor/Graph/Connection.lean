/-
  WorkflowEditor.Graph.Connection
  ───────────────────────────────
  **MAKING AND CUTTING EDGES.**

  An edge leads from a right port of one node to a left port of another in
  the same container.  Of the rules that stand in the way the first one
  broken is reported, in the order: a node is connected to itself, the
  target accepts no edges, the source emits none, the containers differ, a
  port does not exist, the edge exists already.

  No Mathlib.
-/
import WorkflowEditor.Graph.Containment

namespace WorkflowEditor

variable {α : Type}

/-- The rules that hold whatever the ports are. -/
def checkEnds (source target : Node α) : Except ConnectionError Unit :=
  if source.id = target.id then .error (.selfLoop source.id)
  else if !target.kind.acceptsIncoming then .error (.targetIsStart target.id)
  else if !source.kind.emitsOutgoing then .error (.sourceIsEnd source.id)
  else if source.cycle ≠ target.cycle then .error (.crossContainer source.id target.id)
  else .ok ()

/-- The port asked for, or else the first one on a side. -/
def Node.pickPort (node : Node α) (side : Side) (wanted : Option String) :
    Except ConnectionError String :=
  let found :=
    match wanted with
    | some id => (node.portIds side).find? fun other => other == id
    | none => (node.portIds side).head?
  match found with
  | some id => .ok id
  | none => .error (.unknownPort node.id (wanted.getD side.name) side)

namespace Graph

/-- Whether an edge between these ports exists. -/
def hasEdge (g : Graph α) (source sourcePort target targetPort : String) : Bool :=
  g.edges.any fun edge =>
    edge.source == source && edge.sourcePort == sourcePort
      && edge.target == target && edge.targetPort == targetPort

/-- The ports between which an edge may be made. -/
def joint (g : Graph α) (sourceId : String) (sourcePort : Option String)
    (targetId : String) (targetPort : Option String) :
    Except GraphError (String × String) := do
  let source ← g.require sourceId
  let target ← g.require targetId
  let ports := do
    checkEnds source target
    let sourcePort ← source.pickPort .right sourcePort
    let targetPort ← target.pickPort .left targetPort
    if g.hasEdge sourceId sourcePort targetId targetPort then
      throw (ConnectionError.duplicate sourceId sourcePort targetId)
    return (sourcePort, targetPort)
  ports.mapError .invalidConnection

/-- Whether an edge may be made. -/
def canConnect (g : Graph α) (source : String) (sourcePort : Option String)
    (target : String) (targetPort : Option String) : Except GraphError Unit :=
  (fun _ => ()) <$> g.joint source sourcePort target targetPort

/-- The edge id with a number. -/
def edgeId (number : Nat) : String := "edge_" ++ toString number

/-- The first number above the counter whose edge id is free.  One of as
many numbers as there are edges, and one more, is. -/
def nextEdgeNumber (g : Graph α) : Nat :=
  let numbers := (List.range (g.edges.length + 1)).map fun i => g.edgeCounter + 1 + i
  (numbers.find? fun number => (g.edge? (edgeId number)).isNone).getD (g.edgeCounter + 1)

/-- Makes an edge and answers its id. -/
def connect (g : Graph α) (source : String) (sourcePort : Option String)
    (target : String) (targetPort : Option String) :
    Except GraphError (Draft α × String) := do
  let (sourcePort, targetPort) ← g.joint source sourcePort target targetPort
  let number := g.nextEdgeNumber
  let id := edgeId number
  let edge : Edge := ⟨id, source, sourcePort, target, targetPort, []⟩
  let d := (g.draft.revise fun g => { g with edgeCounter := number }).addEdge edge
  return (d.emit (.edgeAdded id), id)

/-- Cuts an edge and answers it. -/
def disconnect (g : Graph α) (id : String) : Except GraphError (Draft α × Edge) :=
  -- Loaded edges may share an id; all of them are cut.
  let named (edge : Edge) : Bool := edge.id == id
  match (g.edges.filter named).getLast? with
  | some edge => .ok ((g.draft.dropEdges named).emit (.edgeRemoved id), edge)
  | none => .error (.edgeNotFound id)

end Graph

end WorkflowEditor
