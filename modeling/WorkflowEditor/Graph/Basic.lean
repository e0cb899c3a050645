/-
  WorkflowEditor.Graph.Basic
  ──────────────────────────
  **THE GRAPH ON THE CANVAS.**

  A graph holds the nodes in the order they were added, the edges in the
  order they were made, and the variables and properties of its document.
  Every change that is applied raises its revision by one and is announced
  to the listeners as an event.

  This module has the types and the questions that can be asked of a
  graph; the changes are in the modules beside it.

  No Mathlib.
-/
import WorkflowEditor.Document.Basic
import WorkflowEditor.Node.Port
import WorkflowEditor.Settings

namespace WorkflowEditor

/-! ## §1. Nodes and edges. -/

/-- A node on the canvas. -/
structure Node (α : Type) where
  id : String
  kind : Kind
  name : String
  position : Position α
  size : Size α
  form : Form
  /-- The container that encloses the node. -/
  cycle : Option String
  ports : List Port
  /-- Stored fields that the editor does not know. -/
  extra : Fields

/-- An edge from a right port of one node to a left port of another. -/
structure Edge where
  id : String
  source : String
  sourcePort : String
  target : String
  targetPort : String
  /-- Stored fields that the editor does not know. -/
  extra : Fields

namespace Node

variable {α : Type}

/-- The rectangle a node covers. -/
def rect (node : Node α) : Rect α := .ofCorner node.position node.size

/-- The ports on one side, in order. -/
def portsOn (node : Node α) (side : Side) : List Port :=
  node.ports.filter fun port => port.side = side

/-- The ids of the ports on one side, in order. -/
def portIds (node : Node α) (side : Side) : List String := (node.portsOn side).map Port.id

/-- Whether a node has a port on a side. -/
def hasPort (node : Node α) (side : Side) (id : String) : Bool :=
  (node.portIds side).contains id

/-- Where a port stands among those on the right. -/
def rightPortIndex? (node : Node α) (id : String) : Option Nat :=
  (node.portIds .right).idxOf? id

end Node

/-- Whether an edge begins or ends at a node. -/
def Edge.touches (edge : Edge) (id : String) : Bool := edge.source == id || edge.target == id

/-! ## §2. Events. -/

/-- A change that was applied. -/
inductive Event (α : Type) where
  | nodeAdded (id : String)
  | nodeRemoved (id : String)
  | nodeMoved (id : String) (position : Position α)
  | nodeResized (id : String) (size : Size α)
  | edgeAdded (id : String)
  | edgeRemoved (id : String)
  | portsChanged (id : String)
  | dataChanged (id : String)
  | variablesChanged

/-! ## §3. Graphs. -/

/-- A workflow as it is edited. -/
structure Graph (α : Type) where
  nodes : List (Node α)
  edges : List Edge
  vars : List ConversationVariable
  info : DocumentInfo
  settings : Settings α
  /-- How many changes were applied. -/
  revision : Nat
  /-- The number of the edge id that was made last. -/
  edgeCounter : Nat
  /-- The number of the next listener. -/
  nextListener : Nat
  /-- The listeners, in the order they subscribed. -/
  listeners : List Nat

namespace Graph

variable {α : Type}

/-- The graph without nodes. -/
def empty (settings : Settings α) : Graph α where
  nodes := []
  edges := []
  vars := []
  info := .blank
  settings := settings
  revision := 0
  edgeCounter := 0
  nextListener := 0
  listeners := []

/-- The node with an id. -/
def node? (g : Graph α) (id : String) : Option (Node α) :=
  g.nodes.find? fun node => node.id == id

/-- The edge with an id. -/
def edge? (g : Graph α) (id : String) : Option Edge :=
  g.edges.find? fun edge => edge.id == id

/-- The edges that leave a node, in order. -/
def outgoing (g : Graph α) (id : String) : List Edge :=
  g.edges.filter fun edge => edge.source == id

/-- The edges that enter a node, in order. -/
def incoming (g : Graph α) (id : String) : List Edge :=
  g.edges.filter fun edge => edge.target == id

/-- The nodes that a container encloses, in order. -/
def children (g : Graph α) (id : String) : List (Node α) :=
  g.nodes.filter fun node => node.cycle == some id

/-- The container that encloses a node, if there is one. -/
def containerOf? (g : Graph α) (node : Node α) : Option (Node α) :=
  node.cycle.bind g.node?

/-- One line on a graph. -/
def summary (g : Graph α) : String :=
  "WorkflowGraph \x7b nodes: " ++ toString g.nodes.length
    ++ ", edges: " ++ toString g.edges.length
    ++ ", revision: " ++ toString g.revision
    ++ ", listeners: " ++ toString g.listeners.length ++ " \x7d"

/-! ## §4. Listeners. -/

/-- Adds a listener and answers its number. -/
def subscribe (g : Graph α) : Graph α × Nat :=
  ({ g with
      nextListener := g.nextListener + 1
      listeners := g.listeners ++ [g.nextListener] },
    g.nextListener)

/-- Drops a listener and answers whether there was one with that number. -/
def unsubscribe (g : Graph α) (listener : Nat) : Graph α × Bool :=
  let left := g.listeners.filter fun other => other != listener
  ({ g with listeners := left }, left.length != g.listeners.length)

/-- Who is told of events, in order: each event goes to every listener
before the next event does. -/
def deliveries (g : Graph α) (events : List (Event α)) : List (Nat × Event α) :=
  events.flatMap fun event => g.listeners.map fun listener => (listener, event)

/-! ## §5. Document properties. -/

/-- Replaces what concerns the document as a whole; no event tells of
it. -/
def setInfo (g : Graph α) (info : DocumentInfo) : Graph α := { g with info := info }

end Graph

end WorkflowEditor
