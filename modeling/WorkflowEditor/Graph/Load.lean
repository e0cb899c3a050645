/-
  WorkflowEditor.Graph.Load
  ─────────────────────────
  **FROM A DOCUMENT TO A GRAPH.**

  Loading mends what it can and refuses only repeated node ids:

      nodes       — forms are decoded and ports made from them; a
                    container that is none is dropped from the node
      edges       — those that could not be made by hand are left out, and
                    a branch that does not exist becomes the first one
      containers  — sizes are not stored: each container is fitted, its
                    children are moved inside, and it is fitted again

  No Mathlib.
-/
import WorkflowEditor.Graph.Connection
import WorkflowEditor.Node.Codec
import WorkflowEditor.Node.Template

namespace WorkflowEditor

/-- Why a document cannot be loaded. -/
inductive LoadError where
  | duplicateNode (id : String)
  deriving Repr, DecidableEq

/-- The error as a sentence. -/
def LoadError.message : LoadError → String
  | .duplicateNode id => "Node id '" ++ id ++ "' appears more than once"

variable {α : Type} [Coordinate α]

/-! ## §1. Nodes. -/

/-- A stored node as a node of the canvas. -/
def StoredNode.toNode (settings : Settings α) (stored : StoredNode α) : Node α :=
  let form := stored.kind.decodeConfig stored.config
  { id := stored.id
    kind := stored.kind
    name := stored.name.getD stored.kind.defaultName
    position := stored.position.getD .origin
    size := settings.sizeOf stored.kind
    form := form
    cycle := stored.cycle
    ports := portsOf stored.kind form
    extra := stored.extra }

/-- Adds stored nodes one after the other. -/
def addStored (settings : Settings α) :
    List (Node α) → List (StoredNode α) → Except LoadError (List (Node α))
  | nodes, [] => .ok nodes
  | nodes, stored :: rest =>
      if nodes.any fun node => node.id == stored.id then .error (.duplicateNode stored.id)
      else addStored settings (nodes ++ [stored.toNode settings]) rest

/-- Whether an id is that of a container that no other one encloses. -/
def isTopContainer {α : Type} (nodes : List (Node α)) (id : String) : Bool :=
  match nodes.find? fun node => node.id == id with
  | some node => node.kind.isContainer && node.cycle.isNone
  | none => false

/-- Drops the container of a node if it cannot be that. -/
def Node.detach {α : Type} (nodes : List (Node α)) (node : Node α) : Node α :=
  match node.cycle with
  | some parent =>
      if node.kind.isContainer || !isTopContainer nodes parent then { node with cycle := none }
      else node
  | none => node

/-- Drops the containers of nodes that cannot be theirs. -/
def detachNodes {α : Type} (nodes : List (Node α)) : List (Node α) :=
  nodes.map (Node.detach nodes)

/-! ## §2. Edges. -/

/-- The right port that a stored edge leaves by: that of its branch, or
else the first one. -/
def Node.exitFor? {α : Type} (node : Node α) (label : Option String) : Option String :=
  let exits := node.portIds .right
  (label.bind fun label => exits.find? fun id => id == label) <|> exits.head?

/-- A stored edge as an edge of the canvas, if it can be made. -/
def Graph.ofStoredEdge? {α : Type} (g : Graph α) (stored : StoredEdge) : Option Edge := do
  let source ← g.node? stored.source
  let target ← g.node? stored.target
  (checkEnds source target).toOption
  let sourcePort ← source.exitFor? stored.label
  let targetPort ← (target.portIds .left).head?
  let known := g.edges.any fun edge =>
    edge.source == stored.source && edge.sourcePort == sourcePort
      && edge.target == stored.target
  if known then none
  else
    -- An id of its own is kept if it is free; the other one may be taken.
    let own := ((stored.extra.lookup "id").bind Json.str?).filter fun id =>
      (g.edge? id).isNone
    let id := own.getD (stored.source ++ "-" ++ sourcePort ++ "-" ++ stored.target)
    return ⟨id, stored.source, sourcePort, stored.target, targetPort, stored.extra⟩

/-- Adds a stored edge, if it can be made. -/
def Graph.addStoredEdge {α : Type} (g : Graph α) (stored : StoredEdge) : Graph α :=
  match g.ofStoredEdge? stored with
  | some edge => { g with edges := g.edges ++ [edge] }
  | none => g

/-! ## §3. Containers. -/

/-- Moves a child to where it may stand in its container. -/
def Draft.settleChild (d : Draft α) (id : String) : Draft α :=
  match d.graph.node? id with
  | some child =>
      let landed := d.graph.landing child child.position
      d.reviseNode id fun node => { node with position := landed }
  | none => d

/-- Fits a container, moves its children inside and fits it again. -/
def Draft.settleContainer (d : Draft α) (id : String) : Draft α :=
  let children := (d.graph.children id).map Node.id
  (children.foldl Draft.settleChild (d.fitContainer id)).fitContainer id

/-! ## §4. Loading. -/

/-- The graph of a document. -/
def Document.toGraph (doc : Document α) (settings : Settings α) :
    Except LoadError (Graph α) := do
  let nodes ← addStored settings [] doc.nodes
  let start := (Graph.empty settings).setInfo doc.info
  let d := (start.draft.revise fun g => { g with vars := doc.vars }).emit
    .variablesChanged
  let g := { d.graph with nodes := detachNodes nodes }
  let g := doc.edges.foldl Graph.addStoredEdge g
  -- Containers are settled last, when they have got their children.
  let containers := (g.nodes.filter fun node => node.kind.isContainer).map Node.id
  return (containers.foldl Draft.settleContainer g.draft).graph

end WorkflowEditor
