/-
  WorkflowEditor.Graph.Save
  ─────────────────────────
  **FROM A GRAPH TO A DOCUMENT.**

  Placeholders and the edges at them are not saved.  The edges of a
  branching node are saved under their branch; of edges that would be
  saved alike the first one is.

  No Mathlib.
-/
import WorkflowEditor.Graph.Basic
import WorkflowEditor.Node.Codec

namespace WorkflowEditor

variable {α : Type}

/-- A node as it is stored. -/
def Node.toStored (node : Node α) : StoredNode α where
  id := node.id
  kind := node.kind
  name := some node.name
  position := some node.position
  config := node.kind.encodeForm node.form
  cycle := node.cycle
  extra := node.extra

/-- Whether two stored edges have the same ends and the same branch. -/
def StoredEdge.sameRoute (a b : StoredEdge) : Bool :=
  a.source == b.source && a.target == b.target && a.label == b.label

namespace Graph

/-- The node with an id, unless it is a placeholder. -/
def savedNode? (g : Graph α) (id : String) : Option (Node α) :=
  (g.node? id).filter fun node => !node.kind.isPlaceholder

/-- An edge as it is stored, unless it is at a placeholder. -/
def storedEdge? (g : Graph α) (edge : Edge) : Option StoredEdge := do
  let source ← g.savedNode? edge.source
  let _ ← g.savedNode? edge.target
  return ⟨edge.source, edge.target, edgeLabel? source.kind edge.sourcePort, edge.extra⟩

/-- The stored edges whose route no earlier one has. -/
def distinctRoutes : List StoredEdge → List StoredEdge → List StoredEdge
  | _, [] => []
  | seen, edge :: rest =>
      if seen.any edge.sameRoute then distinctRoutes seen rest
      else edge :: distinctRoutes (edge :: seen) rest

/-- The document of a graph. -/
def toDocument (g : Graph α) : Document α where
  info := g.info
  nodes := (g.nodes.filter fun node => !node.kind.isPlaceholder).map Node.toStored
  edges := distinctRoutes [] (g.edges.filterMap g.storedEdge?)
  vars := g.vars

end Graph

end WorkflowEditor
