/-
  WorkflowEditor.Graph.Containment
  ────────────────────────────────
  **CONTAINERS AND WHAT THEY ENCLOSE.**

  A container is as large as its children need and no smaller than the
  least size; a child stands inside the body of its container.

  No Mathlib.
-/
import WorkflowEditor.Graph.Draft
import WorkflowEditor.Graph.Error

namespace WorkflowEditor

variable {α : Type} [Coordinate α]

namespace Graph

/-- The node with an id, or the error that there is none. -/
def require {α : Type} (g : Graph α) (id : String) : Except GraphError (Node α) :=
  match g.node? id with
  | some node => .ok node
  | none => .error (.nodeNotFound id)

/-- The top-most container that covers a point and is not enclosed
itself. -/
def containerAt? (g : Graph α) (point : Position α) : Option (Node α) :=
  g.nodes.reverse.find? fun node =>
    node.kind.isContainer && node.cycle.isNone && node.rect.containsPoint point

/-- The size that a node needs to enclose its children. -/
def sizeToFit (g : Graph α) (container : Node α) : Size α :=
  g.settings.fit container.position ((g.children container.id).map Node.rect)

/-- The smallest size that the node with an id may take. -/
def fittedSize (g : Graph α) (id : String) : Except GraphError (Size α) :=
  g.sizeToFit <$> g.require id

/-- Where a node lands when it is put at a point: inside its container if
it has one. -/
def landing (g : Graph α) (node : Node α) (candidate : Position α) : Position α :=
  match g.containerOf? node with
  | some container => g.settings.clamp candidate node.size container.rect
  | none => candidate

end Graph

namespace Draft

/-- Gives a container exactly the size that it needs, and announces that if
it is a change. -/
def fitContainer (d : Draft α) (id : String) : Draft α :=
  match d.graph.node? id with
  | none => d
  | some container =>
      let size := d.graph.sizeToFit container
      if container.size.same size then d
      else
        (d.reviseNode id fun node => { node with size := size }).emit (.nodeResized id size)

/-- Fits the container of a node, if it names one. -/
def fitEnclosing (d : Draft α) (cycle : Option String) : Draft α :=
  match cycle with
  | some id => d.fitContainer id
  | none => d

end Draft

end WorkflowEditor
