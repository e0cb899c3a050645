/-
  WorkflowEditor.Graph.Draft
  ──────────────────────────
  **A CHANGE IN THE MAKING.**

  A change is made in steps, some of which are announced.  A draft is the
  graph as changed so far, together with the events of the change in
  order.  Each announcement raises the revision by one, so the revision
  grows by exactly the number of events (`Draft.Stamped`).

  No Mathlib.
-/
import WorkflowEditor.Graph.Basic

namespace WorkflowEditor

/-- A graph as changed so far, and what was announced. -/
structure Draft (α : Type) where
  graph : Graph α
  events : List (Event α)

/-- A change that has not begun. -/
def Graph.draft {α : Type} (g : Graph α) : Draft α := ⟨g, []⟩

namespace Draft

variable {α : Type}

/-- Announces an event. -/
def emit (d : Draft α) (event : Event α) : Draft α where
  graph := { d.graph with revision := d.graph.revision + 1 }
  events := d.events ++ [event]

/-- Announces events one after the other. -/
def emitAll (d : Draft α) (events : List (Event α)) : Draft α := events.foldl emit d

/-- Changes the graph without announcing it. -/
def revise (d : Draft α) (f : Graph α → Graph α) : Draft α := { d with graph := f d.graph }

/-- Changes the node with an id. -/
def reviseNode (d : Draft α) (id : String) (f : Node α → Node α) : Draft α :=
  d.revise fun g =>
    { g with nodes := g.nodes.map fun node => if node.id = id then f node else node }

/-- Adds a node behind the others. -/
def addNode (d : Draft α) (node : Node α) : Draft α :=
  d.revise fun g => { g with nodes := g.nodes ++ [node] }

/-- Drops the node with an id. -/
def dropNode (d : Draft α) (id : String) : Draft α :=
  d.revise fun g => { g with nodes := g.nodes.filter fun node => node.id != id }

/-- Adds an edge behind the others. -/
def addEdge (d : Draft α) (edge : Edge) : Draft α :=
  d.revise fun g => { g with edges := g.edges ++ [edge] }

/-- Drops the edges that pass a test. -/
def dropEdges (d : Draft α) (test : Edge → Bool) : Draft α :=
  d.revise fun g => { g with edges := g.edges.filter fun edge => !test edge }

/-! ## §1. The revision counts the events. -/

/-- The revision has grown since `g` by the number of events. -/
def Stamped (g : Graph α) (d : Draft α) : Prop :=
  d.graph.revision = g.revision + d.events.length

theorem stamped_draft (g : Graph α) : Stamped g g.draft := rfl

/-- Telling an event and counting it go together. -/
theorem Stamped.emit {g : Graph α} {d : Draft α} (h : Stamped g d) (event : Event α) :
    Stamped g (d.emit event) := by
  simp only [Stamped, Draft.emit, List.length_append, List.length_singleton] at h ⊢
  omega

end Draft

end WorkflowEditor
