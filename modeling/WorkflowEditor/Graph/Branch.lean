/-
  WorkflowEditor.Graph.Branch
  ───────────────────────────
  **BRANCHES AND THE EDGES THAT LEAVE BY THEM.**

  When the branches of a node change, its right ports are made anew and
  the edges follow them.  A remap says where the port at a position has
  gone:

      removed i   — `i` is gone, later ones move down
      inserted i  — `i` and later ones move up
      resized     — the count has changed, nobody knows where; an `ELSE`
                    at the end stays at the end

  Making ports anew takes every edge of the node away, replaces the ports
  and puts the edges back; those whose port is gone stay away.

  No Mathlib.
-/
import WorkflowEditor.Graph.Draft

namespace WorkflowEditor

/-- Where right ports go when the branches of a node change. -/
inductive PortRemap where
  | removed (index : Nat)
  | inserted (index : Nat)
  | resized (old new : Nat) (trailingElse : Bool)
  deriving Repr, DecidableEq

/-- Where the port at a position goes, if it stays. -/
def PortRemap.apply : PortRemap → Nat → Option Nat
  | .removed gone, index =>
      if index < gone then some index
      else if index = gone then none
      else some (index - 1)
  | .inserted new, index => some (if new ≤ index then index + 1 else index)
  | .resized old new trailingElse, index =>
      if trailingElse ∧ 0 < new ∧ index + 1 = old then some (new - 1)
      else
        -- No other branch takes the place of the last one.
        let limit := if trailingElse then new - 1 else new
        if index < limit then some index else none

/-- An edge as it is put back to the node with an id whose right ports were
made anew; nothing if its port is gone. -/
def Edge.reattached? (id : String) (old new : List String) (remap : PortRemap)
    (edge : Edge) : Option Edge :=
  if edge.source = id then do
    let index ← old.idxOf? edge.sourcePort
    let index ← remap.apply index
    let port ← new[index]?
    return { edge with sourcePort := port }
  else some edge

namespace Draft

variable {α : Type}

/-- Puts edges back one after the other. -/
def putBack (d : Draft α) (edges : List Edge) : Draft α :=
  edges.foldl (fun d edge => (d.addEdge edge).emit (.edgeAdded edge.id)) d

/-- Makes the right ports of a node anew and lets its edges follow. -/
def refreshPorts (d : Draft α) (id : String) (remap : PortRemap) : Draft α :=
  match d.graph.node? id with
  | none => d
  | some node =>
      -- Edges are put back by the position of their port among the old ones.
      let old := node.portIds .right
      let right := (BranchLayout.of node.kind node.form).ports
      let ports := node.portsOn .left ++ right
      let touching (edge : Edge) : Bool := edge.touches id
      let detached := d.graph.edges.filter touching
      let d := (d.dropEdges touching).emitAll (detached.map fun edge => .edgeRemoved edge.id)
      let d := (d.reviseNode id fun node => { node with ports := ports }).emit (.portsChanged id)
      d.putBack (detached.filterMap (Edge.reattached? id old (right.map Port.id) remap))

/-- Makes the right ports of a node anew when nobody knows where its
branches have changed. -/
def resyncPorts (d : Draft α) (id : String) : Draft α :=
  match d.graph.node? id with
  | none => d
  | some node =>
      let layout := BranchLayout.of node.kind node.form
      d.refreshPorts id
        (.resized (node.portIds .right).length layout.ports.length layout.trailingElse)

end Draft

end WorkflowEditor
