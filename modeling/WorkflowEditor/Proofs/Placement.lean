/-
  WorkflowEditor.Proofs.Placement
  ───────────────────────────────
  **PLACING NODES CHANGES NOTHING BUT THEIR PLACE.**

  Moving, resizing and fitting write positions and sizes only, whatever
  becomes of the coordinates on the way.  So they keep the graph as it is
  when positions and sizes are left out:

    • `Draft.unplaced_fitContainer`, `Draft.unplaced_place` — one step,
    • `Draft.fitContainer_nodes` — what fitting writes,
    • `Draft.unplaced_foldl` — steps one after the other,
    • `Draft.unplaced_settleContainer` — and what loading does to a
      container.
-/
import WorkflowEditor.Graph.Edit
import WorkflowEditor.Graph.Load
import WorkflowEditor.Proofs.WellFormed

namespace WorkflowEditor

variable {α : Type} [Coordinate α]

/-- The size of a node that was fitted: the one that it needs, unless the
canvas does not tell that from the one that it has. -/
def Size.fitted (size needed : Size α) : Size α := if size.same needed then size else needed

namespace Draft

/-- What a change of a node keeps of each node it keeps of the list. -/
theorem map_reviseNode {α β : Type} (d : Draft α) (id : String) {f : Node α → Node α}
    {view : Node α → β} (hf : ∀ node, view (f node) = view node) :
    (d.reviseNode id f).graph.nodes.map view = d.graph.nodes.map view :=
  Graph.map_map_ite (fun node _ => hf node) d.graph.nodes

theorem unplaced_reviseNode {α : Type} (d : Draft α) (id : String) {f : Node α → Node α}
    (hf : ∀ node, (f node).unplaced = node.unplaced) :
    (d.reviseNode id f).graph.unplaced = d.graph.unplaced :=
  Prod.ext (d.map_reviseNode id hf) rfl

/-- A node that has been changed and announced is still there, if that keeps
its id. -/
theorem node?_reviseNode {α : Type} {d : Draft α} {id : String} {node : Node α}
    (hnode : d.graph.node? id = some node) (f : Node α → Node α)
    (hid : ∀ other, (f other).id = other.id) (event : Event α) :
    ((d.reviseNode id f).emit event).graph.node? id = some (f node) := by
  have hsame : ((fun other : Node α => other.id == id) ∘ fun other =>
      if other.id = id then f other else other) = fun other => other.id == id := by
    funext other
    show ((if other.id = id then f other else other).id == id) = (other.id == id)
    split
    · rw [hid]
    · rfl
  have hmem : node.id = id := (Graph.mem_of_node? hnode).2
  unfold Graph.node? at hnode ⊢
  show List.find? _ (List.map _ d.graph.nodes) = _
  rw [List.find?_map, hsame, hnode, Option.map_some, if_pos hmem]

/-- **Steps that keep what is seen of a draft** keep it one after the other. -/
theorem view_foldl {α β γ : Type} (view : Draft α → γ) {step : Draft α → β → Draft α}
    (hstep : ∀ d b, view (step d b) = view d) (d : Draft α) (bs : List β) :
    view (bs.foldl step d) = view d := by
  induction bs generalizing d with
  | nil => rfl
  | cons b bs ih => exact (ih (step d b)).trans (hstep d b)

theorem unplaced_foldl {α β : Type} {step : Draft α → β → Draft α}
    (hstep : ∀ d b, (step d b).graph.unplaced = d.graph.unplaced) (d : Draft α) (bs : List β) :
    (bs.foldl step d).graph.unplaced = d.graph.unplaced :=
  view_foldl (fun d => d.graph.unplaced) hstep d bs

theorem unplaced_place {α : Type} (d : Draft α) (id : String) (position : Position α) :
    (d.place id position).graph.unplaced = d.graph.unplaced :=
  d.unplaced_reviseNode id fun _ => rfl

theorem unplaced_fitContainer (d : Draft α) (id : String) :
    (d.fitContainer id).graph.unplaced = d.graph.unplaced := by
  unfold fitContainer
  split
  · rfl
  · dsimp only
    split
    · rfl
    · exact d.unplaced_reviseNode id fun _ => rfl

/-- **Fitting a container gives it the size that it needs**, and changes no
other node. -/
theorem fitContainer_nodes {d : Draft α} (hids : (d.graph.nodes.map Node.id).Nodup)
    {container : Node α} (hcontainer : container ∈ d.graph.nodes) :
    (d.fitContainer container.id).graph.nodes
      = d.graph.nodes.map fun node =>
          if node.id = container.id then
            { node with size := container.size.fitted (d.graph.sizeToFit container) }
          else node := by
  unfold fitContainer Size.fitted
  rw [(Graph.node?_eq_some_iff hids).2 ⟨hcontainer, rfl⟩]
  dsimp only
  split
  · -- It has the size already, so nothing is written.
    refine (List.map_id _).symm.trans (List.map_congr_left fun node hnode => ?_)
    split
    · rename_i hid
      rw [Graph.eq_of_id_eq hids hnode hcontainer hid]
      rfl
    · rfl
  · rfl

/-- Fitting a container does not change its children. -/
theorem children_fitContainer {d : Draft α} (hids : (d.graph.nodes.map Node.id).Nodup)
    {container : Node α} (hcontainer : container ∈ d.graph.nodes)
    (htop : container.cycle = none) :
    (d.fitContainer container.id).graph.children container.id
      = d.graph.children container.id := by
  rw [Graph.children_map (fitContainer_nodes hids hcontainer)]
  · refine (List.map_congr_left fun child hchild => ?_).trans (List.map_id _)
    obtain ⟨hmem, hcycle⟩ := Graph.mem_children.1 hchild
    exact if_neg (Graph.id_ne_of_child hids hcontainer htop hmem hcycle)
  · intro node
    split <;> rfl

theorem unplaced_fitEnclosing (d : Draft α) (cycle : Option String) :
    (d.fitEnclosing cycle).graph.unplaced = d.graph.unplaced := by
  cases cycle with
  | none => rfl
  | some id => exact d.unplaced_fitContainer id

theorem unplaced_settleChild (d : Draft α) (id : String) :
    (d.settleChild id).graph.unplaced = d.graph.unplaced := by
  unfold settleChild
  split
  · exact d.unplaced_reviseNode id fun _ => rfl
  · rfl

/-- **Settling a container moves and resizes, and does nothing else.** -/
theorem unplaced_settleContainer (d : Draft α) (id : String) :
    (d.settleContainer id).graph.unplaced = d.graph.unplaced := by
  unfold settleContainer
  rw [unplaced_fitContainer, unplaced_foldl unplaced_settleChild, unplaced_fitContainer]

end Draft

end WorkflowEditor
