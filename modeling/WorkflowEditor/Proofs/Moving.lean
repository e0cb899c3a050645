/-
  WorkflowEditor.Proofs.Moving
  ────────────────────────────
  **A MOVE TAKES THE CHILDREN ALONG.**

  When a container is moved, its children are moved one after the other, each
  as far as the container went.  All of it together is one change of
  positions:

    • `foldl_placedFrom_of_mem` — a node is moved once, as its ids tell them
      apart,
    • `nodes_moved` — the moved node has landed, its children have gone as
      far, and no other node has moved.
-/
import WorkflowEditor.Proofs.Editing
import WorkflowEditor.Proofs.Settling

namespace WorkflowEditor

variable {α : Type} [Coordinate α]

namespace Node

/-- A node as it is when a node has been put where it is to go. -/
def placedFrom (target : Node α → Position α) (node child : Node α) : Node α :=
  if node.id = child.id then { node with position := target child } else node

/-- A node moved by `dx` and `dy`. -/
def shifted (dx dy : α) (node : Node α) : Node α :=
  { node with position := node.position.offset dx dy }

/-- A node as it is when another node has been moved to a point. -/
def carried (moved : Node α) (landed : Position α) (node : Node α) : Node α :=
  if node.id = moved.id then { node with position := landed }
  else if node.cycle = some moved.id then
    node.shifted (landed.x - moved.position.x) (landed.y - moved.position.y)
  else node

variable {target : Node α → Position α} {node child : Node α} {followers : List (Node α)}

theorem carried_self (moved : Node α) (landed : Position α) :
    moved.carried landed moved = { moved with position := landed } := if_pos rfl

theorem alike_carried (moved : Node α) (landed : Position α) (node : Node α) :
    (moved.carried landed node).Alike node := by
  unfold carried
  split
  · exact ⟨rfl, rfl, rfl, rfl⟩
  · split <;> exact ⟨rfl, rfl, rfl, rfl⟩

omit [Coordinate α] in
theorem placedFrom_of_ne (h : node.id ≠ child.id) : node.placedFrom target child = node := if_neg h

omit [Coordinate α] in
theorem foldl_placedFrom_of_not_mem (h : node.id ∉ followers.map Node.id) :
    followers.foldl (placedFrom target) node = node := by
  induction followers with
  | nil => rfl
  | cons child followers ih =>
      rw [List.map_cons, List.mem_cons, not_or] at h
      rw [List.foldl_cons, placedFrom_of_ne h.1]
      exact ih h.2

omit [Coordinate α] in
/-- **A node is moved once.** -/
theorem foldl_placedFrom_of_mem (hnodup : (followers.map Node.id).Nodup)
    (hnode : node ∈ followers) :
    followers.foldl (placedFrom target) node = { node with position := target node } := by
  induction followers with
  | nil => cases hnode
  | cons child followers ih =>
      obtain ⟨hfirst, hrest⟩ := List.nodup_cons.1 hnodup
      rw [List.foldl_cons]
      rcases List.mem_cons.1 hnode with rfl | hnode
      · have hplaced : node.placedFrom target node = { node with position := target node } :=
          if_pos rfl
        rw [hplaced]
        exact foldl_placedFrom_of_not_mem hfirst
      · have hne : node.id ≠ child.id := fun heq => hfirst (heq ▸ List.mem_map_of_mem hnode)
        rw [placedFrom_of_ne hne]
        exact ih hrest hnode

end Node

omit [Coordinate α] in
/-- Nodes that are placed one after the other. -/
theorem Draft.nodes_foldl_place (target : Node α → Position α) (d : Draft α)
    (followers : List (Node α)) :
    (followers.foldl (fun d child => d.place child.id (target child)) d).graph.nodes
      = d.graph.nodes.map (followers.foldl (Node.placedFrom target)) := by
  induction followers generalizing d with
  | nil => exact (List.map_id _).symm
  | cons child followers ih =>
      rw [List.foldl_cons, ih]
      show (d.graph.nodes.map fun node => node.placedFrom target child).map _ = _
      rw [List.map_map]
      rfl

namespace Graph

omit [Coordinate α] in
/-- Moving a container does not change what it encloses. -/
theorem children_place {g : Graph α} (h : g.WellFormed) {moved : Node α}
    (hmoved : moved ∈ g.nodes) (landed : Position α) :
    (g.draft.place moved.id landed).graph.children moved.id = g.children moved.id := by
  let place (node : Node α) : Node α :=
    if node.id = moved.id then { node with position := landed } else node
  have hkept : (g.draft.place moved.id landed).graph.children moved.id
      = (g.children moved.id).map place := by
    refine children_map rfl (fun node => ?_) moved.id
    show (if node.id = moved.id then { node with position := landed } else node).cycle = _
    split <;> rfl
  rw [hkept]
  refine (List.map_congr_left fun child hchild => ?_).trans (List.map_id _)
  obtain ⟨hmem, hinside⟩ := mem_children.1 hchild
  refine if_neg fun hid => ?_
  rw [h.eq_of_id hmem hmoved hid] at hinside
  exact h.cycle_ne_id hmoved hinside

variable {g : Graph α} {moved container child : Node α}

/-- A child goes as far as its container. -/
theorem carried_of_child (h : g.WellFormed) (hmoved : moved ∈ g.nodes)
    (hchild : child ∈ g.children moved.id) (landed : Position α) :
    moved.carried landed child
      = child.shifted (landed.x - moved.position.x) (landed.y - moved.position.y) := by
  obtain ⟨hmem, hcycle⟩ := mem_children.1 hchild
  refine (if_neg fun hid => ?_).trans (if_pos hcycle)
  rw [h.eq_of_id hmem hmoved hid] at hcycle
  exact h.cycle_ne_id hmoved hcycle

/-- A node outside all containers stays where another one is moved. -/
theorem carried_of_top (htop : container.cycle = none) (hne : container.id ≠ moved.id)
    (landed : Position α) : moved.carried landed container = container := by
  refine (if_neg hne).trans (if_neg ?_)
  rw [htop]
  exact nofun

/-- A child stays where another one is moved. -/
theorem carried_of_sibling (hchild : child ∈ g.children container.id)
    (hcontainer : container.id ≠ moved.id) (hne : child.id ≠ moved.id) (landed : Position α) :
    moved.carried landed child = child := by
  refine (if_neg hne).trans (if_neg fun hcycle => hcontainer ?_)
  exact Option.some.inj ((mem_children.1 hchild).2.symm.trans hcycle)

/-- **A move**: the node has landed, its children have gone as far, and no
other node has moved. -/
theorem nodes_moved (h : g.WellFormed) (hmoved : moved ∈ g.nodes)
    (landed : Position α) {followers : List (Node α)}
    (hfollowers : followers = if moved.kind.isContainer
      then (g.draft.place moved.id landed).graph.children moved.id else []) :
    (followers.foldl (fun d child => d.place child.id (child.position.offset
        (landed.x - moved.position.x) (landed.y - moved.position.y)))
      (g.draft.place moved.id landed)).graph.nodes = g.nodes.map (moved.carried landed) := by
  have hchildren : followers = g.children moved.id := by
    rw [hfollowers, children_place h hmoved]
    split
    · rfl
    · rename_i hkind
      exact (h.children_eq_nil hmoved hkind).symm
  have hnodup : ((g.children moved.id).map Node.id).Nodup :=
    h.nodup_ids.sublist (List.filter_sublist.map Node.id)
  subst hchildren
  rw [Draft.nodes_foldl_place fun child => child.position.offset
    (landed.x - moved.position.x) (landed.y - moved.position.y)]
  show (g.nodes.map fun node => if node.id = moved.id then { node with position := landed }
    else node).map _ = _
  rw [List.map_map]
  refine List.map_congr_left fun node hnode => ?_
  have hfollows : node.id ∈ (g.children moved.id).map Node.id ↔ node.cycle = some moved.id :=
    id_mem_children h.nodup_ids hnode
  -- A node is the one that is moved, or one of its children, or neither.
  unfold Node.carried
  dsimp only [Function.comp_apply]
  by_cases hid : node.id = moved.id
  · obtain rfl := h.eq_of_id hnode hmoved hid
    rw [if_pos rfl, if_pos rfl]
    exact Node.foldl_placedFrom_of_not_mem (hfollows.not.2 (h.cycle_ne_id hnode))
  · rw [if_neg hid, if_neg hid]
    by_cases hcycle : node.cycle = some moved.id
    · rw [if_pos hcycle]
      exact Node.foldl_placedFrom_of_mem hnodup (mem_children.2 ⟨hnode, hcycle⟩)
    · rw [if_neg hcycle]
      exact Node.foldl_placedFrom_of_not_mem (hfollows.not.2 hcycle)

end Graph

end WorkflowEditor
