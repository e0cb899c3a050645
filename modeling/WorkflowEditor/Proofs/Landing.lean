/-
  WorkflowEditor.Proofs.Landing
  ─────────────────────────────
  **WHERE A MOVED NODE LANDS, AND WHAT ELSE CHANGES.**

  A child is clamped to its container as that was before the move, and the
  container is fitted afterwards, so it may get smaller.  Over exact
  coordinates the child stands inside anyway, as fitting leaves room for it:

    • `Graph.exists_moveNode` — a move up to the point where the container
      is fitted,
    • `Graph.carried_of_plain` — what is no container takes nothing along,
    • `Graph.moveNode_child` — a child lands inside the fitted container,
    • `Graph.moveNode_lands` — where a node lands, and all that changes.
-/
import WorkflowEditor.Proofs.Fitting

namespace WorkflowEditor

namespace Graph

variable {g : Graph Rat} {moved container : Node Rat}

/-! ## §1. A move. -/

/-- **A move** puts the node where it lands, with its children, and fits its
container. -/
theorem exists_moveNode (hwell : g.WellFormed) (hmoved : moved ∈ g.nodes)
    (candidate : Position Rat) :
    ∃ placed : Draft Rat,
      g.moveNode moved.id candidate
          = .ok (placed.fitEnclosing moved.cycle, g.landing moved candidate)
        ∧ placed.graph.nodes = g.nodes.map (moved.carried (g.landing moved candidate))
        ∧ placed.graph.unplaced = g.unplaced ∧ placed.graph.settings = g.settings := by
  have hrequire : g.require moved.id = .ok moved :=
    require_of_node? (hwell.node?_of_mem hmoved)
  unfold moveNode
  rw [hrequire]
  refine ⟨_, rfl, nodes_moved hwell hmoved _ rfl, ?_, ?_⟩
  · rw [Draft.unplaced_foldl fun d child => d.unplaced_place _ _, Draft.unplaced_place]
    rfl
  · refine settings_of_untouched ((Draft.untouched_foldl ?_ _ _).trans rfl)
    exact fun _ _ => rfl

/-- What is no container takes nothing along. -/
theorem carried_of_plain (hwell : g.WellFormed) (hmoved : moved ∈ g.nodes)
    (hplain : ¬ moved.kind.isContainer) {node : Node Rat} (hnode : node ∈ g.nodes)
    (landed : Position Rat) :
    moved.carried landed node
      = if node.id = moved.id then { node with position := landed } else node := by
  have hother : node.cycle ≠ some moved.id := by
    intro hcycle
    have hchild : node ∈ g.children moved.id := mem_children.2 ⟨hnode, hcycle⟩
    rw [hwell.children_eq_nil hmoved hplain] at hchild
    cases hchild
  unfold Node.carried
  rw [if_neg hother]

/-- A node goes as far as the one that it is carried by, so it stands to that as
before. -/
theorem carried_of_inside {node : Node Rat} (hid : node.id ≠ moved.id)
    (hcycle : node.cycle = some moved.id) (landed : Position Rat) :
    moved.carried landed node
      = { node with position :=
          ⟨landed.x + (node.position.x - moved.position.x),
            landed.y + (node.position.y - moved.position.y)⟩ } := by
  have hoffset : node.position.offset (landed.x - moved.position.x)
      (landed.y - moved.position.y)
        = ⟨landed.x + (node.position.x - moved.position.x),
          landed.y + (node.position.y - moved.position.y)⟩ :=
    congrArg₂ Position.mk (add_sub_left_comm _ _ _) (add_sub_left_comm _ _ _)
  rw [← hoffset]
  exact (if_neg hid).trans (if_pos hcycle)

/-! ## §2. A child. -/

section Child

variable {placed : Draft Rat} {candidate : Position Rat}
  (hwell : g.WellFormed) (hmoved : moved ∈ g.nodes) (hcontainer : container ∈ g.nodes)
  (hcycle : moved.cycle = some container.id) (hencloses : container.Encloses)
  (hplaced : placed.graph.nodes = g.nodes.map (moved.carried (g.landing moved candidate)))
include hwell hmoved hcontainer hcycle hencloses hplaced

/-- The container has not moved. -/
theorem mem_of_child_moved : container ∈ placed.graph.nodes := by
  have hne := id_ne_of_child hwell.nodup_ids hcontainer hencloses.top hmoved hcycle
  rw [hplaced]
  exact List.mem_map.2 ⟨container, hcontainer, carried_of_top hencloses.top hne.symm _⟩

variable (hunplaced : placed.graph.unplaced = g.unplaced)
include hunplaced

/-- **A child has been moved and its container fitted**: no other node has
changed. -/
theorem nodes_fitContainer_moved :
    (placed.fitContainer container.id).graph.nodes
      = g.nodes.map fun node =>
          if node.id = moved.id then { node with position := g.landing moved candidate }
          else if node.id = container.id then
            { node with size := placed.graph.sizeToFit container }
          else node := by
  have hids := nodup_ids_of_unplaced hunplaced hwell.nodup_ids
  have hne := id_ne_of_child hwell.nodup_ids hcontainer hencloses.top hmoved hcycle
  -- A container is in none, so what is in one takes nothing along.
  have hplain : ¬ moved.kind.isContainer := fun hcontains => by
    rw [hwell.containers moved hmoved hcontains] at hcycle
    cases hcycle
  have hstays := mem_of_child_moved hwell hmoved hcontainer hcycle hencloses hplaced
  rw [Draft.nodes_fitContainer hids hstays, hplaced, List.map_map]
  refine List.map_congr_left fun node hnode => ?_
  rw [Function.comp_apply, carried_of_plain hwell hmoved hplain hnode]
  by_cases hid : node.id = moved.id
  · rw [if_pos hid, if_pos hid]
    exact if_neg (hid ▸ hne)
  · rw [if_neg hid, if_neg hid]

/-- **A child stands inside its container** as that is when it was fitted. -/
theorem admits_fitContainer_moved (hsettings : placed.graph.settings = g.settings) :
    let fitted : Node Rat := { container with size := placed.graph.sizeToFit container }
    fitted.FittedTo g.settings ((placed.fitContainer container.id).graph.children container.id)
      ∧ g.settings.Admits fitted.rect moved.size (g.landing moved candidate) := by
  have hids := nodup_ids_of_unplaced hunplaced hwell.nodup_ids
  have hstays := mem_of_child_moved hwell hmoved hcontainer hcycle hencloses hplaced
  have hchild : { moved with position := g.landing moved candidate }
      ∈ (placed.fitContainer container.id).graph.children container.id := by
    rw [Draft.children_fitContainer hids hstays hencloses.top]
    refine mem_children.2 ⟨?_, hcycle⟩
    rw [hplaced]
    exact List.mem_map.2 ⟨moved, hmoved, moved.carried_self _⟩
  have hfitted := Draft.fittedTo_fitContainer hids hstays hencloses.top
  rw [hsettings] at hfitted
  -- It was clamped to the container as that was before, which has the same near sides.
  have hclears : container.Clears g.settings
      { moved with position := g.landing moved candidate } :=
    g.settings.clears_clamp candidate moved.size (landing_of_child hwell hcontainer hcycle _)
  exact ⟨hfitted, hfitted.admits hchild hclears⟩

end Child

/-! ## §3. Where a node lands. -/

/-- **A move of a child**: it lands inside its container as that is afterwards,
and at the point that was asked for if it could stand there before.  The
container has got the size that its children need, and no other node has
changed.

**A move of a node outside all containers**: it lands at the point that was
asked for, its children stand to it as before, and no other node has
changed. -/
theorem moveNode_lands (h : g.Reachable) (hmoved : moved ∈ g.nodes) (candidate : Position Rat) :
    ∃ d landed, g.moveNode moved.id candidate = .ok (d, landed) ∧ d.graph.edges = g.edges
      ∧ (∀ container ∈ g.nodes, moved.cycle = some container.id →
        container.id ≠ moved.id
          ∧ ∃ size, let fitted : Node Rat := { container with size := size }
          d.graph.nodes = g.nodes.map (fun node =>
              if node.id = moved.id then { node with position := landed }
              else if node.id = container.id then { node with size := size } else node)
            ∧ fitted.FittedTo g.settings (d.graph.children container.id)
            ∧ g.settings.Admits fitted.rect moved.size landed
            ∧ (g.settings.Admits container.rect moved.size candidate → landed = candidate))
      ∧ (moved.cycle = none → landed = candidate
        ∧ d.graph.nodes = g.nodes.map fun node =>
            if node.id = moved.id then { node with position := candidate }
            else if node.cycle = some moved.id then
              { node with position :=
                ⟨candidate.x + (node.position.x - moved.position.x),
                  candidate.y + (node.position.y - moved.position.y)⟩ }
            else node) := by
  have hwell := h.wellFormed
  obtain ⟨placed, hok, hplaced, hunplaced, hsettings⟩ :=
    exists_moveNode hwell hmoved candidate
  refine ⟨_, _, hok, ?_, fun container hcontainer hcycle => ?_, fun htop => ?_⟩
  · exact (Prod.mk.inj ((placed.unplaced_fitEnclosing moved.cycle).trans hunplaced)).2
  · -- A container is in no other one, so the child moves alone, and its container is fitted.
    obtain ⟨parent, hparent, hid, hencloses⟩ := hwell.cycles moved hmoved container.id hcycle
    obtain rfl := hwell.eq_of_id hparent hcontainer hid
    obtain ⟨hfitted, hadmits⟩ := admits_fitContainer_moved hwell hmoved hcontainer hcycle
      hencloses hplaced hunplaced hsettings
    rw [hcycle]
    refine ⟨(id_ne_of_child hwell.nodup_ids hcontainer hencloses.top hmoved hcycle).symm,
      _, nodes_fitContainer_moved hwell hmoved hcontainer hcycle hencloses hplaced
      hunplaced, hfitted, hadmits, fun hinside => ?_⟩
    exact (landing_of_child hwell hcontainer hcycle candidate).trans hinside.clamp_eq
  · -- Nothing clamps what is in no container, and nothing is fitted afterwards.
    have hlanded : g.landing moved candidate = candidate := by
      unfold landing containerOf?
      rw [htop]
      rfl
    rw [htop]
    refine ⟨hlanded, hplaced.trans (List.map_congr_left fun node _ => ?_)⟩
    rw [hlanded]
    by_cases hid : node.id = moved.id
    · rw [if_pos hid]
      exact if_pos hid
    · rw [if_neg hid]
      split
      · rename_i hcycle
        exact carried_of_inside hid hcycle candidate
      · rename_i hcycle
        exact (if_neg hid).trans (if_neg hcycle)

/-- A loop that was made larger than its children need: the child lands where
it is put, and the loop gets smaller. -/
theorem moveNode_lands_shrunk :
    let g : Graph Rat := (empty .standard).run [.addNode .loop ⟨0, 0⟩, .addNode .llm ⟨300, 100⟩,
      .resizeNode "loop_1" ⟨1000, 600⟩]
    ∃ d, g.moveNode "llm_1" ⟨400, 100⟩ = .ok (d, ⟨400, 100⟩)
      ∧ d.graph.nodes.map Node.rect
        = [⟨0, 0, 664, 300⟩, ⟨24, 72, 240, 80⟩, ⟨400, 100, 240, 80⟩] := by
  intro g
  obtain ⟨moved, hmoved, hid, container, hcontainer, hcycle, hrect, hsize⟩ :
      ∃ moved ∈ g.nodes, moved.id = "llm_1" ∧ ∃ container ∈ g.nodes,
        moved.cycle = some container.id ∧ container.rect = ⟨0, 0, 1000, 600⟩
          ∧ moved.size = ⟨240, 80⟩ := by
    decide +kernel
  have hreachable : g.Reachable := ⟨_, _, .empty .standard, rfl⟩
  obtain ⟨d, landed, hok, -, hchild, -⟩ := moveNode_lands hreachable hmoved ⟨400, 100⟩
  obtain ⟨-, -, -, -, -, hexact⟩ := hchild container hcontainer hcycle
  have hadmits : g.settings.Admits container.rect moved.size ⟨400, 100⟩ := by
    rw [hrect, hsize]
    constructor <;> decide +kernel
  obtain rfl := hexact hadmits
  rw [hid] at hok
  have hrects : (match g.moveNode "llm_1" ⟨400, 100⟩ with
      | .ok (d, _) => d.graph.nodes.map Node.rect
      | .error _ => []) = [⟨0, 0, 664, 300⟩, ⟨24, 72, 240, 80⟩, ⟨400, 100, 240, 80⟩] := by
    decide +kernel
  rw [hok] at hrects
  exact ⟨d, hok, hrects⟩

end Graph

end WorkflowEditor
