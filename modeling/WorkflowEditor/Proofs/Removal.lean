/-
  WorkflowEditor.Proofs.Removal
  ─────────────────────────────
  **WHAT GOES WITH A NODE.**

  A container goes with its children, and all of them go with their edges.
  What is left is as it was, but for the container of a child that went,
  which is fitted:

    • `Graph.nodup_doomed` — each node that goes is named once,
    • `Graph.removeNode_eq_ok` — a removal that is not refused,
    • `Graph.nodes_fitEnclosing_without` — the nodes that are left,
    • `Graph.Cascade` — all that a removal does,
    • `Graph.removeNode_cascades` — which it does, or nothing at all.
-/
import WorkflowEditor.Proofs.Applied
import WorkflowEditor.Proofs.InPlace
import WorkflowEditor.Proofs.Loading

namespace WorkflowEditor

namespace Graph

variable {α : Type} [Coordinate α] {g : Graph α} {removed : Node α}

/-! ## §1. The ids of the nodes that go. -/

omit [Coordinate α] in
/-- **Each node that goes is named once.** -/
theorem nodup_doomed (hwell : g.WellFormed) (hremoved : removed ∈ g.nodes) :
    (g.doomed removed).Nodup := by
  unfold doomed
  refine List.Nodup.append ?_ (List.nodup_singleton _) ?_
  · split
    · exact hwell.nodup_ids.sublist (List.filter_sublist.map Node.id)
    · exact List.nodup_nil
  · rw [List.disjoint_singleton]
    split
    · -- A container is not among its own children.
      exact fun hinner => hwell.cycle_ne_id hremoved
        ((id_mem_children hwell.nodup_ids hremoved).1 hinner)
    · exact List.not_mem_nil

/-! ## §2. The nodes that are left. -/

theorem removeNode_eq_ok (hwell : g.WellFormed) (hremoved : removed ∈ g.nodes)
    (hfree : ¬ (removed.kind = .cycleStart ∧ (g.containerOf? removed).isSome)) :
    g.removeNode removed.id
      = .ok ((g.without (g.doomed removed)).fitEnclosing removed.cycle, g.doomed removed) := by
  unfold removeNode
  rw [require_of_node? (hwell.node?_of_mem hremoved)]
  show (if _ then _ else _) = _
  rw [if_neg hfree]
  rfl

/-- Fitting a container again would not change it. -/
theorem sizeToFit_fitContainer {d : Draft α} (hids : (d.graph.nodes.map Node.id).Nodup)
    {container : Node α} (hcontainer : container ∈ d.graph.nodes)
    (htop : container.cycle = none) :
    (d.fitContainer container.id).graph.sizeToFit container = d.graph.sizeToFit container := by
  have hsettings : (d.fitContainer container.id).graph.settings = d.graph.settings :=
    settings_of_untouched (d.untouched_fitEnclosing (some container.id))
  unfold sizeToFit
  rw [hsettings, Draft.children_fitContainer hids hcontainer htop]

omit [Coordinate α] in
/-- The container of a child stays when the child goes. -/
theorem not_mem_doomed_of_container (hwell : g.WellFormed) (hremoved : removed ∈ g.nodes)
    {container : Node α} (hcycle : removed.cycle = some container.id) :
    container.id ∉ g.doomed removed := by
  rw [mem_doomed hremoved]
  rintro ⟨node, hnode, hid, rfl | ⟨hcontains, -⟩⟩
  · exact hwell.cycle_ne_id hnode (hid ▸ hcycle)
  · rw [hwell.containers removed hremoved hcontains] at hcycle
    cases hcycle

/-- **What is left stays as it is**, but for the container of a child that went,
which is fitted to what is left in it. -/
theorem nodes_fitEnclosing_without (hwell : g.WellFormed) (hremoved : removed ∈ g.nodes) :
    let d := (g.without (g.doomed removed)).fitEnclosing removed.cycle
    d.graph.nodes
      = (g.nodes.filter fun node => node.id ∉ g.doomed removed).map fun node =>
          if removed.cycle = some node.id then
            { node with size := node.size.fitted (d.graph.sizeToFit node) }
          else node := by
  let left := g.without (g.doomed removed)
  have hleft : left.graph.nodes = g.nodes.filter fun node => node.id ∉ g.doomed removed := by
    refine (g.without_nodes _).trans (List.filter_congr fun node _ => ?_)
    rw [List.contains_eq_mem, decide_not]
  intro d
  cases hcycle : removed.cycle with
  | none =>
      have hsame : d = left := by
        show left.fitEnclosing removed.cycle = left
        rw [hcycle]
        rfl
      rw [hsame, hleft]
      refine (List.map_id _).symm.trans (List.map_congr_left fun node _ => ?_)
      rw [if_neg nofun]
      rfl
  | some parent =>
      obtain ⟨container, hcontainer, rfl, hencloses⟩ :=
        hwell.cycles removed hremoved parent hcycle
      have hd : d = left.fitContainer container.id := by
        show left.fitEnclosing removed.cycle = _
        rw [hcycle]
        rfl
      have hids : (left.graph.nodes.map Node.id).Nodup := by
        rw [hleft]
        exact hwell.nodup_ids.sublist (List.filter_sublist.map Node.id)
      -- The container did not go with its child, so it is there to be fitted.
      have hstays : container ∈ left.graph.nodes := by
        rw [hleft]
        exact List.mem_filter.2 ⟨hcontainer,
          decide_eq_true (not_mem_doomed_of_container hwell hremoved hcycle)⟩
      rw [hd, Draft.fitContainer_nodes hids hstays, ← hleft]
      refine List.map_congr_left fun node hnode => ?_
      by_cases hid : node.id = container.id
      · obtain rfl := eq_of_id_eq hids hnode hstays hid
        rw [if_pos rfl, if_pos rfl, sizeToFit_fitContainer hids hstays hencloses.top]
      · rw [if_neg hid, if_neg fun hsame => hid (Option.some.inj hsame).symm]

/-! ## §3. Removing a node. -/

/-- All that a removal does. -/
structure Cascade (g g' : Graph α) (removed : Node α) (doomed : List String) : Prop where
  nodup : doomed.Nodup
  mem_iff : ∀ id, id ∈ doomed ↔ ∃ node ∈ g.nodes, node.id = id
    ∧ (node = removed ∨ removed.kind.isContainer ∧ node.cycle = some removed.id)
  nodes : g'.nodes = (g.nodes.filter fun node => node.id ∉ doomed).map fun node =>
    if removed.cycle = some node.id then
      { node with size := node.size.fitted (g'.sizeToFit node) }
    else node
  edges : g'.edges = g.edges.filter fun edge => edge.source ∉ doomed ∧ edge.target ∉ doomed
  -- Nothing that is left tells of what went.
  cycles : ∀ node ∈ g'.nodes, ∀ parent, node.cycle = some parent → parent ∉ doomed
  ends : ∀ edge ∈ g'.edges, edge.source ∉ doomed ∧ edge.target ∉ doomed

/-- **A removal that is not refused.** -/
theorem cascade_fitEnclosing_without (hwell : g.WellFormed) (hremoved : removed ∈ g.nodes) :
    g.Cascade ((g.without (g.doomed removed)).fitEnclosing removed.cycle).graph removed
      (g.doomed removed) := by
  have hnodes := nodes_fitEnclosing_without hwell hremoved
  have hedges : ((g.without (g.doomed removed)).fitEnclosing removed.cycle).graph.edges
      = g.edges.filter fun edge =>
          edge.source ∉ g.doomed removed ∧ edge.target ∉ g.doomed removed := by
    rw [(Prod.mk.inj (Draft.unplaced_fitEnclosing _ _)).2, without_edges]
    refine List.filter_congr fun edge _ => ?_
    rw [List.contains_eq_mem, List.contains_eq_mem, Bool.decide_and, decide_not, decide_not,
      Bool.not_or]
  constructor
  case nodup => exact nodup_doomed hwell hremoved
  case mem_iff => exact fun _ => mem_doomed hremoved
  case nodes => exact hnodes
  case edges => exact hedges
  case cycles =>
      intro node hnode parent hparent hdoomed
      rw [hnodes] at hnode
      obtain ⟨before, hbefore, rfl⟩ := List.mem_map.1 hnode
      obtain ⟨hmem, hstays⟩ := List.mem_filter.1 hbefore
      have hcycle : before.cycle = some parent := by
        split at hparent <;> exact hparent
      -- Its container would have taken it along.
      obtain ⟨container, hcontainer, rfl, hencloses⟩ := hwell.cycles before hmem parent hcycle
      exact of_decide_eq_true hstays
        (mem_doomed_of_cycle hwell hremoved hcontainer hencloses hmem hcycle hdoomed)
  case ends =>
      intro edge hedge
      rw [hedges] at hedge
      exact of_decide_eq_true (List.mem_filter.1 hedge).2

/-- **A removal is refused, or takes along what it has to and nothing else.** It
is refused if there is no node with the id, or if that is the start of a
container; the graph is then as it was. -/
theorem removeNode_cascades (h : g.Reachable) (id : String) :
    (id ∉ g.nodes.map Node.id →
        (InPlace.removeNode id).run g.draft = .error (.nodeNotFound id) g.draft)
      ∧ ∀ removed ∈ g.nodes, removed.id = id →
        (removed.kind = .cycleStart
            ∧ (∃ container ∈ g.nodes, removed.cycle = some container.id) →
          (InPlace.removeNode id).run g.draft = .error (.protectedNode id) g.draft)
        ∧ (¬ (removed.kind = .cycleStart
            ∧ ∃ container ∈ g.nodes, removed.cycle = some container.id) →
          ∃ d doomed, (InPlace.removeNode id).run g.draft = .ok doomed d
            ∧ g.removeNode id = .ok (d, doomed)
            ∧ g.Cascade d.graph removed doomed) := by
  have hwell := h.wellFormed
  rw [InPlace.run_removeNode]
  refine ⟨fun hunknown => ?_, ?_⟩
  · unfold removeNode
    rw [require_of_not_mem hunknown]
    rfl
  · rintro removed hremoved rfl
    -- A start is kept if its container is found, which is to say that there is one.
    have hinside : (g.containerOf? removed).isSome
        ↔ ∃ container ∈ g.nodes, removed.cycle = some container.id :=
      Option.isSome_iff_exists.trans
        (exists_congr fun _ => containerOf?_eq_some_iff hwell.nodup_ids)
    rw [← hinside]
    refine ⟨fun hprotected => ?_, fun hfree => ?_⟩
    · unfold removeNode
      rw [require_of_node? (hwell.node?_of_mem hremoved)]
      show InPlace.settle g.draft _ (if _ then _ else _) = _
      rw [if_pos hprotected]
      rfl
    · have hok := removeNode_eq_ok hwell hremoved hfree
      rw [hok]
      exact ⟨_, _, rfl, rfl, cascade_fitEnclosing_without hwell hremoved⟩

/-- A loop with two children that are connected, and a node outside: the loop
goes with its start, both children and their edge, but the start does not go on
its own. -/
theorem removeNode_cascades_loop :
    let g : Graph Rat := (empty .standard).run [.addNode .loop ⟨0, 0⟩, .addNode .llm ⟨300, 100⟩,
      .addNode .llm ⟨300, 200⟩, .connect "llm_1" none "llm_2" none, .addNode .llm ⟨900, 0⟩]
    g.edges.map Edge.route = [("llm_1", "right", "llm_2")]
      ∧ (InPlace.removeNode "cycle_start_1").run g.draft
        = .error (.protectedNode "cycle_start_1") g.draft
      ∧ ∃ removed ∈ g.nodes, ∃ d,
        g.removeNode "loop_1" = .ok (d, ["cycle_start_1", "llm_1", "llm_2", "loop_1"])
          ∧ g.Cascade d.graph removed ["cycle_start_1", "llm_1", "llm_2", "loop_1"] := by
  intro g
  have hreachable : g.Reachable := ⟨_, _, .empty .standard, rfl⟩
  obtain ⟨start, hstart, hid, hprotected⟩ : ∃ start ∈ g.nodes, start.id = "cycle_start_1"
      ∧ start.kind = .cycleStart ∧ ∃ container ∈ g.nodes, start.cycle = some container.id := by
    decide +kernel
  obtain ⟨removed, hremoved, hid', hfree⟩ : ∃ removed ∈ g.nodes, removed.id = "loop_1"
      ∧ ¬ (removed.kind = .cycleStart
        ∧ ∃ container ∈ g.nodes, removed.cycle = some container.id) := by
    decide +kernel
  refine ⟨by decide +kernel, ?_, removed, hremoved, ?_⟩
  · exact ((removeNode_cascades hreachable _).2 start hstart hid).1 hprotected
  · obtain ⟨d, doomed, -, hok, hcascade⟩ :=
      ((removeNode_cascades hreachable _).2 removed hremoved hid').2 hfree
    have hdoomed : (Prod.snd <$> g.removeNode "loop_1").toOption
        = some ["cycle_start_1", "llm_1", "llm_2", "loop_1"] := by
      decide +kernel
    rw [hok] at hdoomed
    obtain rfl := Option.some.inj hdoomed
    exact ⟨d, hok, hcascade⟩

end Graph

end WorkflowEditor
