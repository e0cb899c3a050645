/-
  WorkflowEditor.Proofs.WellFormed
  ────────────────────────────────
  **WELL-FORMED GRAPHS.**

  What holds of every graph that the editor makes: node ids are distinct,
  ports follow from the configuration, containers are there and are not
  nested, and edges join ports of different nodes of one container, no two
  of them by one route.

    • `node?_eq_some_iff` — looking an id up finds the node with it,
    • `children_map` — changes that keep containers keep children,
    • `WellFormed.congr`, `WellFormed.congr_unplaced` — names, positions
      and sizes do not matter,
    • `WellFormed.restrict` — leaving nodes and edges out does no harm as
      long as no container of a child and no end of an edge is left out,
    • `WellFormed.addNode`, `WellFormed.addEdge` — when one more does none.
-/
import WorkflowEditor.Proofs.PortLayout

namespace WorkflowEditor

variable {α : Type}

/-! ## §1. The invariant. -/

/-- An edge leads from one node to another as the rules ask. -/
structure Edge.Joins (edge : Edge) (source target : Node α) : Prop where
  source_id : source.id = edge.source
  target_id : target.id = edge.target
  distinct : source.id ≠ target.id
  same_cycle : source.cycle = target.cycle
  accepts : target.kind.acceptsIncoming
  emits : source.kind.emitsOutgoing
  leaves : edge.sourcePort ∈ source.portIds .right
  enters : edge.targetPort ∈ target.portIds .left

/-- The port that an edge leaves by, and the node that it leads to. -/
def Edge.route (edge : Edge) : String × String × String :=
  (edge.source, edge.sourcePort, edge.target)

theorem Edge.route_eq_iff {edge other : Edge} :
    edge.route = other.route ↔ edge.source = other.source ∧ edge.sourcePort = other.sourcePort
      ∧ edge.target = other.target := by
  unfold route
  rw [Prod.mk.injEq, Prod.mk.injEq]

/-- A node that may enclose others: a container that none encloses. -/
structure Node.Encloses (node : Node α) : Prop where
  container : node.kind.isContainer
  top : node.cycle = none

/-- What holds of every graph that the editor makes. -/
structure Graph.WellFormed (g : Graph α) : Prop where
  nodup_ids : (g.nodes.map Node.id).Nodup
  ports : ∀ node ∈ g.nodes, node.ports = portsOf node.kind node.form
  cycles : ∀ node ∈ g.nodes, ∀ parent, node.cycle = some parent →
    ∃ container ∈ g.nodes, container.id = parent ∧ container.Encloses
  containers : ∀ node ∈ g.nodes, node.kind.isContainer → node.cycle = none
  edges : ∀ edge ∈ g.edges, ∃ source ∈ g.nodes, ∃ target ∈ g.nodes, edge.Joins source target
  -- The port on the left is no part of a route, as there is one at most.
  nodup_routes : (g.edges.map Edge.route).Nodup

namespace Graph

/-- A graph without nodes and edges. -/
theorem wellFormed_of_nil {g : Graph α} (hnodes : g.nodes = []) (hedges : g.edges = []) :
    g.WellFormed where
  nodup_ids := by rw [hnodes]; exact List.nodup_nil
  ports := by rw [hnodes]; exact fun _ h => nomatch h
  cycles := by rw [hnodes]; exact fun _ h => nomatch h
  containers := by rw [hnodes]; exact fun _ h => nomatch h
  edges := by rw [hedges]; exact fun _ h => nomatch h
  nodup_routes := by rw [hedges]; exact List.nodup_nil

/-! ## §2. Looking nodes up, and what they enclose. -/

theorem mem_of_node? {g : Graph α} {id : String} {node : Node α} (h : g.node? id = some node) :
    node ∈ g.nodes ∧ node.id = id :=
  ⟨List.mem_of_find?_eq_some h, by simpa using List.find?_some h⟩

theorem node?_eq_none_iff {g : Graph α} {id : String} :
    g.node? id = none ↔ id ∉ g.nodes.map Node.id := by
  unfold node?
  rw [List.find?_eq_none]
  simp

/-- Where ids are distinct an id names one node. -/
theorem eq_of_id_eq {nodes : List (Node α)} (hnodup : (nodes.map Node.id).Nodup)
    {node other : Node α} (hnode : node ∈ nodes) (hother : other ∈ nodes)
    (h : node.id = other.id) : node = other :=
  List.inj_on_of_nodup_map hnodup hnode hother h

/-- **Looking an id up finds the node with it.** -/
theorem node?_eq_some_iff {g : Graph α} (hnodup : (g.nodes.map Node.id).Nodup) {id : String}
    {node : Node α} : g.node? id = some node ↔ node ∈ g.nodes ∧ node.id = id := by
  constructor
  · exact mem_of_node?
  · rintro ⟨hnode, rfl⟩
    cases hfound : g.node? node.id with
    | none =>
        exact absurd (List.mem_map_of_mem hnode) (node?_eq_none_iff.1 hfound)
    | some found =>
        obtain ⟨hmem, hid⟩ := mem_of_node? hfound
        rw [eq_of_id_eq hnodup hmem hnode hid]

/-- The container of a node is the node with the id that it names. -/
theorem containerOf?_eq_some_iff {g : Graph α} (hnodup : (g.nodes.map Node.id).Nodup)
    {node container : Node α} :
    g.containerOf? node = some container
      ↔ container ∈ g.nodes ∧ node.cycle = some container.id := by
  unfold containerOf?
  rw [Option.bind_eq_some_iff]
  constructor
  · rintro ⟨id, hcycle, hfound⟩
    obtain ⟨hmem, rfl⟩ := mem_of_node? hfound
    exact ⟨hmem, hcycle⟩
  · rintro ⟨hmem, hcycle⟩
    exact ⟨container.id, hcycle, (node?_eq_some_iff hnodup).2 ⟨hmem, rfl⟩⟩

/-- A view that a change of the node with an id keeps, is kept of all. -/
theorem map_map_ite {β : Type} {id : String} {f : Node α → Node α} {view : Node α → β}
    (hf : ∀ node, node.id = id → view (f node) = view node) (nodes : List (Node α)) :
    (nodes.map fun node => if node.id = id then f node else node).map view = nodes.map view := by
  rw [List.map_map]
  apply List.map_congr_left
  intro node _
  by_cases hid : node.id = id
  · simp [hid, hf node hid]
  · simp [hid]

section Children

variable {g : Graph α} {container child : Node α}

/-- A child is not the container that it is in, which is in none. -/
theorem id_ne_of_child (hids : (g.nodes.map Node.id).Nodup) (hcontainer : container ∈ g.nodes)
    (htop : container.cycle = none) (hchild : child ∈ g.nodes)
    (hcycle : child.cycle = some container.id) : child.id ≠ container.id := by
  intro heq
  rw [eq_of_id_eq hids hchild hcontainer heq, htop] at hcycle
  cases hcycle

theorem mem_children {id : String} :
    child ∈ g.children id ↔ child ∈ g.nodes ∧ child.cycle = some id :=
  List.mem_filter.trans (and_congr_right fun _ => beq_iff_eq)

/-- A change of each node for itself that keeps containers keeps what they
enclose. -/
theorem children_map {g' : Graph α} {f : Node α → Node α} (hnodes : g'.nodes = g.nodes.map f)
    (hcycle : ∀ node, (f node).cycle = node.cycle) (id : String) :
    g'.children id = (g.children id).map f := by
  have hsame : (fun node : Node α => node.cycle == some id) ∘ f
      = fun node => node.cycle == some id := by
    funext node
    show ((f node).cycle == some id) = _
    rw [hcycle]
  unfold children
  rw [hnodes, List.filter_map, hsame]

/-- Whether a node is a child can be told by its id. -/
theorem id_mem_children {id : String} (hids : (g.nodes.map Node.id).Nodup)
    (hchild : child ∈ g.nodes) :
    child.id ∈ (g.children id).map Node.id ↔ child.cycle = some id := by
  constructor
  · intro hmem
    obtain ⟨other, hother, hid⟩ := List.mem_map.1 hmem
    obtain ⟨hother, hcycle⟩ := mem_children.1 hother
    rwa [← eq_of_id_eq hids hother hchild hid]
  · exact fun hcycle => List.mem_map_of_mem (mem_children.2 ⟨hchild, hcycle⟩)

end Children

namespace WellFormed

theorem node?_of_mem {g : Graph α} (h : g.WellFormed) {node : Node α} (hnode : node ∈ g.nodes) :
    g.node? node.id = some node :=
  (node?_eq_some_iff h.nodup_ids).2 ⟨hnode, rfl⟩

theorem eq_of_id {g : Graph α} (h : g.WellFormed) {node other : Node α} (hnode : node ∈ g.nodes)
    (hother : other ∈ g.nodes) (hid : node.id = other.id) : node = other :=
  eq_of_id_eq h.nodup_ids hnode hother hid

/-- A node has no children unless it is a container. -/
theorem children_eq_nil {g : Graph α} (h : g.WellFormed) {node : Node α}
    (hnode : node ∈ g.nodes) (hkind : ¬ node.kind.isContainer) : g.children node.id = [] := by
  refine List.filter_eq_nil_iff.2 fun child hchild hcycle => ?_
  obtain ⟨container, hcontainer, hid, hencloses⟩ :=
    h.cycles child hchild node.id (beq_iff_eq.1 hcycle)
  obtain rfl := h.eq_of_id hcontainer hnode hid
  exact hkind hencloses.container

/-- No node is in itself. -/
theorem cycle_ne_id {g : Graph α} (h : g.WellFormed) {node : Node α}
    (hnode : node ∈ g.nodes) : node.cycle ≠ some node.id := by
  intro hcycle
  obtain ⟨container, hcontainer, hid, hencloses⟩ := h.cycles node hnode node.id hcycle
  obtain rfl := h.eq_of_id hcontainer hnode hid
  rw [hencloses.top] at hcycle
  cases hcycle

/-- An edge leaves a node by one of its right ports. -/
theorem leaves_of_source {g : Graph α} (h : g.WellFormed) {node : Node α} (hnode : node ∈ g.nodes)
    {edge : Edge} (hedge : edge ∈ g.edges) (hsource : edge.source = node.id) :
    edge.sourcePort ∈ node.portIds .right := by
  obtain ⟨source, hmem, _, _, hjoins⟩ := h.edges edge hedge
  obtain rfl := h.eq_of_id hmem hnode (hjoins.source_id.trans hsource)
  exact hjoins.leaves

end WellFormed

end Graph

/-! ## §3. Names, positions and sizes do not matter. -/

/-- A node without its position and size. -/
def Node.unplaced (node : Node α) : Node Unit :=
  { node with position := ⟨(), ()⟩, size := ⟨(), ()⟩ }

/-- What a node is for the rules about containers and edges: its id, kind,
container and ports. -/
def Node.outline (node : Node α) : Node Unit :=
  { node.unplaced with name := "", form := .empty, extra := [] }

/-- Two nodes that are the same for the rules about containers and
edges. -/
structure Node.Alike (node other : Node α) : Prop where
  id : node.id = other.id
  kind : node.kind = other.kind
  cycle : node.cycle = other.cycle
  ports : node.ports = other.ports

theorem Node.Alike.refl (node : Node α) : node.Alike node := ⟨rfl, rfl, rfl, rfl⟩

theorem Node.Alike.symm {node other : Node α} (h : node.Alike other) : other.Alike node :=
  ⟨h.id.symm, h.kind.symm, h.cycle.symm, h.ports.symm⟩

theorem Node.Alike.trans {node other third : Node α} (h : node.Alike other)
    (h' : other.Alike third) : node.Alike third :=
  ⟨h.id.trans h'.id, h.kind.trans h'.kind, h.cycle.trans h'.cycle, h.ports.trans h'.ports⟩

/-- An outline has all that edges and containers ask of a node. -/
theorem Node.alike_of_outline {node other : Node α} (h : node.outline = other.outline) :
    node.Alike other := by
  obtain ⟨hid, hkind, -, -, -, -, hcycle, hports, -⟩ := Node.mk.inj h
  exact ⟨hid, hkind, hcycle, hports⟩

theorem Node.Alike.portIds {node other : Node α} (h : node.Alike other) (side : Side) :
    node.portIds side = other.portIds side := by
  unfold Node.portIds Node.portsOn
  rw [h.ports]

/-- An edge still joins nodes that were replaced by others like them. -/
theorem Edge.Joins.congr {edge : Edge} {source target source' target' : Node α}
    (h : edge.Joins source target) (hsource : source.Alike source')
    (htarget : target.Alike target') : edge.Joins source' target' where
  source_id := hsource.id ▸ h.source_id
  target_id := htarget.id ▸ h.target_id
  distinct := hsource.id ▸ htarget.id ▸ h.distinct
  same_cycle := hsource.cycle ▸ htarget.cycle ▸ h.same_cycle
  accepts := htarget.kind ▸ h.accepts
  emits := hsource.kind ▸ h.emits
  leaves := hsource.portIds .right ▸ h.leaves
  enters := htarget.portIds .left ▸ h.enters

theorem Node.Encloses.congr {node other : Node α} (h : node.Encloses) (halike : node.Alike other) :
    other.Encloses :=
  ⟨halike.kind ▸ h.container, halike.cycle ▸ h.top⟩

namespace Graph

/-- The nodes and the edges of a graph, as the rules about containers and
edges see them. -/
def outline (g : Graph α) : List (Node Unit) × List Edge :=
  (g.nodes.map Node.outline, g.edges)

/-- The nodes and the edges of a graph, but not where the nodes are. -/
def unplaced (g : Graph α) : List (Node Unit) × List Edge :=
  (g.nodes.map Node.unplaced, g.edges)

/-- Outlines do not depend on positions and sizes. -/
theorem outline_eq_of_unplaced {g g' : Graph α} (h : g.unplaced = g'.unplaced) :
    g.outline = g'.outline := by
  obtain ⟨hnodes, hedges⟩ := Prod.mk.inj h
  have hmap (nodes : List (Node α)) : nodes.map Node.outline
      = (nodes.map Node.unplaced).map fun node =>
          { node with name := "", form := .empty, extra := [] } := by
    rw [List.map_map]
    rfl
  unfold outline
  rw [hmap, hmap, hnodes, hedges]

theorem exists_alike {g g' : Graph α} (h : g.outline = g'.outline) {node : Node α}
    (hnode : node ∈ g.nodes) : ∃ other ∈ g'.nodes, node.Alike other := by
  have hmem : node.outline ∈ g'.nodes.map Node.outline :=
    (Prod.mk.inj h).1 ▸ List.mem_map_of_mem hnode
  obtain ⟨other, hother, heq⟩ := List.mem_map.1 hmem
  exact ⟨other, hother, Node.alike_of_outline heq.symm⟩

theorem ids_eq_of_outline {g g' : Graph α} (h : g.outline = g'.outline) :
    g.nodes.map Node.id = g'.nodes.map Node.id := by
  have hmap (nodes : List (Node α)) :
      nodes.map Node.id = (nodes.map Node.outline).map Node.id := by
    rw [List.map_map]
    rfl
  rw [hmap, hmap, (Prod.mk.inj h).1]

/-- **A graph with the same outline is as well-formed**, as long as ports
follow from forms. -/
theorem WellFormed.congr {g g' : Graph α} (h : g.WellFormed) (houtline : g.outline = g'.outline)
    (hports : ∀ node ∈ g'.nodes, node.ports = portsOf node.kind node.form) :
    g'.WellFormed := by
  have hedges : g.edges = g'.edges := (Prod.mk.inj houtline).2
  constructor
  case nodup_ids => exact ids_eq_of_outline houtline ▸ h.nodup_ids
  case ports => exact hports
  case cycles =>
      intro node hnode parent hparent
      obtain ⟨other, hother, halike⟩ := exists_alike houtline.symm hnode
      obtain ⟨container, hcontainer, hid, hencloses⟩ :=
        h.cycles other hother parent (halike.cycle ▸ hparent)
      obtain ⟨container', hcontainer', halike'⟩ := exists_alike houtline hcontainer
      exact ⟨container', hcontainer', halike'.id ▸ hid, hencloses.congr halike'⟩
  case containers =>
      intro node hnode hcontainer
      obtain ⟨other, hother, halike⟩ := exists_alike houtline.symm hnode
      rw [halike.cycle]
      exact h.containers other hother (halike.kind ▸ hcontainer)
  case edges =>
      intro edge hedge
      obtain ⟨source, hsource, target, htarget, hjoins⟩ := h.edges edge (hedges ▸ hedge)
      obtain ⟨source', hsource', hsource''⟩ := exists_alike houtline hsource
      obtain ⟨target', htarget', htarget''⟩ := exists_alike houtline htarget
      exact ⟨source', hsource', target', htarget', hjoins.congr hsource'' htarget''⟩
  case nodup_routes => exact hedges ▸ h.nodup_routes

/-- Ids that are distinct stay so when nodes are placed. -/
theorem nodup_ids_of_unplaced {g g' : Graph α} (h : g'.unplaced = g.unplaced)
    (hids : (g.nodes.map Node.id).Nodup) : (g'.nodes.map Node.id).Nodup := by
  rw [ids_eq_of_outline (outline_eq_of_unplaced h)]
  exact hids

/-- **Positions and sizes do not matter.** -/
theorem WellFormed.congr_unplaced {g g' : Graph α} (h : g.WellFormed)
    (hunplaced : g.unplaced = g'.unplaced) : g'.WellFormed := by
  refine h.congr (outline_eq_of_unplaced hunplaced) ?_
  intro node hnode
  have hmem : node.unplaced ∈ g.nodes.map Node.unplaced :=
    (Prod.mk.inj hunplaced).1 ▸ List.mem_map_of_mem hnode
  obtain ⟨other, hother, heq⟩ := List.mem_map.1 hmem
  obtain ⟨-, hkind, -, -, -, hform, -, hports, -⟩ := Node.mk.inj heq
  rw [← hkind, ← hform, ← hports]
  exact h.ports other hother

/-! ## §4. Leaving nodes and edges out, and adding one. -/

/-- **Leaving nodes and edges out does no harm** as long as no container of
a child and no end of an edge is left out. -/
theorem WellFormed.restrict {g g' : Graph α} (h : g.WellFormed)
    (hnodes : g'.nodes.Sublist g.nodes) (hedges : g'.edges.Sublist g.edges)
    (hcycles : ∀ node ∈ g'.nodes, ∀ container ∈ g.nodes, node.cycle = some container.id →
      container.Encloses → container ∈ g'.nodes)
    (hends : ∀ edge ∈ g'.edges, ∀ node ∈ g.nodes,
      node.id = edge.source ∨ node.id = edge.target → node ∈ g'.nodes) :
    g'.WellFormed := by
  constructor
  case nodup_ids => exact h.nodup_ids.sublist (hnodes.map _)
  case ports => exact fun node hnode => h.ports node (hnodes.subset hnode)
  case cycles =>
      intro node hnode parent hparent
      obtain ⟨container, hcontainer, rfl, hencloses⟩ :=
        h.cycles node (hnodes.subset hnode) parent hparent
      -- The container was there, and it is not one of the nodes that are left out.
      exact ⟨container, hcycles node hnode container hcontainer hparent hencloses, rfl, hencloses⟩
  case containers => exact fun node hnode => h.containers node (hnodes.subset hnode)
  case edges =>
      intro edge hedge
      obtain ⟨source, hsource, target, htarget, hjoins⟩ := h.edges edge (hedges.subset hedge)
      exact ⟨source, hends edge hedge source hsource (.inl hjoins.source_id),
        target, hends edge hedge target htarget (.inr hjoins.target_id), hjoins⟩
  case nodup_routes => exact h.nodup_routes.sublist (hedges.map _)

/-- **A new node does no harm** if its id is free, its ports are those of
its form, and what it names as its container is one. -/
theorem WellFormed.addNode {g g' : Graph α} (h : g.WellFormed) {node : Node α}
    (hnodes : g'.nodes = g.nodes ++ [node]) (hedges : g'.edges = g.edges)
    (hfresh : node.id ∉ g.nodes.map Node.id) (hports : node.ports = portsOf node.kind node.form)
    (hcycle : ∀ parent, node.cycle = some parent → node.kind.isContainer = false
      ∧ ∃ container ∈ g.nodes, container.id = parent ∧ container.Encloses) :
    g'.WellFormed := by
  have hmem {other : Node α} : other ∈ g'.nodes ↔ other ∈ g.nodes ∨ other = node := by
    rw [hnodes, List.mem_append, List.mem_singleton]
  constructor
  case nodup_ids =>
      rw [hnodes, List.map_append]
      refine h.nodup_ids.append (List.nodup_singleton _) ?_
      simpa using hfresh
  case ports =>
      intro other hother
      rcases hmem.1 hother with hother | rfl
      · exact h.ports other hother
      · exact hports
  case cycles =>
      intro other hother parent hparent
      rcases hmem.1 hother with hother | rfl
      · obtain ⟨container, hcontainer, hencloses⟩ := h.cycles other hother parent hparent
        exact ⟨container, hmem.2 (.inl hcontainer), hencloses⟩
      · obtain ⟨-, container, hcontainer, hencloses⟩ := hcycle parent hparent
        exact ⟨container, hmem.2 (.inl hcontainer), hencloses⟩
  case containers =>
      intro other hother hcontainer
      rcases hmem.1 hother with hother | rfl
      · exact h.containers other hother hcontainer
      · cases hparent : other.cycle with
        | none => rfl
        | some parent =>
            -- The new node has a container, so it is none itself.
            rw [(hcycle parent hparent).1] at hcontainer
            cases hcontainer
  case edges =>
      intro edge hedge
      obtain ⟨source, hsource, target, htarget, hjoins⟩ := h.edges edge (hedges ▸ hedge)
      exact ⟨source, hmem.2 (.inl hsource), target, hmem.2 (.inl htarget), hjoins⟩
  case nodup_routes => exact hedges ▸ h.nodup_routes

/-- **A new edge does no harm** if it joins two nodes by a free route. -/
theorem WellFormed.addEdge {g g' : Graph α} (h : g.WellFormed) {edge : Edge}
    (hnodes : g'.nodes = g.nodes) (hedges : g'.edges = g.edges ++ [edge])
    {source target : Node α} (hsource : source ∈ g.nodes) (htarget : target ∈ g.nodes)
    (hjoins : edge.Joins source target) (hfree : edge.route ∉ g.edges.map Edge.route) :
    g'.WellFormed := by
  constructor
  case nodup_ids => exact hnodes ▸ h.nodup_ids
  case ports => exact hnodes ▸ h.ports
  case cycles => exact hnodes ▸ h.cycles
  case containers => exact hnodes ▸ h.containers
  case edges =>
      intro other hother
      rw [hedges, List.mem_append, List.mem_singleton] at hother
      rw [hnodes]
      rcases hother with hother | rfl
      · exact h.edges other hother
      · exact ⟨source, hsource, target, htarget, hjoins⟩
  case nodup_routes =>
      rw [hedges, List.map_append]
      refine h.nodup_routes.append (List.nodup_singleton _) ?_
      simpa using hfree

end Graph

end WorkflowEditor
