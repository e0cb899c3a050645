/-
  WorkflowEditor.Proofs.Rewiring
  ──────────────────────────────
  **EDGES FOLLOW THE PORTS THEY LEAVE BY.**

  A node whose form has changed gets the ports of its new form, and its
  edges are put back at the ports that a remap names:

    • `PortRemap.apply_injective` — no remap sends two ports to one,
    • `Edge.rewired` — the edges once those of a node were put back,
    • `Draft.refreshPorts_nodes`, `Draft.refreshPorts_edges_eq` — what making
      ports anew does to nodes and edges,
    • `Edge.route_of_reattached?` — edges with different routes are put back
      with different routes,
    • `joins_reformed` — an edge that is put back joins two nodes again,
    • `WellFormed.reform`, `WellFormed.refreshPorts` — so the graph stays
      well-formed.
-/
import WorkflowEditor.Proofs.WellFormed
import Mathlib.Data.List.Perm.Basic

namespace WorkflowEditor

/-! ## §1. Remaps. -/

/-- **No remap sends two ports to one.** -/
theorem PortRemap.apply_injective {remap : PortRemap} {i j k : Nat}
    (hi : remap.apply i = some k) (hj : remap.apply j = some k) : i = j := by
  cases remap with
  | removed gone =>
      unfold apply at hi hj
      dsimp only at hi hj
      split at hi <;> split at hj <;> grind
  | inserted new =>
      unfold apply at hi hj
      dsimp only at hi hj
      grind
  | resized old new trailingElse =>
      unfold apply at hi hj
      dsimp only at hi hj
      split at hi <;> split at hj <;> grind

/-! ## §2. An edge that is put back. -/

namespace Edge

variable {id : String} {old new : List String} {remap : PortRemap} {edge edge' : Edge}

/-- An edge into a node does not leave by one of its ports, so it keeps its
own. -/
theorem reattached?_of_ne (h : edge.source ≠ id) :
    edge.reattached? id old new remap = some edge := if_neg h

/-- Where the port of an edge that leaves the node has gone. -/
theorem port_of_reattached? (h : edge.reattached? id old new remap = some edge')
    (hsource : edge.source = id) :
    ∃ i j port, old.idxOf? edge.sourcePort = some i ∧ remap.apply i = some j
      ∧ new[j]? = some port ∧ edge' = { edge with sourcePort := port } := by
  unfold reattached? at h
  rw [if_pos hsource] at h
  obtain ⟨i, hi, h⟩ := Option.bind_eq_some_iff.1 h
  obtain ⟨j, hj, h⟩ := Option.bind_eq_some_iff.1 h
  obtain ⟨port, hport, h⟩ := Option.bind_eq_some_iff.1 h
  exact ⟨i, j, port, hi, hj, hport, (Option.some.inj h).symm⟩

/-- An edge is put back between the same nodes. -/
theorem ends_of_reattached? (h : edge.reattached? id old new remap = some edge') :
    edge'.source = edge.source ∧ edge'.target = edge.target
      ∧ edge'.targetPort = edge.targetPort := by
  by_cases hsource : edge.source = id
  · obtain ⟨i, j, port, -, -, -, rfl⟩ := port_of_reattached? h hsource
    exact ⟨rfl, rfl, rfl⟩
  · rw [reattached?_of_ne hsource] at h
    rw [Option.some.inj h]
    exact ⟨rfl, rfl, rfl⟩

/-- An edge is put back under its id. -/
theorem id_of_reattached? (h : edge.reattached? id old new remap = some edge') :
    edge'.id = edge.id := by
  by_cases hsource : edge.source = id
  · obtain ⟨i, j, port, -, -, -, rfl⟩ := port_of_reattached? h hsource
    rfl
  · rw [reattached?_of_ne hsource] at h
    rw [Option.some.inj h]

/-- **Edges that are put back with one route had one route before.** -/
theorem route_of_reattached? {other other' : Edge} (hnew : new.Nodup)
    (h : edge.reattached? id old new remap = some edge')
    (h' : other.reattached? id old new remap = some other')
    (hroute : edge'.route = other'.route) : edge.route = other.route := by
  obtain ⟨hs, ht, -⟩ := ends_of_reattached? h
  obtain ⟨hs', ht', -⟩ := ends_of_reattached? h'
  obtain ⟨hsource, hport, htarget⟩ := route_eq_iff.1 hroute
  have hsources : edge.source = other.source := by rw [← hs, ← hs', hsource]
  have htargets : edge.target = other.target := by rw [← ht, ← ht', htarget]
  have hsame : edge.sourcePort = other.sourcePort := by
    by_cases hid : edge.source = id
    · obtain ⟨i, j, port, hi, hj, hget, rfl⟩ := port_of_reattached? h hid
      obtain ⟨i', j', port', hi', hj', hget', rfl⟩ :=
        port_of_reattached? h' (hsources ▸ hid)
      -- The new ids are distinct and the remap merges no ports, so the old port is known.
      have hports : port = port' := hport
      have hj'' : j = j' := by
        obtain ⟨hlt, hget⟩ := List.getElem?_eq_some_iff.1 hget
        obtain ⟨hlt', hget'⟩ := List.getElem?_eq_some_iff.1 hget'
        exact (hnew.getElem_inj_iff).1 (by rw [hget, hget', hports])
      have hi'' : i = i' := PortRemap.apply_injective hj (hj'' ▸ hj')
      obtain ⟨hlt, hget, -⟩ := List.idxOf?_eq_some_iff.1 hi
      obtain ⟨hlt', hget', -⟩ := List.idxOf?_eq_some_iff.1 hi'
      rw [← hget, ← hget']
      congr
    · rw [reattached?_of_ne hid] at h
      rw [reattached?_of_ne (hsources ▸ hid)] at h'
      rw [Option.some.inj h, Option.some.inj h', hport]
  exact route_eq_iff.2 ⟨hsources, hsame, htargets⟩

end Edge

/-! ## §3. Putting the edges of a node back. -/

namespace Edge

variable {id : String} {move move' : Edge → Option Edge} {edges : List Edge} {edge : Edge}

/-- The edges once those that touch a node were taken away and put back, behind
the others, as a move says. -/
def rewired (id : String) (move : Edge → Option Edge) (edges : List Edge) : List Edge :=
  (edges.filter fun edge => !edge.touches id)
    ++ (edges.filter fun edge => edge.touches id).filterMap move

/-- Two edges that touch the same nodes. -/
theorem touches_congr {edge' : Edge} (hsource : edge'.source = edge.source)
    (htarget : edge'.target = edge.target) (id : String) : edge'.touches id = edge.touches id := by
  unfold touches
  rw [hsource, htarget]

theorem touches_of_source (h : edge.source = id) : edge.touches id := by simp [touches, h]

/-- An edge of the node that is put back is there. -/
theorem mem_rewired {edge' : Edge} (hedge : edge ∈ edges) (htouches : edge.touches id)
    (hmove : move edge = some edge') : edge' ∈ rewired id move edges :=
  List.mem_append_right _
    (List.mem_filterMap.2 ⟨edge, List.mem_filter.2 ⟨hedge, htouches⟩, hmove⟩)

theorem mem_rewired_of_kept (hedge : edge ∈ edges) (hmove : move edge = some edge) :
    edge ∈ rewired id move edges := by
  by_cases htouches : edge.touches id
  · exact mem_rewired hedge htouches hmove
  · exact List.mem_append_left _ (List.mem_filter.2 ⟨hedge, by simpa using htouches⟩)

/-- **Where a move keeps the edges that do not leave the node, putting edges
back only changes the order.** -/
theorem rewired_perm (h : ∀ edge ∈ edges, edge.source ≠ id → move edge = some edge) :
    (rewired id move edges).Perm (edges.filterMap move) := by
  -- An edge that does not touch the node would be put back as it is.
  have huntouched : (edges.filter fun edge => !edge.touches id).filterMap move
      = edges.filter fun edge => !edge.touches id := by
    refine (List.filterMap_congr ?_).trans List.filterMap_some
    intro edge hedge
    obtain ⟨hmem, hfree⟩ := List.mem_filter.1 hedge
    refine h edge hmem fun hsource => ?_
    rw [touches_of_source hsource] at hfree
    cases hfree
  -- So all edges are put back, but those that touch the node come last.
  unfold rewired
  rw [← huntouched, ← List.filterMap_append]
  exact ((List.perm_append_comm).trans
    (List.filter_append_perm (fun edge => edge.touches id) edges)).filterMap move

/-- Putting edges back twice is putting them back by both moves. -/
theorem rewired_rewired (hends : ∀ edge ∈ edges, ∀ edge', move edge = some edge' →
      edge'.touches id = edge.touches id) :
    rewired id move' (rewired id move edges)
      = rewired id (fun edge => (move edge).bind move') edges := by
  let kept := edges.filter fun edge => !edge.touches id
  let put := (edges.filter fun edge => edge.touches id).filterMap move
  have hkept : ∀ edge ∈ kept, edge.touches id = false := by
    intro edge hedge
    simpa using (List.mem_filter.1 hedge).2
  have hput : ∀ edge ∈ put, edge.touches id = true := by
    intro edge' hedge'
    obtain ⟨edge, hedge, hmove⟩ := List.mem_filterMap.1 hedge'
    obtain ⟨hmem, htouches⟩ := List.mem_filter.1 hedge
    rw [hends edge hmem edge' hmove]
    exact htouches
  -- What was put back touches the node again, and what was kept does not.
  have hfirst : (kept ++ put).filter (fun edge => !edge.touches id) = kept := by
    rw [List.filter_append, List.filter_eq_self.2 fun edge hedge => by simp [hkept edge hedge],
      List.filter_eq_nil_iff.2 fun edge hedge => by simp [hput edge hedge]]
    exact List.append_nil _
  have hsecond : (kept ++ put).filter (fun edge => edge.touches id) = put := by
    rw [List.filter_append, List.filter_eq_nil_iff.2 fun edge hedge => by simp [hkept edge hedge],
      List.filter_eq_self.2 hput]
    exact List.nil_append _
  show (kept ++ put).filter (fun edge => !edge.touches id)
    ++ ((kept ++ put).filter fun edge => edge.touches id).filterMap move' = _
  rw [hfirst, hsecond, List.filterMap_filterMap]
  rfl

/-- **Edges that are put back as they were only go behind the others.** -/
theorem rewired_eq_of_fixed (h : ∀ edge ∈ edges, edge.touches id → move edge = some edge) :
    rewired id move edges
      = (edges.filter fun edge => !edge.touches id)
        ++ edges.filter fun edge => edge.touches id := by
  have hfixed : (edges.filter fun edge => edge.touches id).filterMap move
      = edges.filter fun edge => edge.touches id := by
    refine (List.filterMap_congr fun edge hedge => ?_).trans List.filterMap_some
    obtain ⟨hmem, htouches⟩ := List.mem_filter.1 hedge
    exact h edge hmem htouches
  rw [rewired, hfixed]

end Edge

/-! ## §4. Making ports anew. -/

variable {α : Type}

namespace Draft

@[simp] theorem emitAll_nodes (d : Draft α) (events : List (Event α)) :
    (d.emitAll events).graph.nodes = d.graph.nodes := by
  induction events generalizing d with
  | nil => rfl
  | cons event events ih => exact ih (d.emit event)

@[simp] theorem emitAll_edges (d : Draft α) (events : List (Event α)) :
    (d.emitAll events).graph.edges = d.graph.edges := by
  induction events generalizing d with
  | nil => rfl
  | cons event events ih => exact ih (d.emit event)

theorem putBack_nodes (d : Draft α) (edges : List Edge) :
    (d.putBack edges).graph.nodes = d.graph.nodes := by
  induction edges generalizing d with
  | nil => rfl
  | cons edge edges ih => exact ih _

/-- Edges that are put back go behind the others, in order. -/
theorem putBack_edges (d : Draft α) (edges : List Edge) :
    (d.putBack edges).graph.edges = d.graph.edges ++ edges := by
  induction edges generalizing d with
  | nil => exact (List.append_nil _).symm
  | cons edge edges ih =>
      show (putBack ((d.addEdge edge).emit (.edgeAdded edge.id)) edges).graph.edges = _
      rw [ih]
      exact List.append_assoc d.graph.edges [edge] edges

/-- The node gets its left ports and the ports of its form. -/
theorem refreshPorts_nodes (d : Draft α) {id : String} (remap : PortRemap) {node : Node α}
    (h : d.graph.node? id = some node) :
    (d.refreshPorts id remap).graph.nodes
      = d.graph.nodes.map fun other =>
          if other.id = id then
            { other with
              ports := node.portsOn .left ++ (BranchLayout.of node.kind node.form).ports }
          else other := by
  unfold refreshPorts
  rw [h]
  dsimp only
  refine (putBack_nodes _ _).trans ?_
  show List.map _ (emitAll _ _).graph.nodes = _
  rw [emitAll_nodes]
  rfl

/-- What does not depend on ports is kept of each node. -/
theorem map_refreshPorts {β : Type} (d : Draft α) (id : String) (remap : PortRemap)
    {view : Node α → β} (hview : ∀ node ports, view { node with ports := ports } = view node) :
    (d.refreshPorts id remap).graph.nodes.map view = d.graph.nodes.map view := by
  cases hnode : d.graph.node? id with
  | none =>
      unfold refreshPorts
      rw [hnode]
  | some node =>
      rw [d.refreshPorts_nodes remap hnode]
      exact Graph.map_map_ite (f := fun other =>
        { other with ports := node.portsOn .left ++ (BranchLayout.of node.kind node.form).ports })
        (fun other _ => hview other _) d.graph.nodes

theorem map_resyncPorts {β : Type} (d : Draft α) (id : String) {view : Node α → β}
    (hview : ∀ node ports, view { node with ports := ports } = view node) :
    (d.resyncPorts id).graph.nodes.map view = d.graph.nodes.map view := by
  unfold resyncPorts
  split
  · rfl
  · exact d.map_refreshPorts id _ hview

/-- **Its edges are put back at the ports that the remap names**, behind
the others; those whose port is gone are not. -/
theorem refreshPorts_edges_eq (d : Draft α) {id : String} (remap : PortRemap) {node : Node α}
    (h : d.graph.node? id = some node) :
    (d.refreshPorts id remap).graph.edges
      = Edge.rewired id
          (Edge.reattached? id (node.portIds .right) (layoutIds node.kind node.form) remap)
          d.graph.edges := by
  unfold refreshPorts
  rw [h]
  dsimp only
  refine (putBack_edges _ _).trans ?_
  show (emitAll _ _).graph.edges ++ _ = _
  rw [emitAll_edges]
  rfl

/-- Up to their order, the edges are those that are put back and those that
were never taken. -/
theorem refreshPorts_edges (d : Draft α) {id : String} (remap : PortRemap) {node : Node α}
    (h : d.graph.node? id = some node) :
    (d.refreshPorts id remap).graph.edges.Perm
      (d.graph.edges.filterMap
        (Edge.reattached? id (node.portIds .right) (layoutIds node.kind node.form) remap)) := by
  rw [d.refreshPorts_edges_eq remap h]
  exact Edge.rewired_perm fun _ _ => Edge.reattached?_of_ne

end Draft

/-! ## §5. The graph stays well-formed. -/

/-- A node with a new form and the ports of that. -/
def Node.reform (node : Node α) (form : Form) : Node α :=
  { node with form := form, ports := portsOf node.kind form }

theorem Node.reform_ports (node : Node α) (form : Form) :
    (node.reform form).ports = portsOf (node.reform form).kind (node.reform form).form := rfl

theorem Node.reform_left {node : Node α} (h : node.ports = portsOf node.kind node.form)
    (form : Form) : (node.reform form).portIds .left = node.portIds .left := by
  unfold portIds
  rw [portsOn_left (node.reform_ports form), portsOn_left h]
  rfl

namespace Graph

/-- Routes stay distinct when edges are put back. -/
theorem nodup_routes_filterMap {edges : List Edge} (h : (edges.map Edge.route).Nodup)
    (id : String) {old new : List String} (hnew : new.Nodup) (remap : PortRemap) :
    ((edges.filterMap (Edge.reattached? id old new remap)).map Edge.route).Nodup := by
  have hpairs : edges.Pairwise fun edge other => edge.route ≠ other.route :=
    List.pairwise_map.1 h
  refine List.pairwise_map.2 (hpairs.filterMap _ ?_)
  intro edge other hne edge' hedge' other' hother' heq
  exact hne (Edge.route_of_reattached? hnew hedge' hother' heq)

/-- The nodes of a graph in which one took a new form. -/
def reformed (g : Graph α) (node : Node α) (form : Form) : List (Node α) :=
  g.nodes.map fun other => if other.id = node.id then node.reform form else other

theorem mem_reformed_self {g : Graph α} {node : Node α} (hnode : node ∈ g.nodes) (form : Form) :
    node.reform form ∈ g.reformed node form :=
  List.mem_map.2 ⟨node, hnode, if_pos rfl⟩

theorem mem_reformed_of_ne {g : Graph α} {node other : Node α} (hother : other ∈ g.nodes)
    (hid : other.id ≠ node.id) (form : Form) : other ∈ g.reformed node form :=
  List.mem_map.2 ⟨other, hother, if_neg hid⟩

/-- Only one node has got another form. -/
theorem mem_reformed_cases {g : Graph α} {node other : Node α} {form : Form}
    (h : other ∈ g.reformed node form) : other ∈ g.nodes ∨ other = node.reform form := by
  obtain ⟨before, hbefore, rfl⟩ := List.mem_map.1 h
  by_cases hid : before.id = node.id
  · rw [if_pos hid]
    exact Or.inr rfl
  · rw [if_neg hid]
    exact Or.inl hbefore

theorem reformed_ids (g : Graph α) (node : Node α) (form : Form) :
    (g.reformed node form).map Node.id = g.nodes.map Node.id := by
  refine map_map_ite ?_ g.nodes
  intro other hid
  exact hid.symm

/-- A container that takes a new form still encloses what it enclosed. -/
theorem container_reformed {g : Graph α} (h : g.WellFormed) {node : Node α}
    (hnode : node ∈ g.nodes) (form : Form) {parent : String}
    (hparent : ∃ container ∈ g.nodes, container.id = parent ∧ container.Encloses) :
    ∃ container ∈ g.reformed node form, container.id = parent ∧ container.Encloses := by
  obtain ⟨container, hcontainer, rfl, hencloses⟩ := hparent
  by_cases hid : container.id = node.id
  · obtain rfl := h.eq_of_id hcontainer hnode hid
    exact ⟨_, mem_reformed_self hnode form, rfl, hencloses.container, hencloses.top⟩
  · exact ⟨container, mem_reformed_of_ne hcontainer hid form, rfl, hencloses⟩

/-- **An edge that is put back joins two nodes again.** -/
theorem joins_reformed {g : Graph α} (h : g.WellFormed) {node : Node α} (hnode : node ∈ g.nodes)
    {form : Form} {remap : PortRemap} {edge edge' : Edge} (hedge : edge ∈ g.edges)
    (hput : edge.reattached? node.id (node.portIds .right) (layoutIds node.kind form) remap
      = some edge') :
    ∃ source ∈ g.reformed node form, ∃ target ∈ g.reformed node form,
      edge'.Joins source target := by
  obtain ⟨source, hsource, target, htarget, hjoins⟩ := h.edges edge hedge
  by_cases hid : source.id = node.id
  · -- The edge leaves the node, by a port of the new form.
    obtain rfl := h.eq_of_id hsource hnode hid
    obtain ⟨-, j, port, -, -, hport, rfl⟩ := Edge.port_of_reattached? hput hjoins.source_id.symm
    have hleaves : port ∈ (source.reform form).portIds .right := by
      rw [Node.portIds_right (source.reform_ports form)]
      exact List.mem_of_getElem? hport
    exact ⟨_, mem_reformed_self hnode form,
      target, mem_reformed_of_ne htarget (Ne.symm hjoins.distinct) form,
      { hjoins with leaves := hleaves }⟩
  · rw [Edge.reattached?_of_ne (hjoins.source_id ▸ hid)] at hput
    obtain rfl := Option.some.inj hput
    have hsource' := mem_reformed_of_ne hsource hid form
    by_cases hid' : target.id = node.id
    · -- The edge enters the node, whose left port has stayed.
      obtain rfl := h.eq_of_id htarget hnode hid'
      have henters : edge.targetPort ∈ (target.reform form).portIds .left := by
        rw [Node.reform_left (h.ports target htarget)]
        exact hjoins.enters
      exact ⟨source, hsource', _, mem_reformed_self hnode form, { hjoins with enters := henters }⟩
    · exact ⟨source, hsource', target, mem_reformed_of_ne htarget hid' form, hjoins⟩

/-- **A node may take a new form** if its edges follow the ports of that. -/
theorem WellFormed.reform {g g' : Graph α} (h : g.WellFormed) {node : Node α}
    (hnode : node ∈ g.nodes) {form : Form} {remap : PortRemap}
    (hnodes : g'.nodes = g.reformed node form)
    (hedges : g'.edges.Perm (g.edges.filterMap
      (Edge.reattached? node.id (node.portIds .right) (layoutIds node.kind form) remap))) :
    g'.WellFormed := by
  constructor
  case nodup_ids =>
      rw [hnodes, reformed_ids]
      exact h.nodup_ids
  case ports =>
      intro other hother
      rcases mem_reformed_cases (hnodes ▸ hother) with hother | rfl
      · exact h.ports other hother
      · exact node.reform_ports form
  case cycles =>
      intro other hother parent hparent
      rw [hnodes]
      rcases mem_reformed_cases (hnodes ▸ hother) with hother | rfl
      · exact container_reformed h hnode form (h.cycles other hother parent hparent)
      · exact container_reformed h hnode form (h.cycles node hnode parent hparent)
  case containers =>
      intro other hother hkind
      rcases mem_reformed_cases (hnodes ▸ hother) with hother | rfl
      · exact h.containers other hother hkind
      · exact h.containers node hnode hkind
  case edges =>
      intro edge' hedge'
      obtain ⟨edge, hedge, hput⟩ := List.mem_filterMap.1 (hedges.mem_iff.1 hedge')
      rw [hnodes]
      exact joins_reformed h hnode hedge hput
  case nodup_routes =>
      refine (hedges.map Edge.route).nodup_iff.2 ?_
      exact nodup_routes_filterMap h.nodup_routes _ (nodup_layoutIds _ _) remap

/-- The draft in which a node took a new form but still has the ports of the
old one. -/
structure Reformed (g : Graph α) (id : String) (form : Node α → Form) (d : Draft α) : Prop where
  nodes : d.graph.nodes = g.nodes.map fun node =>
    if node.id = id then { node with form := form node } else node
  edges : d.graph.edges = g.edges

theorem Reformed.node? {g : Graph α} (h : g.WellFormed) {node : Node α} (hnode : node ∈ g.nodes)
    {form : Node α → Form} {d : Draft α} (hd : Reformed g node.id form d) :
    d.graph.node? node.id = some { node with form := form node } := by
  have hids : d.graph.nodes.map Node.id = g.nodes.map Node.id := by
    rw [hd.nodes]
    refine map_map_ite ?_ g.nodes
    exact fun _ _ => rfl
  refine (node?_eq_some_iff (hids ▸ h.nodup_ids)).2 ⟨?_, rfl⟩
  rw [hd.nodes]
  exact List.mem_map.2 ⟨node, hnode, if_pos rfl⟩

/-- The form was set before the ports: together they make the node anew. -/
theorem Reformed.nodes_refreshPorts {g : Graph α} (h : g.WellFormed) {node : Node α}
    (hnode : node ∈ g.nodes) {form : Node α → Form} {d : Draft α}
    (hd : Reformed g node.id form d) (remap : PortRemap) :
    (d.refreshPorts node.id remap).graph.nodes = g.reformed node (form node) := by
  have hleft : Node.portsOn { node with form := form node } .left = entryPorts node.kind := by
    show node.portsOn .left = _
    exact Node.portsOn_left (h.ports node hnode)
  rw [d.refreshPorts_nodes remap (hd.node? h hnode), hd.nodes, List.map_map, hleft]
  unfold reformed
  apply List.map_congr_left
  intro other hother
  by_cases hid : other.id = node.id
  · obtain rfl := h.eq_of_id hother hnode hid
    simp [Node.reform, portsOf]
  · simp [hid]

/-- The edges of the node follow the ports of its new form. -/
theorem Reformed.edges_refreshPorts_eq {g : Graph α} (h : g.WellFormed) {node : Node α}
    (hnode : node ∈ g.nodes) {form : Node α → Form} {d : Draft α}
    (hd : Reformed g node.id form d) (remap : PortRemap) :
    (d.refreshPorts node.id remap).graph.edges = Edge.rewired node.id
      (Edge.reattached? node.id (node.portIds .right) (layoutIds node.kind (form node)) remap)
      g.edges :=
  hd.edges ▸ d.refreshPorts_edges_eq remap (hd.node? h hnode)

/-- What is put back depends on the ports before and on the form that was
written. -/
theorem Reformed.edges_refreshPorts {g : Graph α} (h : g.WellFormed) {node : Node α}
    (hnode : node ∈ g.nodes) {form : Node α → Form} {d : Draft α}
    (hd : Reformed g node.id form d) (remap : PortRemap) :
    (d.refreshPorts node.id remap).graph.edges.Perm (g.edges.filterMap
      (Edge.reattached? node.id (node.portIds .right) (layoutIds node.kind (form node)) remap)) :=
  hd.edges ▸ d.refreshPorts_edges remap (hd.node? h hnode)

/-- **Making the ports anew makes the graph well-formed again.** -/
theorem WellFormed.refreshPorts {g : Graph α} (h : g.WellFormed) {node : Node α}
    (hnode : node ∈ g.nodes) {form : Node α → Form} {d : Draft α}
    (hd : Reformed g node.id form d) (remap : PortRemap) :
    (d.refreshPorts node.id remap).graph.WellFormed :=
  h.reform hnode (hd.nodes_refreshPorts h hnode remap) (hd.edges_refreshPorts h hnode remap)

theorem WellFormed.resyncPorts {g : Graph α} (h : g.WellFormed) {node : Node α}
    (hnode : node ∈ g.nodes) {form : Node α → Form} {d : Draft α}
    (hd : Reformed g node.id form d) : (d.resyncPorts node.id).graph.WellFormed := by
  unfold Draft.resyncPorts
  rw [hd.node? h hnode]
  exact h.refreshPorts hnode hd _

end Graph

end WorkflowEditor
