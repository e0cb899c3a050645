/-
  WorkflowEditor.Proofs.Editing
  ─────────────────────────────
  **NO CHANGE BREAKS A GRAPH.**

  Each change keeps a graph well-formed, one lemma for each kind of step:

    • `Draft.wellFormed_spawn` — a new node has a free id
      (`freshNodeId_not_mem`),
    • `wellFormed_removeNode` — children go with their container,
    • `wellFormed_connect` — the checks are those that the invariant asks,
    • `wellFormed_updateConfig`, `wellFormed_setBranches` — edges follow the
      ports,
    • `WellFormed.after`, `WellFormed.run` — one change, and changes in
      turn.
-/
import WorkflowEditor.Proofs.Outcome
import WorkflowEditor.Proofs.Placement
import WorkflowEditor.Proofs.Rewiring

namespace WorkflowEditor

namespace Graph

variable {α : Type}

theorem node?_of_require {g : Graph α} {id : String} {node : Node α}
    (h : g.require id = .ok node) : g.node? id = some node := by
  unfold require at h
  split at h
  · rename_i found hfound
    rw [hfound, Except.ok.inj h]
  · cases h

theorem require_of_node? {g : Graph α} {id : String} {node : Node α}
    (h : g.node? id = some node) : g.require id = .ok node := by
  unfold require
  rw [h]

theorem require_of_not_mem {g : Graph α} {id : String} (h : id ∉ g.nodes.map Node.id) :
    g.require id = .error (.nodeNotFound id) := by
  unfold require
  rw [node?_eq_none_iff.2 h]

/-- The node that was asked for is there. -/
theorem mem_of_require {g : Graph α} {id : String} {node : Node α}
    (h : g.require id = .ok node) : node ∈ g.nodes ∧ node.id = id :=
  mem_of_node? (node?_of_require h)

/-! ## §1. Free ids. -/

theorem nodeId_injective {kind : Kind} {m n : Nat} (h : nodeId kind m = nodeId kind n) :
    m = n := by
  have hlist := congrArg String.toList h
  simp only [nodeId, String.toList_append] at hlist
  exact toString_injective (String.toList_inj.1 (List.append_cancel_left hlist))

/-- Of distinct names, one more than are taken, some are free. -/
theorem exists_free {names taken : List String} (hnodup : names.Nodup)
    (hlength : taken.length < names.length) : ∃ name ∈ names, name ∉ taken := by
  by_contra hall
  push Not at hall
  have hle := (List.subperm_of_subset hnodup hall).length_le
  omega

/-- A search through one more than are taken finds a name that is free. -/
theorem free_of_find? {β : Type} {candidates : List β} {name : β → String} {taken : List String}
    {free : β → Bool} (hfree : ∀ b, free b ↔ name b ∉ taken)
    (hnodup : (candidates.map name).Nodup) (hlength : taken.length < candidates.length)
    (fallback : β) : name ((candidates.find? free).getD fallback) ∉ taken := by
  cases hfound : candidates.find? free with
  | some b => exact (hfree b).1 (List.find?_some hfound)
  | none =>
      have hmore : taken.length < (candidates.map name).length := by rwa [List.length_map]
      obtain ⟨_, hmem, hnot⟩ := exists_free hnodup hmore
      obtain ⟨b, hb, rfl⟩ := List.mem_map.1 hmem
      exact absurd ((hfree b).2 hnot) (List.find?_eq_none.1 hfound b hb)

/-- **A new node gets an id that is free.** -/
theorem freshNodeId_not_mem (g : Graph α) (kind : Kind) :
    g.freshNodeId kind ∉ g.nodes.map Node.id := by
  have hnodup : ((List.range (g.nodes.length + 1)).map fun i => nodeId kind (i + 1)).Nodup :=
    List.nodup_range.map fun i j h => Nat.succ.inj (nodeId_injective h)
  have hfree : ∀ name, (g.node? name).isNone ↔ id name ∉ g.nodes.map Node.id := fun name => by
    rw [Option.isNone_iff_eq_none, node?_eq_none_iff, id]
  exact free_of_find? hfree (by rwa [List.map_id]) (by simp) (nodeId kind 0)

end Graph

/-! ## §2. Adding nodes. -/

variable {α : Type} [Coordinate α]

namespace Draft

/-- The node that is added. -/
def spawned (d : Draft α) (kind : Kind) (position : Position α) (cycle : Option String) : Node α :=
  let node := (Template.of d.graph.settings kind).instantiate (d.graph.freshNodeId kind) position
    cycle
  { node with position := d.graph.landing node position }

theorem spawn_nodes (d : Draft α) (kind : Kind) (position : Position α) (cycle : Option String) :
    (d.spawn kind position cycle).1.graph.nodes
      = d.graph.nodes ++ [d.spawned kind position cycle] := rfl

theorem wellFormed_spawn {d : Draft α} (h : d.graph.WellFormed) {kind : Kind}
    {cycle : Option String} (position : Position α)
    (hcycle : ∀ parent, cycle = some parent → kind.isContainer = false
      ∧ ∃ container ∈ d.graph.nodes, container.id = parent ∧ container.Encloses) :
    (d.spawn kind position cycle).1.graph.WellFormed :=
  h.addNode (d.spawn_nodes kind position cycle) rfl (d.graph.freshNodeId_not_mem kind)
    (portsOf_defaultConfig kind) hcycle

theorem wellFormed_fitEnclosing {d : Draft α} (h : d.graph.WellFormed) (cycle : Option String) :
    (d.fitEnclosing cycle).graph.WellFormed :=
  h.congr_unplaced (d.unplaced_fitEnclosing cycle).symm

end Draft

namespace Graph

theorem mem_of_containerAt? {g : Graph α} {point : Position α} {container : Node α}
    (h : g.containerAt? point = some container) :
    container ∈ g.nodes ∧ container.Encloses := by
  unfold containerAt? at h
  have hmem := List.mem_reverse.1 (List.mem_of_find?_eq_some h)
  have htest := List.find?_some h
  simp only [Bool.and_eq_true, Option.isNone_iff_eq_none] at htest
  exact ⟨hmem, htest.1.1, htest.1.2⟩

/-- **Adding a node keeps the graph well-formed.** -/
theorem wellFormed_addNode {g : Graph α} (h : g.WellFormed) {kind : Kind}
    {position : Position α} {result : Draft α × String}
    (hok : g.addNode kind position = .ok result) : result.1.graph.WellFormed := by
  unfold addNode at hok
  split at hok
  · cases hok
  split at hok
  · cases hok
  · rename_i hcontainer hfree
    obtain rfl := Except.ok.inj hok
    have hfirst : (g.draft.spawn kind position none).1.graph.WellFormed :=
      Draft.wellFormed_spawn h position fun _ hnone => nomatch hnone
    refine Draft.wellFormed_spawn hfirst _ ?_
    -- The start of the new container names the container, which is the last node.
    intro parent hparent
    obtain rfl := Option.some.inj hparent
    refine ⟨rfl, g.draft.spawned kind position none, ?_, rfl, hcontainer, rfl⟩
    rw [Draft.spawn_nodes]
    exact List.mem_append_right _ (List.mem_singleton_self _)
  · -- Any other node may stand in the container at its point.
    rename_i hcontainer
    obtain rfl := Except.ok.inj hok
    refine Draft.wellFormed_fitEnclosing (Draft.wellFormed_spawn h position ?_) _
    intro parent hparent
    obtain ⟨container, hfound, rfl⟩ := Option.map_eq_some_iff.1 hparent
    obtain ⟨hmem, hencloses⟩ := mem_of_containerAt? hfound
    exact ⟨hcontainer, container, hmem, rfl, hencloses⟩

theorem wellFormed_dropPayload {g : Graph α} (h : g.WellFormed) {text : String}
    {position : Position α} {result : Draft α × String}
    (hok : g.dropPayload text position = .ok result) : result.1.graph.WellFormed := by
  unfold dropPayload at hok
  obtain ⟨kind, -, hok⟩ := bind_eq_ok.1 hok
  exact wellFormed_addNode h hok

end Graph

/-! ## §3. Removing nodes. -/

namespace Draft

theorem discard_nodes {α : Type} (d : Draft α) (id : String) :
    (d.discard id).graph.nodes = d.graph.nodes.filter fun node => node.id != id := by
  unfold discard
  split
  · rfl
  · rename_i hnone
    have hfree : id ∉ d.graph.nodes.map Node.id :=
      Graph.node?_eq_none_iff.1 (Option.not_isSome_iff_eq_none.1 hnone)
    refine (List.filter_eq_self.2 fun node hnode => ?_).symm
    rw [bne_iff_ne]
    rintro rfl
    exact hfree (List.mem_map_of_mem hnode)

theorem discard_edges {α : Type} (d : Draft α) (id : String) :
    (d.discard id).graph.edges = d.graph.edges := by
  unfold discard
  split <;> rfl

/-- Dropping nodes one by one leaves those that are not named. -/
theorem foldl_discard_nodes {α : Type} (d : Draft α) (ids : List String) :
    (ids.foldl discard d).graph.nodes
      = d.graph.nodes.filter fun node => !ids.contains node.id := by
  induction ids generalizing d with
  | nil => exact (List.filter_eq_self.2 fun _ _ => rfl).symm
  | cons id ids ih =>
      rw [List.foldl_cons, ih, discard_nodes, List.filter_filter]
      apply List.filter_congr
      intro node _
      rw [List.contains_cons, Bool.not_or, Bool.and_comm]
      rfl

theorem foldl_discard_edges {α : Type} (d : Draft α) (ids : List String) :
    (ids.foldl discard d).graph.edges = d.graph.edges := by
  induction ids generalizing d with
  | nil => rfl
  | cons id ids ih => rw [List.foldl_cons, ih, discard_edges]

end Draft

namespace Graph

/-- The nodes that go when a node is removed. -/
def doomed {α : Type} (g : Graph α) (node : Node α) : List String :=
  (if node.kind.isContainer then (g.children node.id).map Node.id else []) ++ [node.id]

/-- **A node goes, and with a container go its children.** -/
theorem mem_doomed {α : Type} {g : Graph α} {removed : Node α} (hremoved : removed ∈ g.nodes)
    {id : String} : id ∈ g.doomed removed ↔ ∃ node ∈ g.nodes, node.id = id
      ∧ (node = removed ∨ removed.kind.isContainer ∧ node.cycle = some removed.id) := by
  unfold doomed
  rw [List.mem_append, List.mem_singleton]
  constructor
  · rintro (hinner | rfl)
    · split at hinner
      · rename_i hcontains
        obtain ⟨child, hchild, rfl⟩ := List.mem_map.1 hinner
        obtain ⟨hmem, hcycle⟩ := mem_children.1 hchild
        exact ⟨child, hmem, rfl, .inr ⟨hcontains, hcycle⟩⟩
      · cases hinner
    · exact ⟨removed, hremoved, rfl, .inl rfl⟩
  · rintro ⟨node, hnode, rfl, rfl | ⟨hcontains, hcycle⟩⟩
    · exact .inr rfl
    · rw [if_pos hcontains]
      exact .inl (List.mem_map_of_mem (mem_children.2 ⟨hnode, hcycle⟩))

/-- A container goes only with all that it encloses. -/
theorem mem_doomed_of_cycle {α : Type} {g : Graph α} (h : g.WellFormed)
    {node container child : Node α} (hnode : node ∈ g.nodes) (hcontainer : container ∈ g.nodes)
    (hencloses : container.Encloses) (hchild : child ∈ g.nodes)
    (hcycle : child.cycle = some container.id) (hdoomed : container.id ∈ g.doomed node) :
    child.id ∈ g.doomed node := by
  obtain ⟨other, hother, hid, hgoes⟩ := (mem_doomed hnode).1 hdoomed
  obtain rfl := h.eq_of_id hother hcontainer hid
  rcases hgoes with rfl | ⟨-, hinside⟩
  · exact (mem_doomed hnode).2 ⟨child, hchild, rfl, .inr ⟨hencloses.container, hcycle⟩⟩
  · -- What the removed node encloses is no container itself.
    rw [hencloses.top] at hinside
    cases hinside

/-- **Removing a node keeps the graph well-formed.** -/
theorem wellFormed_removeNode {g : Graph α} (h : g.WellFormed) {id : String}
    {result : Draft α × List String} (hok : g.removeNode id = .ok result) :
    result.1.graph.WellFormed := by
  unfold removeNode at hok
  obtain ⟨node, hrequire, hok⟩ := bind_eq_ok.1 hok
  obtain ⟨-, hok⟩ := guard_eq_ok.1 hok
  obtain rfl := Except.ok.inj hok
  obtain ⟨hnode, rfl⟩ := mem_of_require hrequire
  refine Draft.wellFormed_fitEnclosing ?_ _
  show (List.foldl Draft.discard _ (g.doomed node)).graph.WellFormed
  have hnodes (d : Draft α) (hd : d.graph.nodes = g.nodes) {other : Node α} :
      other ∈ (List.foldl Draft.discard d (g.doomed node)).graph.nodes
        ↔ other ∈ g.nodes ∧ other.id ∉ g.doomed node := by
    rw [Draft.foldl_discard_nodes, hd]
    simp
  apply h.restrict
  case hnodes =>
      rw [Draft.foldl_discard_nodes, Draft.emitAll_nodes]
      exact List.filter_sublist
  case hedges =>
      rw [Draft.foldl_discard_edges, Draft.emitAll_edges]
      exact List.filter_sublist
  case hcycles =>
      intro child hchild container hcontainer hcycle hencloses
      obtain ⟨hmem, hkept⟩ := (hnodes _ (Draft.emitAll_nodes _ _)).1 hchild
      refine (hnodes _ (Draft.emitAll_nodes _ _)).2 ⟨hcontainer, fun hdoomed => ?_⟩
      exact hkept (mem_doomed_of_cycle h hnode hcontainer hencloses hmem hcycle hdoomed)
  case hends =>
      intro edge hedge other hother hend
      refine (hnodes _ (Draft.emitAll_nodes _ _)).2 ⟨hother, fun hdoomed => ?_⟩
      -- The edges of all nodes that go were cut before.
      rw [Draft.foldl_discard_edges, Draft.emitAll_edges] at hedge
      have hfar : !((g.doomed node).contains edge.source
          || (g.doomed node).contains edge.target) := (List.mem_filter.1 hedge).2
      have hfree : edge.source ∉ g.doomed node ∧ edge.target ∉ g.doomed node := by
        simpa using hfar
      rcases hend with hid | hid <;> rw [hid] at hdoomed
      · exact hfree.1 hdoomed
      · exact hfree.2 hdoomed

/-! ## §4. Making and cutting edges. -/

theorem checkEnds_eq_ok {α : Type} {source target : Node α} :
    checkEnds source target = .ok ()
      ↔ source.id ≠ target.id ∧ target.kind.acceptsIncoming ∧ source.kind.emitsOutgoing
        ∧ source.cycle = target.cycle := by
  unfold checkEnds
  by_cases hid : source.id = target.id
  · simp [hid]
  by_cases haccepts : target.kind.acceptsIncoming
  · by_cases hemits : source.kind.emitsOutgoing
    · by_cases hcycle : source.cycle = target.cycle <;> simp [hid, haccepts, hemits, hcycle]
    · simp [hid, haccepts, hemits]
  · simp [hid, haccepts]

theorem mem_of_pickPort {α : Type} {node : Node α} {side : Side} {wanted : Option String}
    {port : String} (h : node.pickPort side wanted = .ok port) : port ∈ node.portIds side := by
  unfold Node.pickPort at h
  cases wanted with
  | none =>
      dsimp only at h
      split at h
      · rename_i found hfound
        rw [← Except.ok.inj h]
        exact List.mem_of_head? hfound
      · cases h
  | some id =>
      dsimp only at h
      split at h
      · rename_i found hfound
        rw [← Except.ok.inj h]
        exact List.mem_of_find?_eq_some hfound
      · cases h

/-- An edge by the same route ends at the same port, as there is but one on
the left. -/
theorem WellFormed.hasEdge_of_route {α : Type} {g : Graph α} (h : g.WellFormed) {edge : Edge}
    {source target : Node α} (htarget : target ∈ g.nodes) (hjoins : edge.Joins source target)
    (hroute : edge.route ∈ g.edges.map Edge.route) :
    g.hasEdge edge.source edge.sourcePort edge.target edge.targetPort := by
  obtain ⟨other, hother, heq⟩ := List.mem_map.1 hroute
  obtain ⟨hs, hp, ht⟩ := Edge.route_eq_iff.1 heq
  obtain ⟨_, _, target', htarget', hjoins'⟩ := h.edges other hother
  have hentry : edge.targetPort = Port.entry.id :=
    Node.eq_entry_of_mem (h.ports target htarget) hjoins.enters
  have hentry' : other.targetPort = Port.entry.id :=
    Node.eq_entry_of_mem (h.ports target' htarget') hjoins'.enters
  unfold hasEdge
  refine List.any_eq_true.2 ⟨other, hother, ?_⟩
  simp [hs, hp, ht, hentry, hentry']

/-- What was checked before an edge is made. -/
theorem joint_eq_ok {α : Type} {g : Graph α} {sourceId targetId : String}
    {sourcePort targetPort : Option String} {ports : String × String}
    (h : g.joint sourceId sourcePort targetId targetPort = .ok ports) (id : String) :
    ∃ source ∈ g.nodes, ∃ target ∈ g.nodes,
      (Edge.mk id sourceId ports.1 targetId ports.2 []).Joins source target
        ∧ ¬ g.hasEdge sourceId ports.1 targetId ports.2 := by
  unfold joint at h
  obtain ⟨source, hsource, h⟩ := bind_eq_ok.1 h
  obtain ⟨target, htarget, h⟩ := bind_eq_ok.1 h
  have h := mapError_eq_ok.1 h
  obtain ⟨_, hends, h⟩ := bind_eq_ok.1 h
  obtain ⟨exit, hexit, h⟩ := bind_eq_ok.1 h
  obtain ⟨entry, hentry, h⟩ := bind_eq_ok.1 h
  obtain ⟨hfree, h⟩ := guard_eq_ok.1 h
  obtain rfl := Except.ok.inj h
  obtain ⟨hid, haccepts, hemits, hcycle⟩ := checkEnds_eq_ok.1 hends
  obtain ⟨hmem, rfl⟩ := mem_of_require hsource
  obtain ⟨hmem', rfl⟩ := mem_of_require htarget
  exact ⟨source, hmem, target, hmem',
    { source_id := rfl
      target_id := rfl
      distinct := hid
      same_cycle := hcycle
      accepts := haccepts
      emits := hemits
      leaves := mem_of_pickPort hexit
      enters := mem_of_pickPort hentry }, hfree⟩

/-- **Making an edge keeps the graph well-formed.** -/
theorem wellFormed_connect {α : Type} {g : Graph α} (h : g.WellFormed)
    {source target : String} {sourcePort targetPort : Option String}
    {result : Draft α × String}
    (hok : g.connect source sourcePort target targetPort = .ok result) :
    result.1.graph.WellFormed := by
  unfold connect at hok
  obtain ⟨⟨exit, entry⟩, hports, hok⟩ := bind_eq_ok.1 hok
  obtain rfl := Except.ok.inj hok
  obtain ⟨sourceNode, hsource, targetNode, htarget, hjoins, hfree⟩ :=
    joint_eq_ok hports (edgeId g.nextEdgeNumber)
  exact h.addEdge rfl rfl hsource htarget hjoins
    fun hroute => hfree (h.hasEdge_of_route htarget hjoins hroute)

/-- Cutting an edge keeps the graph well-formed. -/
theorem wellFormed_disconnect {α : Type} {g : Graph α} (h : g.WellFormed) {id : String}
    {result : Draft α × Edge} (hok : g.disconnect id = .ok result) :
    result.1.graph.WellFormed := by
  unfold disconnect at hok
  dsimp only at hok
  split at hok
  · obtain rfl := Except.ok.inj hok
    exact h.restrict (List.Sublist.refl _) List.filter_sublist
      (fun _ _ container hcontainer _ _ => hcontainer) (fun _ _ node hnode _ => hnode)
  · cases hok

/-! ## §5. Placing and naming nodes. -/

/-- Moving a node keeps the graph well-formed. -/
theorem wellFormed_moveNode {g : Graph α} (h : g.WellFormed) {id : String}
    {position : Position α} {result : Draft α × Position α}
    (hok : g.moveNode id position = .ok result) : result.1.graph.WellFormed := by
  unfold moveNode at hok
  obtain ⟨node, -, hok⟩ := bind_eq_ok.1 hok
  obtain rfl := Except.ok.inj hok
  refine Draft.wellFormed_fitEnclosing (h.congr_unplaced (Eq.symm ?_)) _
  -- The node is placed, then its children, then its container is fitted.
  rw [Draft.unplaced_foldl fun d child => d.unplaced_place _ _, Draft.unplaced_place]
  rfl

/-- Resizing a node keeps the graph well-formed. -/
theorem wellFormed_resizeNode {g : Graph α} (h : g.WellFormed) {id : String} {size : Size α}
    {result : Draft α × Size α} (hok : g.resizeNode id size = .ok result) :
    result.1.graph.WellFormed := by
  unfold resizeNode at hok
  obtain ⟨node, -, hok⟩ := bind_eq_ok.1 hok
  obtain rfl := Except.ok.inj hok
  refine Draft.wellFormed_fitEnclosing (h.congr_unplaced (Eq.symm ?_)) _
  exact g.draft.unplaced_reviseNode id fun _ => rfl

/-- Renaming a node keeps the graph well-formed. -/
theorem wellFormed_renameNode {α : Type} {g : Graph α} (h : g.WellFormed) {id name : String}
    {d : Draft α} (hok : g.renameNode id name = .ok d) : d.graph.WellFormed := by
  unfold renameNode at hok
  obtain ⟨node, -, hok⟩ := bind_eq_ok.1 hok
  obtain rfl := Except.ok.inj hok
  have houtline : (g.draft.reviseNode id fun node => { node with name := name }).graph.nodes.map
      Node.outline = g.nodes.map Node.outline := g.draft.map_reviseNode id fun _ => rfl
  refine h.congr (Prod.ext houtline.symm rfl) ?_
  intro other hother
  obtain ⟨before, hbefore, rfl⟩ := List.mem_map.1 hother
  have hports := h.ports before hbefore
  dsimp only
  split <;> exact hports

/-! ## §6. Data of nodes and branches. -/

/-- A form that gives the ports that the node has. -/
theorem Reformed.wellFormed {α : Type} {g : Graph α} (h : g.WellFormed) {node : Node α}
    (hnode : node ∈ g.nodes) {form : Node α → Form} {d : Draft α}
    (hd : Reformed g node.id form d)
    (hports : portsOf node.kind (form node) = portsOf node.kind node.form) :
    d.graph.WellFormed := by
  have houtline : d.graph.nodes.map Node.outline = g.nodes.map Node.outline := by
    rw [hd.nodes]
    refine map_map_ite ?_ g.nodes
    exact fun _ _ => rfl
  refine h.congr (Prod.ext houtline.symm hd.edges.symm) ?_
  intro other hother
  rw [hd.nodes] at hother
  obtain ⟨before, hbefore, rfl⟩ := List.mem_map.1 hother
  have hbeforePorts := h.ports before hbefore
  by_cases hid : before.id = node.id
  · obtain rfl := h.eq_of_id hbefore hnode hid
    rw [if_pos rfl]
    exact hbeforePorts.trans hports.symm
  · rw [if_neg hid]
    exact hbeforePorts

/-- A field that is no branch field does not change the ports, whatever is
completed with it. -/
theorem portsOf_completeForm {kind : Kind} {form : Form} {key : String} (value : Json)
    (h : ¬ (kind.isBranching ∧ key ∈ branchKeys)) :
    portsOf kind (kind.completeForm (form.set key value)) = portsOf kind form := by
  cases hbranching : kind.isBranching with
  | false => exact portsOf_eq_of_not_isBranching hbranching _ _
  | true =>
      have hkey : key ∉ branchKeys := fun hkey => h ⟨hbranching, hkey⟩
      rw [Kind.completeForm_of_isBranching hbranching]
      exact portsOf_congr kind (form.sameBranches_set value hkey)

/-- **Setting a field keeps the graph well-formed.** -/
theorem wellFormed_updateConfig {α : Type} {g : Graph α} (h : g.WellFormed)
    {id key : String} {value : Json} {d : Draft α} (hok : g.updateConfig id key value = .ok d) :
    d.graph.WellFormed := by
  unfold updateConfig at hok
  obtain ⟨node, hrequire, hok⟩ := bind_eq_ok.1 hok
  obtain rfl := Except.ok.inj hok
  obtain ⟨hnode, rfl⟩ := mem_of_require hrequire
  have hd : Reformed g node.id (fun _ => node.kind.completeForm (node.form.set key value))
      ((g.draft.reviseNode node.id fun other =>
        { other with form := node.kind.completeForm (node.form.set key value) }).emit
          (.dataChanged node.id)) := ⟨rfl, rfl⟩
  -- A branch field makes the ports anew, any other one leaves them as they are.
  split
  · exact h.resyncPorts hnode hd
  · rename_i hkey
    exact hd.wellFormed h hnode (portsOf_completeForm value hkey)

/-- Setting a list of branches gives the node a new form, before its ports
are made anew. -/
theorem reformed_branches {α : Type} (g : Graph α) (id key : String) (items : List Json) :
    Reformed g id (fun other => other.form.set key (.arr items))
      ((g.draft.reviseNode id fun other =>
        { other with form := other.form.set key (.arr items) }).emit (.dataChanged id)) :=
  ⟨rfl, rfl⟩

theorem wellFormed_setBranches {α : Type} {g : Graph α} (h : g.WellFormed) {node : Node α}
    (hnode : node ∈ g.nodes) (key : String) (items : List Json) (remap : PortRemap) :
    (g.setBranches node.id key items remap).graph.WellFormed :=
  h.refreshPorts hnode (reformed_branches g node.id key items) remap

/-- Inserting a branch keeps the graph well-formed. -/
theorem wellFormed_insertBranch {α : Type} {g : Graph α} (h : g.WellFormed) {id : String}
    {index : Nat} {d : Draft α} (hok : g.insertBranch id index = .ok d) :
    d.graph.WellFormed := by
  unfold insertBranch at hok
  obtain ⟨node, hrequire, hok⟩ := bind_eq_ok.1 hok
  obtain ⟨⟨key, blank⟩, -, hok⟩ := bind_eq_ok.1 hok
  obtain ⟨-, hok⟩ := guard_eq_ok.1 hok
  obtain rfl := Except.ok.inj hok
  obtain ⟨hnode, rfl⟩ := mem_of_require hrequire
  exact wellFormed_setBranches h hnode _ _ _

/-- Removing a branch keeps the graph well-formed. -/
theorem wellFormed_removeBranch {α : Type} {g : Graph α} (h : g.WellFormed) {id : String}
    {index : Nat} {d : Draft α} (hok : g.removeBranch id index = .ok d) :
    d.graph.WellFormed := by
  unfold removeBranch at hok
  obtain ⟨node, hrequire, hok⟩ := bind_eq_ok.1 hok
  obtain ⟨⟨key, blank⟩, -, hok⟩ := bind_eq_ok.1 hok
  obtain ⟨-, hok⟩ := guard_eq_ok.1 hok
  obtain ⟨-, hok⟩ := guard_eq_ok.1 hok
  obtain rfl := Except.ok.inj hok
  obtain ⟨hnode, rfl⟩ := mem_of_require hrequire
  exact wellFormed_setBranches h hnode _ _ _

/-- Switching the error branch keeps the graph well-formed. -/
theorem wellFormed_setErrorBranch {α : Type} {g : Graph α} (h : g.WellFormed) {id : String}
    {enabled : Bool} {d : Draft α} (hok : g.setErrorBranch id enabled = .ok d) :
    d.graph.WellFormed := by
  unfold setErrorBranch at hok
  obtain ⟨node, -, hok⟩ := bind_eq_ok.1 hok
  obtain ⟨-, hok⟩ := guard_eq_ok.1 hok
  exact wellFormed_updateConfig h hok

/-! ## §7. Changes in turn. -/

/-- **No change breaks a graph.** -/
theorem WellFormed.edit {g : Graph α} (h : g.WellFormed) {change : Edit α} {d : Draft α}
    (hok : g.edit change = .ok d) : d.graph.WellFormed := by
  cases change with
  | addNode kind position =>
      obtain ⟨result, hresult, rfl⟩ := map_eq_ok.1 hok
      exact wellFormed_addNode h hresult
  | dropPayload text position =>
      obtain ⟨result, hresult, rfl⟩ := map_eq_ok.1 hok
      exact wellFormed_dropPayload h hresult
  | removeNode id =>
      obtain ⟨result, hresult, rfl⟩ := map_eq_ok.1 hok
      exact wellFormed_removeNode h hresult
  | connect source sourcePort target targetPort =>
      obtain ⟨result, hresult, rfl⟩ := map_eq_ok.1 hok
      exact wellFormed_connect h hresult
  | disconnect id =>
      obtain ⟨result, hresult, rfl⟩ := map_eq_ok.1 hok
      exact wellFormed_disconnect h hresult
  | moveNode id position =>
      obtain ⟨result, hresult, rfl⟩ := map_eq_ok.1 hok
      exact wellFormed_moveNode h hresult
  | resizeNode id size =>
      obtain ⟨result, hresult, rfl⟩ := map_eq_ok.1 hok
      exact wellFormed_resizeNode h hresult
  | renameNode id name => exact wellFormed_renameNode h hok
  | updateConfig id key value => exact wellFormed_updateConfig h hok
  | insertBranch id index => exact wellFormed_insertBranch h hok
  | removeBranch id index => exact wellFormed_removeBranch h hok
  | setErrorBranch id enabled => exact wellFormed_setErrorBranch h hok
  | setVariables vars =>
      obtain rfl := Except.ok.inj hok
      exact h.congr_unplaced rfl

theorem WellFormed.after {g : Graph α} (h : g.WellFormed) (change : Edit α) :
    (g.after change).WellFormed := by
  unfold Graph.after
  split
  · rename_i d hok
    exact h.edit hok
  · exact h

theorem WellFormed.run {g : Graph α} (h : g.WellFormed) (changes : List (Edit α)) :
    (g.run changes).WellFormed := by
  unfold Graph.run
  induction changes generalizing g with
  | nil => exact h
  | cons change changes ih => exact ih (h.after change)

end Graph

end WorkflowEditor
