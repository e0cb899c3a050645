/-
  WorkflowEditor.Proofs.SaveReload
  ────────────────────────────────
  **SAVING AND LOADING LOSES NOTHING.**

  Saving and loading go by different rules: an edge is saved under a branch
  and loaded by it, doubles are left out on either side, and loading drops
  what could not be made by hand.  On a well-formed graph they agree, and
  only placeholders and the edges at them are lost:

    • `detachNodes_reloaded` — no node loses its container,
    • `distinctRoutes_storedEdges` — no edge is saved like another one,
    • `exitFor?_edgeLabel?` — an edge is loaded at the port that it left by,
    • `foldl_addStoredEdge_reloaded` — so all edges come back, in order,
    • `toGraph_toDocument` — and so does the graph.
-/
import WorkflowEditor.Graph.Save
import WorkflowEditor.Proofs.Loading

namespace WorkflowEditor

variable {α : Type}

/-! ## §1. What comes back. -/

/-- A node without its place and its form. -/
def Node.content (node : Node α) : Node Unit := { node.unplaced with form := .empty }

/-- An edge without its id. -/
def Edge.content (edge : Edge) : Edge := { edge with id := "" }

namespace Graph

/-- The nodes of a graph that are no placeholders. -/
def lastingNodes (g : Graph α) : List (Node α) :=
  g.nodes.filter fun node => !node.kind.isPlaceholder

/-- Whether an edge begins or ends at a placeholder. -/
def atPlaceholder (g : Graph α) (edge : Edge) : Bool :=
  g.nodes.any fun node => node.kind.isPlaceholder && edge.touches node.id

theorem mem_lastingNodes {g : Graph α} {node : Node α} :
    node ∈ g.lastingNodes ↔ node ∈ g.nodes ∧ node.kind.isPlaceholder = false := by
  unfold lastingNodes
  rw [List.mem_filter]
  simp

/-- An edge is at a placeholder if one of the nodes that it joins is
one. -/
theorem atPlaceholder_eq {g : Graph α} (h : g.WellFormed) {edge : Edge}
    {source target : Node α} (hsource : source ∈ g.nodes) (htarget : target ∈ g.nodes)
    (hjoins : edge.Joins source target) :
    g.atPlaceholder edge = (source.kind.isPlaceholder || target.kind.isPlaceholder) := by
  unfold atPlaceholder Edge.touches
  rw [Bool.eq_iff_iff, List.any_eq_true, Bool.or_eq_true]
  constructor
  · rintro ⟨node, hnode, htouches⟩
    simp only [Bool.and_eq_true, Bool.or_eq_true, beq_iff_eq] at htouches
    rcases htouches with ⟨hplaceholder, hid | hid⟩
    · obtain rfl := h.eq_of_id hnode hsource (hid.symm.trans hjoins.source_id.symm)
      exact Or.inl hplaceholder
    · obtain rfl := h.eq_of_id hnode htarget (hid.symm.trans hjoins.target_id.symm)
      exact Or.inr hplaceholder
  · rintro (hplaceholder | hplaceholder)
    · exact ⟨source, hsource, by simp [hplaceholder, hjoins.source_id]⟩
    · exact ⟨target, htarget, by simp [hplaceholder, hjoins.target_id]⟩

end Graph

/-- A container is no placeholder, so it is saved with what it encloses. -/
theorem Node.Encloses.not_placeholder {node : Node α} (h : node.Encloses) :
    node.kind.isPlaceholder = false := by
  have hcontainer := h.container
  cases hkind : node.kind with
  | loop | iteration => rfl
  | _ =>
      rw [hkind] at hcontainer
      cases hcontainer

/-! ## §2. Nodes. -/

section Nodes

variable [Coordinate α]

/-- A node that was saved and loaded. -/
def Node.reloaded (settings : Settings α) (node : Node α) : Node α :=
  node.toStored.toNode settings

theorem Node.reloaded_ports (settings : Settings α) {node : Node α}
    (h : node.ports = portsOf node.kind node.form) :
    (node.reloaded settings).ports = node.ports :=
  (portsOf_storedForm node.kind node.form).trans h.symm

theorem Node.reloaded_content (settings : Settings α) {node : Node α}
    (h : node.ports = portsOf node.kind node.form) :
    (node.reloaded settings).content = node.content := by
  have hports := node.reloaded_ports settings h
  unfold content unplaced
  rw [hports]
  rfl

theorem Node.reloaded_portIds (settings : Settings α) {node : Node α}
    (h : node.ports = portsOf node.kind node.form) (side : Side) :
    (node.reloaded settings).portIds side = node.portIds side := by
  unfold portIds portsOn
  rw [node.reloaded_ports settings h]

namespace Graph

theorem nodup_reloaded {g : Graph α} (h : g.WellFormed) (settings : Settings α) :
    ((g.lastingNodes.map (Node.reloaded settings)).map Node.id).Nodup := by
  rw [List.map_map]
  exact h.nodup_ids.sublist (List.filter_sublist.map Node.id)

/-- **No node loses its container.** -/
theorem detachNodes_reloaded {g : Graph α} (h : g.WellFormed) (settings : Settings α) :
    detachNodes (g.lastingNodes.map (Node.reloaded settings))
      = g.lastingNodes.map (Node.reloaded settings) := by
  have hsame : ∀ other ∈ g.lastingNodes.map (Node.reloaded settings),
      other.detach (g.lastingNodes.map (Node.reloaded settings)) = other := by
    intro other hother
    obtain ⟨node, hnode, rfl⟩ := List.mem_map.1 hother
    have hmem := (mem_lastingNodes.1 hnode).1
    cases hcycle : node.cycle with
    | none => exact Node.detach_of_top _ hcycle
    | some parent =>
        -- The container of a node is saved with it, and is one when it is loaded.
        obtain ⟨container, hcontainer, hid, hencloses⟩ := h.cycles node hmem parent hcycle
        have hlasting : container ∈ g.lastingNodes :=
          mem_lastingNodes.2 ⟨hcontainer, hencloses.not_placeholder⟩
        have htop : isTopContainer (g.lastingNodes.map (Node.reloaded settings)) parent :=
          (isTopContainer_iff (nodup_reloaded h settings)).2
            ⟨_, List.mem_map_of_mem hlasting, hid, hencloses.container, hencloses.top⟩
        have hplain : node.kind.isContainer = false := by
          cases hkind : node.kind.isContainer with
          | false => rfl
          | true =>
              rw [h.containers node hmem hkind] at hcycle
              cases hcycle
        exact Node.detach_of_enclosed hcycle hplain htop
  exact (List.map_congr_left hsame).trans (List.map_id _)

end Graph

end Nodes

/-! ## §3. Edges as they are saved. -/

namespace Graph

/-- An edge is saved under its branch, unless it is at a placeholder. -/
theorem storedEdge?_eq {g : Graph α} (h : g.WellFormed) {edge : Edge} {source target : Node α}
    (hsource : source ∈ g.nodes) (htarget : target ∈ g.nodes)
    (hjoins : edge.Joins source target) :
    g.storedEdge? edge
      = if g.atPlaceholder edge then none
        else some
          ⟨edge.source, edge.target, edgeLabel? source.kind edge.sourcePort, edge.extra⟩ := by
  have hsaved : g.savedNode? edge.source
      = if source.kind.isPlaceholder then none else some source := by
    unfold savedNode?
    rw [← hjoins.source_id, h.node?_of_mem hsource]
    cases hkind : source.kind.isPlaceholder <;> simp [Option.filter, hkind]
  have hsaved' : g.savedNode? edge.target
      = if target.kind.isPlaceholder then none else some target := by
    unfold savedNode?
    rw [← hjoins.target_id, h.node?_of_mem htarget]
    cases hkind : target.kind.isPlaceholder <;> simp [Option.filter, hkind]
  unfold storedEdge?
  rw [hsaved, hsaved', atPlaceholder_eq h hsource htarget hjoins]
  cases source.kind.isPlaceholder <;> cases target.kind.isPlaceholder <;> rfl

/-- What an edge that is saved is saved as. -/
theorem exists_of_storedEdge? {g : Graph α} (h : g.WellFormed) {edge : Edge}
    (hedge : edge ∈ g.edges) {stored : StoredEdge} (hstored : g.storedEdge? edge = some stored) :
    ∃ source ∈ g.nodes, ∃ target ∈ g.nodes, edge.Joins source target
      ∧ stored
        = ⟨edge.source, edge.target, edgeLabel? source.kind edge.sourcePort, edge.extra⟩ := by
  obtain ⟨source, hsource, target, htarget, hjoins⟩ := h.edges edge hedge
  rw [storedEdge?_eq h hsource htarget hjoins] at hstored
  split at hstored
  · cases hstored
  · exact ⟨source, hsource, target, htarget, hjoins, (Option.some.inj hstored).symm⟩

/-- Two edges that would be saved alike take the same route. -/
theorem route_of_sameRoute {g : Graph α} (h : g.WellFormed) {edge other : Edge}
    (hedge : edge ∈ g.edges) (hother : other ∈ g.edges) {stored stored' : StoredEdge}
    (hstored : g.storedEdge? edge = some stored) (hstored' : g.storedEdge? other = some stored')
    (hsame : stored'.sameRoute stored) : edge.route = other.route := by
  obtain ⟨source, hsource, _, _, hjoins, rfl⟩ := exists_of_storedEdge? h hedge hstored
  obtain ⟨source', hsource', _, _, hjoins', rfl⟩ := exists_of_storedEdge? h hother hstored'
  unfold StoredEdge.sameRoute at hsame
  simp only [Bool.and_eq_true, beq_iff_eq] at hsame
  obtain ⟨⟨hsources, htargets⟩, hlabels⟩ := hsame
  -- Both leave the same node, and no two ports of that have one label.
  have hid : source.id = source'.id := by
    rw [hjoins.source_id, hjoins'.source_id, hsources]
  obtain rfl := h.eq_of_id hsource hsource' hid
  have hports := Node.portIds_right (h.ports source hsource)
  have hport : edge.sourcePort = other.sourcePort :=
    edgeLabel?_injective (hports ▸ hjoins.leaves) (hports ▸ hjoins'.leaves) hlabels.symm
  exact Edge.route_eq_iff.2 ⟨hsources.symm, hport, htargets.symm⟩

theorem distinctRoutes_eq_self {seen edges : List StoredEdge}
    (hseen : ∀ edge ∈ edges, ∀ other ∈ seen, ¬ edge.sameRoute other)
    (hedges : edges.Pairwise fun edge other => ¬ other.sameRoute edge) :
    distinctRoutes seen edges = edges := by
  -- What was seen grows by the edge that is kept, which is like none behind it.
  induction edges generalizing seen with
  | nil => rfl
  | cons edge edges ih =>
      obtain ⟨hfirst, hrest⟩ := List.pairwise_cons.1 hedges
      have hnew : ¬ seen.any edge.sameRoute := by
        rw [List.any_eq_true]
        rintro ⟨other, hother, hsame⟩
        exact hseen edge List.mem_cons_self other hother hsame
      unfold distinctRoutes
      rw [if_neg hnew, ih ?_ hrest]
      intro next hnext other hother
      rcases List.mem_cons.1 hother with rfl | hother
      · exact hfirst next hnext
      · exact hseen next (List.mem_cons_of_mem _ hnext) other hother

/-- **No edge is saved like another one**, so none is left out. -/
theorem distinctRoutes_storedEdges {g : Graph α} (h : g.WellFormed) :
    distinctRoutes [] (g.edges.filterMap g.storedEdge?) = g.edges.filterMap g.storedEdge? := by
  refine distinctRoutes_eq_self (fun _ _ _ hnone => nomatch hnone) ?_
  have hroutes : g.edges.Pairwise fun edge other => edge.route ≠ other.route :=
    List.pairwise_map.1 h.nodup_routes
  refine List.pairwise_filterMap.2 (hroutes.imp_of_mem ?_)
  intro edge other hedge hother hne stored hstored stored' hstored' hsame
  exact hne (route_of_sameRoute h hedge hother hstored hstored' hsame)

/-! ## §4. Edges as they are loaded. -/

/-- **An edge is loaded at the port that it left by.** -/
theorem exitFor?_edgeLabel? {node : Node α} (h : node.ports = portsOf node.kind node.form)
    {port : String} (hport : port ∈ node.portIds .right) :
    node.exitFor? (edgeLabel? node.kind port) = some port := by
  have hids := Node.portIds_right h
  unfold Node.exitFor?
  dsimp only
  rcases edgeLabel?_cases (hids ▸ hport) with hlabel | ⟨hlabel, honly⟩
  · have hfound : (node.portIds .right).find? (fun id => id == port) = some port := by
      cases hfind : (node.portIds .right).find? fun id => id == port with
      | none => exact absurd (List.find?_eq_none.1 hfind port hport) (by simp)
      | some found =>
          obtain rfl : found = port := by simpa using List.find?_some hfind
          rfl
    rw [hlabel]
    show ((node.portIds .right).find? (fun id => id == port) <|> _) = _
    rw [hfound]
    rfl
  · rw [hlabel, hids, honly]
    rfl

theorem head?_left {node : Node α} (h : node.ports = portsOf node.kind node.form)
    {port : String} (hport : port ∈ node.portIds .left) :
    (node.portIds .left).head? = some port := by
  have hentry := Node.eq_entry_of_mem h hport
  cases hhead : (node.portIds .left).head? with
  | none =>
      rw [List.head?_eq_none_iff.1 hhead] at hport
      cases hport
  | some first => rw [hentry, Node.eq_entry_of_mem h (List.mem_of_head? hhead)]

theorem ofStoredEdge?_eq {g : Graph α} {stored : StoredEdge} {source target : Node α}
    (hsource : g.node? stored.source = some source) (htarget : g.node? stored.target = some target)
    (hends : checkEnds source target = .ok ()) {exit entry : String}
    (hexit : source.exitFor? stored.label = some exit)
    (hentry : (target.portIds .left).head? = some entry)
    (hfree : (stored.source, exit, stored.target) ∉ g.edges.map Edge.route) :
    ∃ id, g.ofStoredEdge? stored
      = some ⟨id, stored.source, exit, stored.target, entry, stored.extra⟩ := by
  unfold ofStoredEdge?
  rw [hsource, htarget]
  dsimp only [bind, Option.bind]
  rw [hends, hexit, hentry]
  dsimp only [Except.toOption]
  rw [if_neg fun hknown => hfree (any_route_iff.1 hknown)]
  exact ⟨_, rfl⟩

section Reloading

variable [Coordinate α] {g acc : Graph α} {settings : Settings α}

theorem node?_reloaded (h : g.WellFormed)
    (hnodes : acc.nodes = g.lastingNodes.map (Node.reloaded settings)) {node : Node α}
    (hnode : node ∈ g.lastingNodes) : acc.node? node.id = some (node.reloaded settings) := by
  refine (node?_eq_some_iff ?_).2 ⟨?_, rfl⟩
  · rw [hnodes]
    exact nodup_reloaded h settings
  · rw [hnodes]
    exact List.mem_map_of_mem hnode

/-- An edge that was saved comes back behind those that are there. -/
theorem addStoredEdge_reloaded (h : g.WellFormed)
    (hnodes : acc.nodes = g.lastingNodes.map (Node.reloaded settings)) {edge : Edge}
    (hedge : edge ∈ g.edges) (hlasting : g.atPlaceholder edge = false)
    (hfree : edge.route ∉ acc.edges.map Edge.route) :
    ∃ stored id, g.storedEdge? edge = some stored
      ∧ acc.addStoredEdge stored
        = { acc with edges := acc.edges ++ [{ edge with id := id }] } := by
  obtain ⟨source, hsource, target, htarget, hjoins⟩ := h.edges edge hedge
  have hplain := hlasting
  rw [atPlaceholder_eq h hsource htarget hjoins, Bool.or_eq_false_iff] at hplain
  have hfound : acc.node? edge.source = some (source.reloaded settings) := by
    rw [← hjoins.source_id]
    exact node?_reloaded h hnodes
      (mem_lastingNodes.2 ⟨hsource, hplain.1⟩)
  have hfound' : acc.node? edge.target = some (target.reloaded settings) := by
    rw [← hjoins.target_id]
    exact node?_reloaded h hnodes
      (mem_lastingNodes.2 ⟨htarget, hplain.2⟩)
  -- A node that is read back has the ports it had, so the checks of the loader pass.
  have hends : checkEnds (source.reloaded settings) (target.reloaded settings) = .ok () :=
    checkEnds_eq_ok.2 ⟨hjoins.distinct, hjoins.accepts, hjoins.emits, hjoins.same_cycle⟩
  have hexit : (source.reloaded settings).exitFor? (edgeLabel? source.kind edge.sourcePort)
      = some edge.sourcePort := by
    have hleaves : edge.sourcePort ∈ (source.reloaded settings).portIds .right := by
      rw [Node.reloaded_portIds settings (h.ports source hsource)]
      exact hjoins.leaves
    exact exitFor?_edgeLabel? (StoredNode.toNode_ports settings _) hleaves
  have hentry : ((target.reloaded settings).portIds .left).head? = some edge.targetPort := by
    rw [Node.reloaded_portIds settings (h.ports target htarget)]
    exact head?_left (h.ports target htarget) hjoins.enters
  let stored : StoredEdge :=
    ⟨edge.source, edge.target, edgeLabel? source.kind edge.sourcePort, edge.extra⟩
  obtain ⟨id, hloaded⟩ : ∃ id, acc.ofStoredEdge? stored = some { edge with id := id } :=
    ofStoredEdge?_eq hfound hfound' hends hexit hentry hfree
  refine ⟨stored, id, ?_, ?_⟩
  · rw [storedEdge?_eq h hsource htarget hjoins, hlasting]
    rfl
  · unfold addStoredEdge
    rw [hloaded]

/-- **All edges that were saved come back, in order.** -/
theorem foldl_addStoredEdge_reloaded (h : g.WellFormed)
    (hnodes : acc.nodes = g.lastingNodes.map (Node.reloaded settings)) {edges : List Edge}
    (hedges : edges ⊆ g.edges) (hroutes : ((acc.edges ++ edges).map Edge.route).Nodup) :
    ((edges.filterMap g.storedEdge?).foldl addStoredEdge acc).nodes = acc.nodes
      ∧ ((edges.filterMap g.storedEdge?).foldl addStoredEdge acc).edges.map Edge.content
        = (acc.edges ++ edges.filter fun edge => !g.atPlaceholder edge).map Edge.content := by
  induction edges generalizing acc with
  | nil =>
      rw [List.filter_nil, List.append_nil]
      exact ⟨rfl, rfl⟩
  | cons edge edges ih =>
      obtain ⟨hedge, hrest⟩ := List.cons_subset.1 hedges
      cases hlasting : g.atPlaceholder edge with
      | true =>
          -- The edge is not saved, so nothing is loaded for it.
          have hnone : g.storedEdge? edge = none := by
            obtain ⟨source, hsource, target, htarget, hjoins⟩ := h.edges edge hedge
            rw [storedEdge?_eq h hsource htarget hjoins, if_pos hlasting]
          have hroutes' : ((acc.edges ++ edges).map Edge.route).Nodup :=
            hroutes.sublist (((List.sublist_cons_self edge edges).append_left _).map _)
          rw [List.filterMap_cons_none hnone, List.filter_cons_of_neg (by simp [hlasting])]
          exact ih hnodes hrest hroutes'
      | false =>
          -- The edge is saved, and its route is not taken by those before it.
          have hfree : edge.route ∉ acc.edges.map Edge.route := by
            intro htaken
            rw [List.map_append] at hroutes
            exact (List.nodup_append.1 hroutes).2.2 _ htaken _ (by simp) rfl
          obtain ⟨stored, id, hstored, hadd⟩ :=
            addStoredEdge_reloaded h hnodes hedge hlasting hfree
          let next : Graph α := { acc with edges := acc.edges ++ [{ edge with id := id }] }
          have hroutes' : ((next.edges ++ edges).map Edge.route).Nodup := by
            show ((acc.edges ++ [{ edge with id := id }] ++ edges).map Edge.route).Nodup
            rw [List.append_assoc, List.map_append] at *
            exact hroutes
          have hnext : next.nodes = g.lastingNodes.map (Node.reloaded settings) := hnodes
          obtain ⟨hnodes', hcontents⟩ := ih hnext hrest hroutes'
          rw [List.filterMap_cons_some hstored, List.foldl_cons, hadd,
            List.filter_cons_of_pos (by simp [hlasting])]
          refine ⟨hnodes', hcontents.trans ?_⟩
          show (acc.edges ++ [{ edge with id := id }] ++ _).map Edge.content = _
          simp [Edge.content]

end Reloading

end Graph

/-! ## §5. The graph comes back. -/

namespace Graph

theorem contents_of_unplaced {g g' : Graph α} (h : g.unplaced = g'.unplaced) :
    g.nodes.map Node.content = g'.nodes.map Node.content := by
  have hmap (nodes : List (Node α)) : nodes.map Node.content
      = (nodes.map Node.unplaced).map fun node => { node with form := .empty } := by
    rw [List.map_map]
    rfl
  rw [hmap, hmap, (Prod.mk.inj h).1]

variable [Coordinate α]

/-- What was saved has distinct ids, so all of it is loaded. -/
theorem addStored_toDocument {g : Graph α} (h : g.WellFormed) (settings : Settings α) :
    addStored settings [] g.toDocument.nodes
      = .ok (g.lastingNodes.map (Node.reloaded settings)) := by
  have hsaved : (g.toDocument.nodes.map (StoredNode.toNode settings))
      = g.lastingNodes.map (Node.reloaded settings) := List.map_map
  refine addStored_nil_eq_ok.2 ⟨hsaved.symm, ?_⟩
  have hnodup := nodup_reloaded h settings
  rwa [← hsaved, List.map_map] at hnodup

/-- **Saving and loading a graph brings back every node that is no
placeholder and every edge that is at none**, in order, with all that is
stored of them: of nodes the id, kind, name, container, ports and unknown
fields, of edges the ends, ports and unknown fields. -/
theorem toGraph_toDocument {g : Graph α} (h : g.Reachable) (settings : Settings α) :
    ∃ g', g.toDocument.toGraph settings = .ok g'
      ∧ g'.nodes.map Node.content
        = (g.nodes.filter fun node => !node.kind.isPlaceholder).map Node.content
      ∧ g'.edges.map Edge.content
        = (g.edges.filter fun edge => !g.atPlaceholder edge).map Edge.content := by
  have hwell := h.wellFormed
  obtain ⟨g', hok, hunplaced⟩ := toGraph_of_addStored (addStored_toDocument hwell settings)
  -- Before its containers are settled the graph has the nodes and edges that were saved.
  let acc : Graph α :=
    { Graph.empty settings with
      nodes := g.lastingNodes.map (Node.reloaded settings)
      vars := g.vars
      info := g.info
      revision := 1 }
  have hloaded : ofDocument g.toDocument settings (g.lastingNodes.map (Node.reloaded settings))
      = (g.edges.filterMap g.storedEdge?).foldl addStoredEdge acc := by
    unfold ofDocument
    rw [detachNodes_reloaded hwell settings]
    show (distinctRoutes [] (g.edges.filterMap g.storedEdge?)).foldl addStoredEdge acc = _
    rw [distinctRoutes_storedEdges hwell]
  have hacc : acc.nodes = g.lastingNodes.map (Node.reloaded settings) := rfl
  obtain ⟨hnodes, hedges⟩ :=
    foldl_addStoredEdge_reloaded hwell hacc (List.Subset.refl g.edges) hwell.nodup_routes
  refine ⟨g', hok, ?_, ?_⟩
  · rw [contents_of_unplaced hunplaced, hloaded, hnodes]
    show (g.lastingNodes.map (Node.reloaded settings)).map Node.content = _
    rw [List.map_map]
    apply List.map_congr_left
    intro node hnode
    exact node.reloaded_content settings (hwell.ports node (mem_lastingNodes.1 hnode).1)
  · rw [(Prod.mk.inj hunplaced).2, hloaded]
    exact hedges

/-- A graph with a placeholder: the edge to it is lost, the other one comes
back at its branch. -/
theorem toGraph_toDocument_placeholder :
    let changes : List (Edit Rat) :=
      [.addNode .ifElse ⟨0, 0⟩, .addNode .addNode ⟨300, 0⟩, .addNode .llm ⟨300, 200⟩,
        .connect "if_else_1" none "add_node_1" none,
        .connect "if_else_1" (some "CASE2") "llm_1" none]
    let g := (Graph.empty .standard).run changes
    (∃ g', g.toDocument.toGraph g.settings = .ok g'
        ∧ g'.nodes.map Node.content
          = (g.nodes.filter fun node => !node.kind.isPlaceholder).map Node.content
        ∧ g'.edges.map Edge.content
          = (g.edges.filter fun edge => !g.atPlaceholder edge).map Edge.content)
      ∧ (g.edges.filter fun edge => !g.atPlaceholder edge).map Edge.route
        = [("if_else_1", "CASE2", "llm_1")] := by
  intro changes g
  have hreachable : g.Reachable := ⟨_, changes, .empty .standard, rfl⟩
  exact ⟨toGraph_toDocument hreachable g.settings, by decide +kernel⟩

end Graph

end WorkflowEditor
