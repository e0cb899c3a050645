/-
  WorkflowEditor.Proofs.Resaving
  ──────────────────────────────
  **LOADING AND SAVING MENDS A DOCUMENT ONCE.**

  Loading may leave edges out, drop containers, move children and reshape
  configurations.  What is saved then has nothing left to mend:

    • `Graph.settled_reloaded` — every child stands where it may,
    • `Graph.toStored_reloaded` — every configuration has a shape that lasts,
    • `Graph.storedEdge?_reopened` — every edge is saved as it was,
    • `Document.resaved_resaved` — so the document is saved as it is.
-/
import WorkflowEditor.Proofs.SaveReload
import WorkflowEditor.Proofs.Settling
import WorkflowEditor.Proofs.StoredShape

namespace WorkflowEditor

/-- A document that is loaded and saved. -/
def Document.resaved (doc : Document Rat) (settings : Settings Rat) :
    Except LoadError (Document Rat) :=
  Graph.toDocument <$> doc.toGraph settings

namespace Graph

variable {g : Graph Rat} {settings : Settings Rat}

/-! ## §1. A graph that was loaded. -/

/-- What holds of a graph that was loaded, besides that it is well-formed:
its children stand where they may, and its forms were read from
configurations. -/
structure Loaded (g : Graph Rat) (settings : Settings Rat) : Prop where
  wellFormed : g.WellFormed
  settings : g.settings = settings
  settled : ∀ node ∈ g.nodes, g.settled node = node
  read : ∀ node ∈ g.nodes, ∃ config : Fields, config.Keyed
    ∧ node.form = node.kind.decodeConfig config

theorem loaded_toGraph {doc : Document Rat} (settings : Settings Rat)
    (hids : (doc.nodes.map StoredNode.id).Nodup)
    (hkeyed : ∀ node ∈ doc.nodes, node.config.Keyed) :
    ∃ g, doc.toGraph settings = .ok g ∧ g.Loaded settings := by
  have hadded : addStored settings [] doc.nodes
      = .ok (doc.nodes.map (StoredNode.toNode settings)) := addStored_nil_eq_ok.2 ⟨rfl, hids⟩
  obtain ⟨g, hok, hunplaced, haside, hnodes⟩ := toGraph_settled hadded
  have hwell : g.WellFormed := wellFormed_toGraph hok
  refine ⟨g, hok, hwell, congrArg Prod.fst haside, fun node hnode => ?_, fun node hnode => ?_⟩
  · -- Its children were moved when it was loaded, and stay where they went.
    have hsettings : g.settings = settings := congrArg Prod.fst haside
    exact settled_eq_self (hwell.congr_unplaced hunplaced) hwell
      (hsettings.trans (settings_ofDocument _ _ _).symm) hnodes hnode
  · -- Its forms are as they were read: neither detaching nor moving a node changes them.
    have hmem : node.unplaced ∈ (detachNodes (doc.nodes.map (StoredNode.toNode settings))).map
        Node.unplaced := by
      rw [← nodes_ofDocument doc settings, ← (Prod.mk.inj hunplaced).1]
      exact List.mem_map_of_mem hnode
    obtain ⟨before, hbefore, heq⟩ := List.mem_map.1 hmem
    obtain ⟨loaded, hloaded, rfl⟩ := List.mem_map.1 hbefore
    obtain ⟨stored, hstored, rfl⟩ := List.mem_map.1 hloaded
    obtain ⟨-, hkind, -, -, -, hform, -⟩ := Node.mk.inj heq
    refine ⟨stored.config, hkeyed stored hstored, ?_⟩
    rw [← hform, ← hkind, Node.detach_eq]
    rfl

/-! ## §2. What is loaded of it. -/

/-- A graph that was saved and loaded, before its containers are
settled. -/
def reopened (g : Graph Rat) (settings : Settings Rat) : Graph Rat :=
  ofDocument g.toDocument settings (g.lastingNodes.map (Node.reloaded settings))

/-- All that was saved is loaded: the nodes with their containers, and the
edges but for their ids. -/
theorem reopened_eq (h : g.WellFormed) (settings : Settings Rat) :
    (g.reopened settings).nodes = g.lastingNodes.map (Node.reloaded settings)
      ∧ (g.reopened settings).edges.map Edge.content
        = (g.edges.filter fun edge => !g.atPlaceholder edge).map Edge.content := by
  let acc : Graph Rat :=
    { Graph.empty settings with
      nodes := g.lastingNodes.map (Node.reloaded settings)
      vars := g.vars
      info := g.info
      revision := 1 }
  have hacc : acc.nodes = g.lastingNodes.map (Node.reloaded settings) := rfl
  have hreopened : g.reopened settings
      = (g.edges.filterMap g.storedEdge?).foldl addStoredEdge acc := by
    unfold reopened ofDocument
    rw [detachNodes_reloaded h settings]
    show (distinctRoutes [] (g.edges.filterMap g.storedEdge?)).foldl addStoredEdge acc = _
    rw [distinctRoutes_storedEdges h]
  obtain ⟨hnodes, hedges⟩ :=
    foldl_addStoredEdge_reloaded h hacc (List.Subset.refl g.edges) h.nodup_routes
  rw [hreopened]
  exact ⟨hnodes.trans hacc, hedges⟩

/-- **Every child stands where it may**, so settling its container does not
move it. -/
theorem settled_reloaded (h : g.Loaded settings) {node : Node Rat} (hnode : node ∈ g.lastingNodes) :
    (g.reopened settings).settled (node.reloaded settings) = node.reloaded settings := by
  have hnodes := (reopened_eq h.wellFormed settings).1
  have hids : ((g.reopened settings).nodes.map Node.id).Nodup := by
    rw [hnodes]
    exact nodup_reloaded h.wellFormed settings
  have hmem := (mem_lastingNodes.1 hnode).1
  cases hcycle : node.cycle with
  | none => exact settled_of_top hcycle
  | some parent =>
      obtain ⟨container, hcontainer, rfl, hencloses⟩ := h.wellFormed.cycles node hmem parent hcycle
      have hstays := h.settled node hmem
      rw [settled_of_child h.wellFormed.nodup_ids hcontainer hcycle,
        Node.settledIn_of_child hcycle] at hstays
      -- The child was settled when it was loaded, and its container is read back where it was.
      have hposition : settings.pushed container.position node.position = node.position := by
        rw [← h.settings]
        exact (Node.mk.inj hstays).2.2.2.1
      have hcontainer' : container.reloaded settings ∈ (g.reopened settings).nodes := by
        rw [hnodes]
        exact List.mem_map_of_mem (mem_lastingNodes.2 ⟨hcontainer, hencloses.not_placeholder⟩)
      have hcycle' : (node.reloaded settings).cycle = some (container.reloaded settings).id :=
        hcycle
      have hsettings : (g.reopened settings).settings = settings := settings_ofDocument _ _ _
      rw [settled_of_child hids hcontainer' hcycle', Node.settledIn_of_child hcycle', hsettings]
      show { node.reloaded settings with
        position := settings.pushed container.position node.position } = _
      rw [hposition]
      rfl

/-! ## §3. What is saved of it again. -/

/-- **Every configuration has a shape that lasts.** -/
theorem toStored_reloaded (h : g.Loaded settings) {node : Node Rat} (hnode : node ∈ g.nodes) :
    (node.reloaded settings).toStored = node.toStored := by
  obtain ⟨config, hkeyed, hform⟩ := h.read node hnode
  have hconfig : node.kind.restored (node.kind.encodeForm node.form)
      = node.kind.encodeForm node.form := by
    rw [hform]
    exact node.kind.restored_restored hkeyed
  show { node.toStored with config := node.kind.restored (node.kind.encodeForm node.form) } = _
  rw [hconfig]
  rfl

/-- The nodes of a graph that was saved and loaded: those that were saved,
but for their sizes. -/
theorem unsized_reopened (h : g.Loaded settings) {g' : Graph Rat}
    (hnodes : g'.nodes.map Node.unsized
      = (g.reopened settings).nodes.map fun node =>
          ((g.reopened settings).settled node).unsized) :
    g'.nodes.map Node.unsized
      = (g.lastingNodes.map (Node.reloaded settings)).map Node.unsized := by
  rw [hnodes, (reopened_eq h.wellFormed settings).1, List.map_map, List.map_map]
  exact List.map_congr_left fun node hnode => congrArg Node.unsized (settled_reloaded h hnode)

/-- **The nodes are saved as they were.** -/
theorem nodes_toDocument_reopened (h : g.Loaded settings) {g' : Graph Rat}
    (hnodes : g'.nodes.map Node.unsized
      = (g.reopened settings).nodes.map fun node =>
          ((g.reopened settings).settled node).unsized) :
    g'.toDocument.nodes = g.toDocument.nodes := by
  have hview (nodes : List (Node Rat)) :
      nodes.map Node.toStored = (nodes.map Node.unsized).map Node.toStored := by
    rw [List.map_map]
    rfl
  have hstored : g'.nodes.map Node.toStored = g.lastingNodes.map Node.toStored := by
    rw [hview, unsized_reopened h hnodes, ← hview, List.map_map]
    refine List.map_congr_left fun node hnode => ?_
    exact toStored_reloaded h (mem_lastingNodes.1 hnode).1
  -- What was saved is no placeholder, so all of it is saved again.
  have hlasting : ∀ node ∈ g'.nodes, !node.kind.isPlaceholder := by
    intro node hnode
    obtain ⟨before, hbefore, heq⟩ := List.mem_map.1 (hstored ▸ List.mem_map_of_mem hnode)
    have hkind : before.kind = node.kind := congrArg StoredNode.kind heq
    rw [← hkind, (mem_lastingNodes.1 hbefore).2]
    rfl
  show (g'.nodes.filter _).map Node.toStored = g.lastingNodes.map Node.toStored
  rw [List.filter_eq_self.2 hlasting, hstored]

/-- **An edge that was saved is saved again as it was**, under the same
branch of the same node. -/
theorem storedEdge?_reopened (h : g.WellFormed) {g' : Graph Rat} (h' : g'.WellFormed)
    (hunplaced : g'.unplaced = (g.reopened settings).unplaced) {edge : Edge}
    (hedge : edge ∈ g.edges) (hlasting : g.atPlaceholder edge = false) :
    g'.storedEdge? edge = g.storedEdge? edge := by
  have halike {node : Node Rat} (hnode : node ∈ g.nodes) (hkind : node.kind.isPlaceholder = false) :
      ∃ other ∈ g'.nodes, node.Alike other := by
    have hmem : node.reloaded settings ∈ (g.reopened settings).nodes := by
      rw [(reopened_eq h settings).1]
      exact List.mem_map_of_mem (mem_lastingNodes.2 ⟨hnode, hkind⟩)
    obtain ⟨other, hother, halike⟩ :=
      exists_alike (outline_eq_of_unplaced hunplaced).symm hmem
    have hports := node.reloaded_ports settings (h.ports node hnode)
    exact ⟨other, hother, halike.id, halike.kind, halike.cycle, hports.symm.trans halike.ports⟩
  obtain ⟨source, hsource, target, htarget, hjoins⟩ := h.edges edge hedge
  have hplain := hlasting
  rw [atPlaceholder_eq h hsource htarget hjoins, Bool.or_eq_false_iff] at hplain
  obtain ⟨source', hsource', hsame⟩ := halike hsource hplain.1
  obtain ⟨target', htarget', hsame'⟩ := halike htarget hplain.2
  have hjoins' := hjoins.congr hsame hsame'
  have hlasting' : g'.atPlaceholder edge = false := by
    rw [atPlaceholder_eq h' hsource' htarget' hjoins', ← hsame.kind, ← hsame'.kind, hplain.1,
      hplain.2]
    rfl
  rw [storedEdge?_eq h hsource htarget hjoins, storedEdge?_eq h' hsource' htarget' hjoins',
    hlasting, hlasting', hsame.kind]

/-- **The edges are saved as they were.** -/
theorem edges_toDocument_reopened (h : g.WellFormed) {g' : Graph Rat} (h' : g'.WellFormed)
    (hunplaced : g'.unplaced = (g.reopened settings).unplaced) :
    g'.toDocument.edges = g.toDocument.edges := by
  have hcontents : g'.edges.map Edge.content
      = (g.edges.filter fun edge => !g.atPlaceholder edge).map Edge.content := by
    rw [(Prod.mk.inj hunplaced).2]
    exact (reopened_eq h settings).2
  -- An edge is saved without its id, so that it has another one now makes no difference.
  have hview (edges : List Edge) :
      edges.filterMap g'.storedEdge? = (edges.map Edge.content).filterMap g'.storedEdge? := by
    rw [List.filterMap_map]
    rfl
  show distinctRoutes [] (g'.edges.filterMap g'.storedEdge?)
    = distinctRoutes [] (g.edges.filterMap g.storedEdge?)
  rw [distinctRoutes_storedEdges h, distinctRoutes_storedEdges h', hview, hcontents, ← hview,
    List.filterMap_filter]
  refine List.filterMap_congr fun edge hedge => ?_
  cases hlasting : g.atPlaceholder edge with
  | false => exact storedEdge?_reopened h h' hunplaced hedge hlasting
  | true =>
      obtain ⟨source, hsource, target, htarget, hjoins⟩ := h.edges edge hedge
      rw [storedEdge?_eq h hsource htarget hjoins, hlasting]
      rfl

end Graph

/-! ## §4. Documents. -/

/-- **Loading and saving twice is the same as doing it once**: a document
with distinct node ids is loaded, and what is saved of it is saved as it is
when it is loaded again.  A configuration is an object, so its keys are
distinct (`keyed_of_ofText`). -/
theorem Document.resaved_resaved {doc : Document Rat} (settings : Settings Rat)
    (hids : (doc.nodes.map StoredNode.id).Nodup)
    (hkeyed : ∀ node ∈ doc.nodes, node.config.Keyed) :
    ∃ saved, doc.resaved settings = .ok saved ∧ saved.resaved settings = .ok saved := by
  obtain ⟨g, hok, hloaded⟩ := Graph.loaded_toGraph settings hids hkeyed
  have hwell := hloaded.wellFormed
  obtain ⟨g', hok', hunplaced, haside, hnodes⟩ :=
    Graph.toGraph_settled (Graph.addStored_toDocument hwell settings)
  have hwell' : g'.WellFormed := Graph.wellFormed_toGraph hok'
  have hsame : g'.toDocument = g.toDocument := by
    have hinfo : g'.info = g.info := congrArg (fun aside => aside.2.1) haside
    have hvars : g'.vars = g.vars := congrArg (fun aside => aside.2.2) haside
    have hnodes' := Graph.nodes_toDocument_reopened hloaded hnodes
    have hedges' := Graph.edges_toDocument_reopened hwell hwell' hunplaced
    show Document.mk g'.info g'.toDocument.nodes g'.toDocument.edges g'.vars
      = Document.mk g.info g.toDocument.nodes g.toDocument.edges g.vars
    rw [hinfo, hvars, hnodes', hedges']
  refine ⟨g.toDocument, map_eq_ok.2 ⟨g, hok, rfl⟩, map_eq_ok.2 ⟨g', hok', hsame⟩⟩

/-- A document with much to mend: a child that stands outside of its
container, a container that is none, a memory with a message of its own, and
an edge that leads nowhere. -/
theorem Document.resaved_resaved_mended :
    let config : Fields :=
      [("memory", .obj [("enable", .bool true), ("messages", .str "last")])]
    let doc : Document Rat :=
      { info := .blank
        nodes :=
          [⟨"ring", .loop, none, some ⟨10, 20⟩, [], none, []⟩,
            ⟨"first", .cycleStart, none, some ⟨0, 900⟩, [], some "ring", []⟩,
            ⟨"deep", .llm, none, some ⟨0, 0⟩, config, some "first", []⟩]
        edges := [⟨"first", "nowhere", none, []⟩]
        vars := [] }
    (doc.nodes.map StoredNode.id).Nodup ∧ (∀ node ∈ doc.nodes, node.config.Keyed)
      ∧ (∃ saved, doc.resaved .standard = .ok saved ∧ saved.resaved .standard = .ok saved)
      ∧ (doc.resaved .standard).toOption.map
          (fun saved => (saved.nodes.map StoredNode.position, saved.nodes.map StoredNode.cycle,
            saved.edges.length))
        = some ([some ⟨10, 20⟩, some ⟨34, 900⟩, some ⟨0, 0⟩], [none, some "ring", none], 0) := by
  intro config doc
  have hids : (doc.nodes.map StoredNode.id).Nodup := by decide +kernel
  have hconfig : config.Keyed := by
    refine .obj (by decide +kernel) fun entry hentry => ?_
    rw [List.mem_singleton.1 hentry]
    refine .obj (by decide +kernel) fun entry hentry => ?_
    rcases List.mem_cons.1 hentry with rfl | hentry
    · exact .bool true
    · rw [List.mem_singleton.1 hentry]
      exact .str "last"
  have hkeyed : ∀ node ∈ doc.nodes, node.config.Keyed := by
    intro node hnode
    simp only [doc, List.mem_cons, List.not_mem_nil, or_false] at hnode
    rcases hnode with rfl | rfl | rfl
    · exact Fields.keyed_nil
    · exact Fields.keyed_nil
    · exact hconfig
  exact ⟨hids, hkeyed, resaved_resaved .standard hids hkeyed, by decide +kernel⟩

end WorkflowEditor
