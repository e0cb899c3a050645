/-
  WorkflowEditor.Proofs.EdgeIds
  ─────────────────────────────
  **EDGES ARE TOLD APART BY THEIR IDS.**

  No change gives two edges one id, so the edges of a graph that was built
  by hand are told apart by their ids, and cutting one cuts no other.
  Loading is not as careful: an edge that cannot have an id of its own gets
  one that is composed of its route, whether that is free or not.

    • `nextEdgeNumber_not_mem` — a new edge has a free id,
    • `EdgesBecome`, `Applied.edges` — all that a change can do to the edges,
    • `ComposesApart`, `nodup_edgeIds_toGraph` — loading keeps ids distinct if
      no edge has the id that is composed for another route,
    • `disconnect_cuts_one` — so each edge can be cut on its own,
    • `disconnect_cuts_two` — and what happens if a composed id is taken.
-/
import WorkflowEditor.Proofs.Applied
import WorkflowEditor.Proofs.Loading

namespace WorkflowEditor

/-! ## §1. Free ids. -/

namespace Graph

section FreeIds

variable {α : Type}

theorem edge?_eq_none_iff {g : Graph α} {id : String} :
    g.edge? id = none ↔ id ∉ g.edges.map Edge.id := by
  unfold edge?
  rw [List.find?_eq_none]
  simp

theorem edgeId_injective {m n : Nat} (h : edgeId m = edgeId n) : m = n := by
  have hlist := congrArg String.toList h
  simp only [edgeId, String.toList_append] at hlist
  exact toString_injective (String.toList_inj.1 (List.append_cancel_left hlist))

/-- **A new edge gets an id that is free.** -/
theorem nextEdgeNumber_not_mem (g : Graph α) :
    edgeId g.nextEdgeNumber ∉ g.edges.map Edge.id := by
  have hfree : ∀ number, (g.edge? (edgeId number)).isNone
      ↔ edgeId number ∉ g.edges.map Edge.id := fun number => by
    rw [Option.isNone_iff_eq_none, edge?_eq_none_iff]
  have hnodup : (((List.range (g.edges.length + 1)).map fun i =>
      g.edgeCounter + 1 + i).map edgeId).Nodup := by
    rw [List.map_map]
    exact List.nodup_range.map fun i j h => Nat.add_left_cancel (edgeId_injective h)
  exact free_of_find? hfree hnodup (by simp) (g.edgeCounter + 1)

end FreeIds

/-! ## §2. What a change does to the edges. -/

section Changes

variable {α : Type}

/-- All that a change can do to the edges of a graph. -/
inductive EdgesBecome (g : Graph α) : List Edge → Prop
  | kept : EdgesBecome g g.edges
  | cut (gone : Edge → Bool) : EdgesBecome g (g.edges.filter fun edge => !gone edge)
  | made {edge : Edge} : edge.id ∉ g.edges.map Edge.id → EdgesBecome g (g.edges ++ [edge])
  | putBack {edges : List Edge} (id : String) (old new : List String) (remap : PortRemap) :
      edges.Perm (g.edges.filterMap (Edge.reattached? id old new remap)) → EdgesBecome g edges

theorem edges_of_unplaced {g g' : Graph α} (h : g.unplaced = g'.unplaced) : g.edges = g'.edges :=
  congrArg Prod.snd h

theorem EdgesBecome.of_edges_eq {g : Graph α} {edges : List Edge} (h : edges = g.edges) :
    EdgesBecome g edges := h ▸ .kept

theorem edgesBecome_refreshPorts {g : Graph α} {d : Draft α} (hd : d.graph.edges = g.edges)
    (id : String) (remap : PortRemap) :
    EdgesBecome g (d.refreshPorts id remap).graph.edges := by
  cases hnode : d.graph.node? id with
  | none =>
      unfold Draft.refreshPorts
      rw [hnode]
      exact .of_edges_eq hd
  | some node => exact .putBack _ _ _ _ (hd ▸ d.refreshPorts_edges remap hnode)

theorem edgesBecome_resyncPorts {g : Graph α} {d : Draft α} (hd : d.graph.edges = g.edges)
    (id : String) : EdgesBecome g (d.resyncPorts id).graph.edges := by
  unfold Draft.resyncPorts
  split
  · exact .of_edges_eq hd
  · exact edgesBecome_refreshPorts hd _ _

variable [Coordinate α]

theorem edges_fitEnclosing (d : Draft α) (cycle : Option String) :
    (d.fitEnclosing cycle).graph.edges = d.graph.edges :=
  edges_of_unplaced (d.unplaced_fitEnclosing cycle)

/-- **A change keeps the edges, cuts some, makes one under a free id, or puts
them back at other ports.** -/
theorem Applied.edges {g : Graph α} {made : Kind → Prop} {d : Draft α} (h : g.Applied made d) :
    EdgesBecome g d.graph.edges := by
  cases h with
  | added => exact .of_edges_eq (edges_fitEnclosing _ _)
  | opened => exact .kept
  | removed =>
      -- Dropping the nodes and fitting the container leave the edges that were not cut.
      rw [edges_fitEnclosing, without_edges]
      exact .cut _
  | connected => exact .made g.nextEdgeNumber_not_mem
  | cut => exact .cut _
  | moved =>
      refine .of_edges_eq (edges_of_unplaced ?_)
      rw [Draft.unplaced_fitEnclosing, Draft.unplaced_foldl fun d child => d.unplaced_place _ _,
        Draft.unplaced_place]
      rfl
  | resized => exact .of_edges_eq (edges_fitEnclosing _ _)
  | renamed => exact .kept
  | filled => exact .kept
  | resynced => exact edgesBecome_resyncPorts (g := g) rfl _
  | branched => exact edgesBecome_refreshPorts (g := g) rfl _ _
  | pruned => exact edgesBecome_refreshPorts (g := g) rfl _ _
  | redeclared => exact .kept

end Changes

/-! ## §3. Changes keep ids distinct. -/

section Distinct

variable {α : Type}

/-- **No change gives two edges one id.** -/
theorem EdgesBecome.nodup_ids {g : Graph α} (h : (g.edges.map Edge.id).Nodup) {edges : List Edge}
    (hedges : EdgesBecome g edges) : (edges.map Edge.id).Nodup := by
  cases hedges with
  | kept => exact h
  | cut gone => exact h.sublist (List.filter_sublist.map _)
  | made hfree =>
      rw [List.map_append]
      refine h.append (List.nodup_singleton _) ?_
      simpa using hfree
  | putBack id old new remap hperm =>
      refine (hperm.map Edge.id).nodup_iff.2 (List.pairwise_map.2 ?_)
      refine (List.pairwise_map.1 h).filterMap _
        fun edge other hne edge' hedge' other' hother' => ?_
      rwa [Edge.id_of_reattached? hedge', Edge.id_of_reattached? hother']

theorem nodup_edgeIds_run [Coordinate α] {g : Graph α} (h : (g.edges.map Edge.id).Nodup)
    (changes : List (Edit α)) : ((g.run changes).edges.map Edge.id).Nodup := by
  unfold run
  induction changes generalizing g with
  | nil => exact h
  | cons change changes ih =>
      refine ih (g := g.after change) ?_
      unfold after
      split
      · rename_i d hok
        exact (applied_edit hok).edges.nodup_ids h
      · exact h

/-- **An edge with an id of its own is cut alone**, and that is announced
once. -/
theorem disconnect_of_nodup {g : Graph α} (h : (g.edges.map Edge.id).Nodup) {edge : Edge}
    (hedge : edge ∈ g.edges) :
    ∃ before after, g.edges = before ++ edge :: after
      ∧ g.disconnect edge.id = .ok
        (⟨{ g with edges := before ++ after, revision := g.revision + 1 },
          [.edgeRemoved edge.id]⟩, edge) := by
  obtain ⟨before, after, hsplit⟩ := List.append_of_mem hedge
  refine ⟨before, after, hsplit, ?_⟩
  rw [hsplit, List.map_append, List.map_cons] at h
  obtain ⟨-, hcons, hapart⟩ := List.nodup_append.1 h
  have hbefore : ∀ other ∈ before, other.id ≠ edge.id := fun other hother =>
    hapart _ (List.mem_map_of_mem hother) _ List.mem_cons_self
  have hafter : ∀ other ∈ after, other.id ≠ edge.id := fun other hother heq =>
    (List.nodup_cons.1 hcons).1 (heq ▸ List.mem_map_of_mem hother)
  -- No edge before it and none behind it has its id.
  have hnone (edges : List Edge) (hids : ∀ other ∈ edges, other.id ≠ edge.id) :
      (edges.filter fun other => other.id == edge.id) = [] := by
    rw [List.filter_eq_nil_iff]
    exact fun other hother => by simpa using hids other hother
  have hall (edges : List Edge) (hids : ∀ other ∈ edges, other.id ≠ edge.id) :
      (edges.filter fun other => !(other.id == edge.id)) = edges := by
    rw [List.filter_eq_self]
    exact fun other hother => by simpa using hids other hother
  have htaken : (g.edges.filter fun other => other.id == edge.id) = [edge] := by
    rw [hsplit, List.filter_append, List.filter_cons, hnone before hbefore, hnone after hafter]
    simp
  have hleft : (g.edges.filter fun other => !(other.id == edge.id)) = before ++ after := by
    rw [hsplit, List.filter_append, List.filter_cons, hall before hbefore, hall after hafter]
    simp
  unfold disconnect Draft.dropEdges Draft.revise Draft.emit Graph.draft
  dsimp only
  rw [htaken, hleft]
  rfl

end Distinct

end Graph

/-! ## §4. Loading. -/

/-- The id that a stored edge asks for. -/
def StoredEdge.ownId? (stored : StoredEdge) : Option String :=
  (stored.extra.lookup "id").bind Json.str?

/-- The id that is composed of a route. -/
def routeId (route : String × String × String) : String :=
  route.1 ++ "-" ++ route.2.1 ++ "-" ++ route.2.2

namespace Document

variable {α : Type} [Coordinate α]

/-- The route that a stored edge takes, if it leaves by a port. -/
def route? (doc : Document α) (settings : Settings α) (stored : StoredEdge) :
    Option (String × String × String) := do
  let source ← (doc.nodes.map (StoredNode.toNode settings)).find? fun node =>
    node.id == stored.source
  let port ← source.exitFor? stored.label
  return (stored.source, port, stored.target)

/-- No edge has the id that is composed for another route, be it an id of
its own or a composed one. -/
def ComposesApart (doc : Document α) (settings : Settings α) : Prop :=
  ∀ stored ∈ doc.edges, ∀ other ∈ doc.edges, ∀ route ∈ doc.route? settings stored,
    ∀ route' ∈ doc.route? settings other,
      stored.ownId? = some (routeId route') ∨ routeId route = routeId route' → route = route'

instance (doc : Document α) (settings : Settings α) : Decidable (doc.ComposesApart settings) :=
  inferInstanceAs (Decidable (∀ stored ∈ doc.edges, ∀ other ∈ doc.edges,
    ∀ route ∈ doc.route? settings stored, ∀ route' ∈ doc.route? settings other,
      stored.ownId? = some (routeId route') ∨ routeId route = routeId route' → route = route'))

end Document

namespace Graph

variable {α : Type} [Coordinate α]

/-- What is known of an edge that was loaded. -/
structure LoadedFrom (doc : Document α) (settings : Settings α) (edge : Edge)
    (stored : StoredEdge) : Prop where
  mem : stored ∈ doc.edges
  route : doc.route? settings stored = some edge.route
  id : stored.ownId? = some edge.id ∨ edge.id = routeId edge.route

/-- How far loading has come: where its edges are from, and that their ids
are distinct. -/
structure Loading (doc : Document α) (settings : Settings α) (g : Graph α) : Prop where
  nodes : g.nodes = detachNodes (doc.nodes.map (StoredNode.toNode settings))
  loaded : ∀ edge ∈ g.edges, ∃ stored, LoadedFrom doc settings edge stored
  nodup : (g.edges.map Edge.id).Nodup

variable {doc : Document α} {settings : Settings α}

/-- Losing its container a node loses no port. -/
theorem exitFor?_of_node? {g : Graph α}
    (hnodes : g.nodes = detachNodes (doc.nodes.map (StoredNode.toNode settings)))
    {id : String} {node : Node α} (hnode : g.node? id = some node) :
    ∃ before, ((doc.nodes.map (StoredNode.toNode settings)).find? fun other => other.id == id)
        = some before ∧ ∀ label, node.exitFor? label = before.exitFor? label := by
  unfold node? at hnode
  rw [hnodes] at hnode
  unfold detachNodes at hnode
  rw [List.find?_map] at hnode
  obtain ⟨before, hbefore, rfl⟩ := Option.map_eq_some_iff.1 hnode
  refine ⟨before, ?_, fun label => ?_⟩
  · rw [← hbefore]
    congr 1
    funext other
    show (other.id == id) = ((other.detach _).id == id)
    rw [Node.detach_id]
  · unfold Node.exitFor? Node.portIds Node.portsOn
    rw [Node.detach_ports]

/-- **A stored edge gets its own id if that is free, or else the one of its
route.** -/
theorem loadedFrom_of_ofStoredEdge? {g : Graph α} (hg : Loading doc settings g)
    {stored : StoredEdge} (hstored : stored ∈ doc.edges) {edge : Edge}
    (h : g.ofStoredEdge? stored = some edge) :
    LoadedFrom doc settings edge stored
      ∧ (edge.id ∉ g.edges.map Edge.id ∨ edge.id = routeId edge.route) := by
  unfold ofStoredEdge? at h
  obtain ⟨source, hsource, h⟩ := Option.bind_eq_some_iff.1 h
  obtain ⟨target, -, h⟩ := Option.bind_eq_some_iff.1 h
  obtain ⟨_, -, h⟩ := Option.bind_eq_some_iff.1 h
  obtain ⟨exit, hexit, h⟩ := Option.bind_eq_some_iff.1 h
  obtain ⟨entry, -, h⟩ := Option.bind_eq_some_iff.1 h
  dsimp only at h
  split at h
  · cases h
  obtain rfl := Option.some.inj h
  have hroute : doc.route? settings stored = some (stored.source, exit, stored.target) := by
    obtain ⟨before, hbefore, hexits⟩ := exitFor?_of_node? hg.nodes hsource
    unfold Document.route?
    rw [hbefore]
    show (before.exitFor? stored.label).bind _ = _
    rw [← hexits, hexit]
    rfl
  cases hown : stored.ownId?.filter fun id => (g.edge? id).isNone with
  | some own =>
      obtain ⟨hasked, hfree⟩ := Option.filter_eq_some_iff.1 hown
      have hid : (((stored.extra.lookup "id").bind Json.str?).filter fun id =>
          (g.edge? id).isNone).getD (routeId (stored.source, exit, stored.target)) = own := by
        rw [show (stored.extra.lookup "id").bind Json.str? = stored.ownId? from rfl, hown]
        rfl
      refine ⟨⟨hstored, hroute, .inl (hasked.trans (congrArg some hid.symm))⟩, .inl ?_⟩
      show _ ∉ _
      exact hid ▸ edge?_eq_none_iff.1 (Option.isNone_iff_eq_none.1 hfree)
  | none =>
      have hid : (((stored.extra.lookup "id").bind Json.str?).filter fun id =>
          (g.edge? id).isNone).getD (routeId (stored.source, exit, stored.target))
            = routeId (stored.source, exit, stored.target) := by
        rw [show (stored.extra.lookup "id").bind Json.str? = stored.ownId? from rfl, hown]
        rfl
      exact ⟨⟨hstored, hroute, .inr hid⟩, .inr hid⟩

/-- **One more stored edge takes no id that is taken**, unless one composed
for another route is. -/
theorem Loading.addStoredEdge {g : Graph α} (hg : Loading doc settings g)
    (hapart : doc.ComposesApart settings) {stored : StoredEdge} (hstored : stored ∈ doc.edges) :
    Loading doc settings (g.addStoredEdge stored) := by
  unfold Graph.addStoredEdge
  split
  · rename_i edge hedge
    obtain ⟨hfrom, hid⟩ := loadedFrom_of_ofStoredEdge? hg hstored hedge
    have hfree : edge.id ∉ g.edges.map Edge.id := by
      rcases hid with hfree | hcomposed
      · exact hfree
      · -- Who has the composed id would be by the same route, which is free.
        intro htaken
        obtain ⟨other, hother, heq⟩ := List.mem_map.1 htaken
        obtain ⟨stored', hfrom'⟩ := hg.loaded other hother
        have hsame : other.route = edge.route := by
          refine hapart stored' hfrom'.mem stored hstored _ hfrom'.route _ hfrom.route ?_
          rw [← hcomposed, ← heq]
          exact hfrom'.id.imp id Eq.symm
        exact (joins_of_ofStoredEdge? hedge).2 (hsame ▸ List.mem_map_of_mem hother)
    constructor
    case nodes => exact hg.nodes
    case loaded =>
        intro other hother
        rcases List.mem_append.1 hother with hold | hnew
        · exact hg.loaded other hold
        · exact ⟨stored, List.mem_singleton.1 hnew ▸ hfrom⟩
    case nodup => exact (EdgesBecome.made hfree).nodup_ids hg.nodup
  · exact hg

theorem Loading.foldl_addStoredEdge {g : Graph α} (hg : Loading doc settings g)
    (hapart : doc.ComposesApart settings) {edges : List StoredEdge}
    (hedges : ∀ stored ∈ edges, stored ∈ doc.edges) :
    Loading doc settings (edges.foldl Graph.addStoredEdge g) := by
  induction edges generalizing g with
  | nil => exact hg
  | cons stored edges ih =>
      have hfirst := hg.addStoredEdge hapart (hedges stored List.mem_cons_self)
      exact ih hfirst fun other hother => hedges other (List.mem_cons_of_mem _ hother)

/-- **The edges of a document have distinct ids** if no id that is composed
for one is that of another. -/
theorem nodup_edgeIds_toGraph {g : Graph α} (hok : doc.toGraph settings = .ok g)
    (hapart : doc.ComposesApart settings) : (g.edges.map Edge.id).Nodup := by
  obtain ⟨nodes, hnodes, hunplaced⟩ := toGraph_eq_ok hok
  obtain ⟨rfl, -⟩ := addStored_nil_eq_ok.1 hnodes
  rw [edges_of_unplaced hunplaced]
  refine (Loading.foldl_addStoredEdge ?_ hapart fun _ hstored => hstored).nodup
  exact ⟨rfl, (fun _ hedge => nomatch hedge), List.nodup_nil⟩

/-! ## §5. Edges are cut one by one. -/

/-- Where changes begin with edges that ids tell apart. -/
inductive InitialApart : Graph α → Prop
  | empty (settings : Settings α) : InitialApart (.empty settings)
  | loaded {doc : Document α} {settings : Settings α} {g : Graph α} :
      doc.toGraph settings = .ok g → doc.ComposesApart settings → InitialApart g

/-- **Whatever changes are made, ids tell the edges apart**: each edge can be
cut on its own, and that is announced once. -/
theorem disconnect_cuts_one {start g : Graph α} (h : start.InitialApart) {changes : List (Edit α)}
    (hg : start.run changes = g) :
    (g.edges.map Edge.id).Nodup
      ∧ ∀ edge ∈ g.edges, ∃ before after, g.edges = before ++ edge :: after
        ∧ g.disconnect edge.id = .ok
          (⟨{ g with edges := before ++ after, revision := g.revision + 1 },
            [.edgeRemoved edge.id]⟩, edge) := by
  have hstart : (start.edges.map Edge.id).Nodup := by
    cases h with
    | empty settings => exact List.nodup_nil
    | loaded hok hapart => exact nodup_edgeIds_toGraph hok hapart
  have hnodup : (g.edges.map Edge.id).Nodup := hg ▸ nodup_edgeIds_run hstart changes
  exact ⟨hnodup, fun edge hedge => disconnect_of_nodup hnodup hedge⟩

/-- An edge that asks for the id that would be composed for it, another one
without an id, and a third one that is made by hand. -/
theorem disconnect_cuts_one_made :
    let doc : Document Rat :=
      { info := .blank
        nodes :=
          [⟨"start", .start, none, none, [], none, []⟩,
            ⟨"choice", .ifElse, none, none, [], none, []⟩,
            ⟨"last", .llm, none, none, [], none, []⟩]
        edges :=
          [⟨"start", "choice", none, [("id", .str "start-right-choice")]⟩,
            ⟨"choice", "last", some "CASE1", []⟩]
        vars := [] }
    let changes := [Edit.insertBranch "choice" 0, .connect "start" none "last" none]
    ∃ start, doc.toGraph .standard = .ok start ∧ start.InitialApart
      ∧ ((start.run changes).edges.map Edge.id).Nodup
      ∧ (start.run changes).edges.map Edge.id
        = ["start-right-choice", "choice-CASE1-last", "edge_1"] := by
  intro doc changes
  have hok : doc.toGraph .standard = .ok _ := rfl
  have hstart : InitialApart _ := .loaded hok (by decide +kernel)
  exact ⟨_, hok, hstart, (disconnect_cuts_one hstart rfl).1, by decide +kernel⟩

/-- **A composed id may be taken**: the first edge asks for the one that is
composed for the second, and cutting one cuts both. -/
theorem disconnect_cuts_two :
    let doc : Document Rat :=
      { info := .blank
        nodes :=
          [⟨"s", .start, none, none, [], none, []⟩, ⟨"a", .llm, none, none, [], none, []⟩,
            ⟨"b", .llm, none, none, [], none, []⟩]
        edges := [⟨"s", "a", none, [("id", .str "a-right-b")]⟩, ⟨"a", "b", none, []⟩]
        vars := [] }
    ∃ g d edge, doc.toGraph .standard = .ok g
      ∧ ¬ (g.edges.map Edge.id).Nodup ∧ g.edges.length = 2
      ∧ g.disconnect "a-right-b" = .ok (d, edge)
      ∧ d.graph.edges = [] ∧ d.events.length = 1 :=
  ⟨_, _, _, rfl, by decide +kernel, rfl, rfl, rfl, rfl⟩

end Graph

end WorkflowEditor
