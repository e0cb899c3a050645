/-
  WorkflowEditor.Proofs.Loading
  ─────────────────────────────
  **EVERY GRAPH THAT CAN BE REACHED IS WELL-FORMED.**

  Loading mends a document until the rules hold, whatever it says:

    • `addStored_eq_ok` — node ids are distinct, or nothing is loaded,
    • `wellFormed_detachNodes` — what is no container encloses nothing,
    • `joins_of_ofStoredEdge?` — an edge is loaded if it could be made,
    • `wellFormed_toGraph` — so a loaded graph is well-formed,
    • `run_wellFormed` — and so is every graph that changes make of it.
-/
import WorkflowEditor.Proofs.Editing

namespace WorkflowEditor

/-! ## §1. Nodes. -/

section Nodes

variable {α : Type} [Coordinate α]

/-- **Nodes are added in order, or an id is repeated.** -/
theorem addStored_eq_ok {settings : Settings α} {nodes result : List (Node α)}
    {stored : List (StoredNode α)} (hnodup : (nodes.map Node.id).Nodup) :
    addStored settings nodes stored = .ok result
      ↔ result = nodes ++ stored.map (StoredNode.toNode settings)
        ∧ (result.map Node.id).Nodup := by
  -- By induction on what is stored, for any nodes that were added before.
  induction stored generalizing nodes with
  | nil =>
      show (Except.ok nodes : Except LoadError _) = .ok result ↔ _
      rw [List.map_nil, List.append_nil]
      constructor
      · intro h
        rw [← Except.ok.inj h]
        exact ⟨rfl, hnodup⟩
      · rintro ⟨rfl, -⟩
        rfl
  | cons node stored ih =>
      unfold addStored
      have hids : (nodes ++ [node.toNode settings]).map Node.id
          = nodes.map Node.id ++ [node.id] := by
        rw [List.map_append]
        rfl
      split
      · rename_i htaken
        have htaken : node.id ∈ nodes.map Node.id := by simpa using htaken
        constructor
        · intro h
          cases h
        · -- The ids of the whole list would hold this one twice.
          rintro ⟨rfl, hrepeated⟩
          rw [List.map_cons, ← List.singleton_append, ← List.append_assoc, List.map_append,
            hids] at hrepeated
          have hsplit := List.nodup_append.1 (List.nodup_append.1 hrepeated).1
          exact absurd rfl (hsplit.2.2 _ htaken _ (List.mem_singleton_self _))
      · rename_i hfree
        have hfree : node.id ∉ nodes.map Node.id := by simpa using hfree
        have hnext : ((nodes ++ [node.toNode settings]).map Node.id).Nodup := by
          rw [hids]
          exact hnodup.append (List.nodup_singleton _) (by simpa using hfree)
        rw [ih hnext, List.append_assoc]
        rfl

/-- **Stored nodes are added if their ids are distinct.** -/
theorem addStored_nil_eq_ok {settings : Settings α} {nodes : List (Node α)}
    {stored : List (StoredNode α)} :
    addStored settings [] stored = .ok nodes
      ↔ nodes = stored.map (StoredNode.toNode settings)
        ∧ (stored.map StoredNode.id).Nodup := by
  have hids : (stored.map (StoredNode.toNode settings)).map Node.id
      = stored.map StoredNode.id := by
    rw [List.map_map]
    rfl
  rw [addStored_eq_ok (by exact List.nodup_nil), List.nil_append, and_congr_right_iff]
  rintro rfl
  rw [hids]

theorem StoredNode.toNode_ports (settings : Settings α) (stored : StoredNode α) :
    (stored.toNode settings).ports
      = portsOf (stored.toNode settings).kind (stored.toNode settings).form := rfl

end Nodes

variable {α : Type}

/-- A top container is a container that no other one encloses. -/
theorem isTopContainer_iff {nodes : List (Node α)} (hnodup : (nodes.map Node.id).Nodup)
    {id : String} :
    isTopContainer nodes id ↔ ∃ container ∈ nodes, container.id = id ∧ container.Encloses := by
  unfold isTopContainer
  constructor
  · intro h
    split at h
    · rename_i found hfound
      have hid : found.id = id := by simpa using List.find?_some hfound
      simp only [Bool.and_eq_true, Option.isNone_iff_eq_none] at h
      exact ⟨found, List.mem_of_find?_eq_some hfound, hid, h.1, h.2⟩
    · cases h
  · rintro ⟨container, hcontainer, rfl, hencloses⟩
    split
    · rename_i found hfound
      have hid : found.id = container.id := by simpa using List.find?_some hfound
      obtain rfl :=
        Graph.eq_of_id_eq hnodup (List.mem_of_find?_eq_some hfound) hcontainer hid
      rw [hencloses.container, hencloses.top]
      rfl
    · rename_i hnone
      exact absurd (List.find?_eq_none.1 hnone container hcontainer) (by simp)

/-- A node keeps its container if it may enclose it, and keeps all else
anyway. -/
theorem Node.detach_cases {nodes : List (Node α)} (hnodup : (nodes.map Node.id).Nodup)
    (node : Node α) :
    node.detach nodes = { node with cycle := none }
      ∨ (node.detach nodes = node ∧ ∀ parent, node.cycle = some parent →
        node.kind.isContainer = false
          ∧ ∃ container ∈ nodes, container.id = parent ∧ container.Encloses) := by
  unfold detach
  cases hcycle : node.cycle with
  | none => exact Or.inr ⟨rfl, fun _ hnone => nomatch hnone⟩
  | some parent =>
      dsimp only
      split
      · exact Or.inl rfl
      · rename_i hvalid
        simp only [Bool.or_eq_true, Bool.not_eq_eq_eq_not, Bool.not_true, not_or,
          Bool.not_eq_true, Bool.not_eq_false] at hvalid
        refine Or.inr ⟨rfl, fun other hother => ?_⟩
        obtain rfl := Option.some.inj hother
        exact ⟨hvalid.1, (isTopContainer_iff hnodup).1 hvalid.2⟩

/-- Losing its container a node loses nothing else. -/
theorem Node.detach_eq (nodes : List (Node α)) (node : Node α) :
    node.detach nodes = { node with cycle := (node.detach nodes).cycle } := by
  unfold detach
  split
  · split <;> rfl
  · rfl

theorem Node.detach_id (nodes : List (Node α)) (node : Node α) :
    (node.detach nodes).id = node.id :=
  (congrArg Node.id (node.detach_eq nodes)).trans rfl

theorem Node.detach_ports (nodes : List (Node α)) (node : Node α) :
    (node.detach nodes).ports = node.ports :=
  (congrArg Node.ports (node.detach_eq nodes)).trans rfl

theorem Node.detach_of_top (nodes : List (Node α)) {node : Node α} (h : node.cycle = none) :
    node.detach nodes = node := by
  unfold detach
  rw [h]

/-- A child of a top container stays enclosed, unless it is a container
itself. -/
theorem Node.detach_of_enclosed {nodes : List (Node α)} {node : Node α} {parent : String}
    (hparent : node.cycle = some parent) (hplain : node.kind.isContainer = false)
    (htop : isTopContainer nodes parent) : node.detach nodes = node := by
  unfold detach
  rw [hparent]
  simp [hplain, htop]

/-- **What is no container encloses nothing.** -/
theorem Graph.wellFormed_detachNodes {g : Graph α} {nodes : List (Node α)}
    (hnodup : (nodes.map Node.id).Nodup)
    (hports : ∀ node ∈ nodes, node.ports = portsOf node.kind node.form)
    (hnodes : g.nodes = detachNodes nodes) (hedges : g.edges = []) : g.WellFormed := by
  have hids : g.nodes.map Node.id = nodes.map Node.id := by
    rw [hnodes]
    unfold detachNodes
    rw [List.map_map]
    refine List.map_congr_left fun node _ => ?_
    show (node.detach nodes).id = node.id
    rcases node.detach_cases hnodup with h | ⟨h, -⟩ <;> rw [h]
  have hback (node : Node α) (hnode : node ∈ g.nodes) :
      ∃ before ∈ nodes, node = before.detach nodes := by
    rw [hnodes] at hnode
    obtain ⟨before, hbefore, rfl⟩ := List.mem_map.1 hnode
    exact ⟨before, hbefore, rfl⟩
  constructor
  case nodup_ids => exact hids ▸ hnodup
  case ports =>
      intro node hnode
      obtain ⟨before, hbefore, rfl⟩ := hback node hnode
      rcases before.detach_cases hnodup with h | ⟨h, -⟩ <;> rw [h]
      · exact hports before hbefore
      · exact hports before hbefore
  case cycles =>
      intro node hnode parent hparent
      obtain ⟨before, hbefore, rfl⟩ := hback node hnode
      rcases before.detach_cases hnodup with h | ⟨h, hcontainer⟩
      · rw [h] at hparent
        cases hparent
      · obtain ⟨-, container, hmem, hid, hencloses⟩ := hcontainer parent (h ▸ hparent)
        refine ⟨container, ?_, hid, hencloses⟩
        -- A container that stays one was in none, so it has kept all it had.
        rw [hnodes]
        exact List.mem_map.2 ⟨container, hmem, container.detach_of_top nodes hencloses.top⟩
  case containers =>
      intro node hnode hcontainer
      obtain ⟨before, hbefore, rfl⟩ := hback node hnode
      rcases before.detach_cases hnodup with h | ⟨h, hcycle⟩ <;> rw [h] at hcontainer ⊢
      cases hparent : before.cycle with
      | none => rfl
      | some parent =>
          rw [(hcycle parent hparent).1] at hcontainer
          cases hcontainer
  case edges => rw [hedges]; exact fun _ hnone => nomatch hnone
  case nodup_routes => rw [hedges]; exact List.nodup_nil

/-! ## §2. Edges. -/

namespace Graph

theorem mem_of_exitFor? {node : Node α} {label : Option String} {port : String}
    (h : node.exitFor? label = some port) : port ∈ node.portIds .right := by
  unfold Node.exitFor? at h
  dsimp only at h
  cases hlabelled : label.bind fun label => (node.portIds .right).find? fun id => id == label with
  | some found =>
      rw [hlabelled] at h
      obtain rfl : found = port := Option.some.inj h
      obtain ⟨label, -, hfound⟩ := Option.bind_eq_some_iff.1 hlabelled
      exact List.mem_of_find?_eq_some hfound
  | none =>
      rw [hlabelled] at h
      exact List.mem_of_head? h

/-- Loading looks for an edge by the same route. -/
theorem any_route_iff {edges : List Edge} {source port target : String} :
    (edges.any fun edge =>
        edge.source == source && edge.sourcePort == port && edge.target == target)
      ↔ (source, port, target) ∈ edges.map Edge.route := by
  rw [List.any_eq_true, List.mem_map]
  refine exists_congr fun edge => and_congr_right fun _ => ?_
  unfold Edge.route
  rw [Bool.and_eq_true, Bool.and_eq_true, beq_iff_eq, beq_iff_eq, beq_iff_eq, Prod.mk.injEq,
    Prod.mk.injEq, and_assoc]

/-- **An edge is loaded if it could be made.** -/
theorem joins_of_ofStoredEdge? {g : Graph α} {stored : StoredEdge} {edge : Edge}
    (h : g.ofStoredEdge? stored = some edge) :
    (∃ source ∈ g.nodes, ∃ target ∈ g.nodes, edge.Joins source target)
      ∧ edge.route ∉ g.edges.map Edge.route := by
  unfold ofStoredEdge? at h
  obtain ⟨source, hsource, h⟩ := Option.bind_eq_some_iff.1 h
  obtain ⟨target, htarget, h⟩ := Option.bind_eq_some_iff.1 h
  obtain ⟨_, hends, h⟩ := Option.bind_eq_some_iff.1 h
  obtain ⟨exit, hexit, h⟩ := Option.bind_eq_some_iff.1 h
  obtain ⟨entry, hentry, h⟩ := Option.bind_eq_some_iff.1 h
  obtain ⟨hid, haccepts, hemits, hcycle⟩ := checkEnds_eq_ok.1 (toOption_eq_some_iff.1 hends)
  obtain ⟨hmem, hsourceId⟩ := mem_of_node? hsource
  obtain ⟨hmem', htargetId⟩ := mem_of_node? htarget
  dsimp only at h
  split at h
  · cases h
  · rename_i hknown
    obtain rfl := Option.some.inj h
    refine ⟨⟨source, hmem, target, hmem', ?_⟩, fun hroute => hknown (any_route_iff.2 hroute)⟩
    exact
      { source_id := hsourceId
        target_id := htargetId
        distinct := hid
        same_cycle := hcycle
        accepts := haccepts
        emits := hemits
        leaves := mem_of_exitFor? hexit
        enters := List.mem_of_head? hentry }

/-- A stored edge that breaks a rule is left out, and so no rule is broken. -/
theorem WellFormed.addStoredEdge {g : Graph α} (h : g.WellFormed) (stored : StoredEdge) :
    (g.addStoredEdge stored).WellFormed := by
  unfold Graph.addStoredEdge
  split
  · rename_i edge hedge
    obtain ⟨⟨source, hsource, target, htarget, hjoins⟩, hfree⟩ := joins_of_ofStoredEdge? hedge
    exact h.addEdge rfl rfl hsource htarget hjoins hfree
  · exact h

theorem WellFormed.foldl_addStoredEdge {g : Graph α} (h : g.WellFormed)
    (edges : List StoredEdge) : (edges.foldl Graph.addStoredEdge g).WellFormed := by
  induction edges generalizing g with
  | nil => exact h
  | cons edge edges ih => exact ih (h.addStoredEdge edge)

/-! ## §3. Documents. -/

variable [Coordinate α]

/-- What a document is loaded as, before its containers are settled. -/
def ofDocument (doc : Document α) (settings : Settings α) (nodes : List (Node α)) : Graph α :=
  doc.edges.foldl Graph.addStoredEdge
    { Graph.empty settings with
      nodes := detachNodes nodes
      vars := doc.vars
      info := doc.info
      revision := 1 }

/-- **Settling the containers only places nodes.** -/
theorem toGraph_of_addStored {doc : Document α} {settings : Settings α} {nodes : List (Node α)}
    (hnodes : addStored settings [] doc.nodes = .ok nodes) :
    ∃ g, doc.toGraph settings = .ok g
      ∧ g.unplaced = (ofDocument doc settings nodes).unplaced := by
  unfold Document.toGraph
  rw [hnodes]
  exact ⟨_, rfl, Draft.unplaced_foldl Draft.unplaced_settleContainer _ _⟩

theorem toGraph_eq_ok {doc : Document α} {settings : Settings α} {g : Graph α}
    (hok : doc.toGraph settings = .ok g) :
    ∃ nodes, addStored settings [] doc.nodes = .ok nodes
      ∧ g.unplaced = (ofDocument doc settings nodes).unplaced := by
  have hadded := hok
  unfold Document.toGraph at hadded
  obtain ⟨nodes, hnodes, -⟩ := bind_eq_ok.1 hadded
  obtain ⟨g', hok', hunplaced⟩ := toGraph_of_addStored hnodes
  obtain rfl : g' = g := Except.ok.inj (hok'.symm.trans hok)
  exact ⟨nodes, hnodes, hunplaced⟩

/-- **A loaded graph is well-formed.** -/
theorem wellFormed_toGraph {doc : Document α} {settings : Settings α} {g : Graph α}
    (hok : doc.toGraph settings = .ok g) : g.WellFormed := by
  obtain ⟨nodes, hnodes, hunplaced⟩ := toGraph_eq_ok hok
  obtain ⟨rfl, hnodup⟩ := addStored_nil_eq_ok.1 hnodes
  -- Settling the containers does not matter, and no stored edge does harm.
  refine WellFormed.congr_unplaced (WellFormed.foldl_addStoredEdge ?_ _) hunplaced.symm
  refine wellFormed_detachNodes (by rwa [List.map_map]) ?_ rfl rfl
  intro node hnode
  obtain ⟨stored, -, rfl⟩ := List.mem_map.1 hnode
  exact stored.toNode_ports settings

/-! ## §4. The graphs that can be reached. -/

/-- Where changes begin: a graph without nodes, or a loaded document. -/
inductive Initial : Graph α → Prop
  | empty (settings : Settings α) : Initial (.empty settings)
  | loaded {doc : Document α} {settings : Settings α} {g : Graph α} :
      doc.toGraph settings = .ok g → Initial g

/-- A graph that changes make, refused ones among them. -/
def Reachable (g : Graph α) : Prop := ∃ start changes, Initial start ∧ start.run changes = g

theorem Initial.wellFormed {g : Graph α} (h : g.Initial) : g.WellFormed := by
  cases h with
  | empty settings => exact wellFormed_of_nil rfl rfl
  | loaded hok => exact wellFormed_toGraph hok

/-- **What can be reached by loading and editing is well-formed.** -/
theorem Reachable.wellFormed {g : Graph α} (h : g.Reachable) : g.WellFormed := by
  obtain ⟨start, changes, hstart, rfl⟩ := h
  exact hstart.wellFormed.run changes

/-- **Changes leave every graph well-formed**, whether they are refused or
not, and every node is found under its own id. -/
theorem run_wellFormed {start : Graph α} (h : start.Initial) (changes : List (Edit α)) :
    (start.run changes).WellFormed
      ∧ ∀ id node, (start.run changes).node? id = some node
        ↔ node ∈ (start.run changes).nodes ∧ node.id = id := by
  have hwell : (start.run changes).WellFormed := h.wellFormed.run changes
  exact ⟨hwell, fun _ _ => node?_eq_some_iff hwell.nodup_ids⟩

/-- A document with a container that is none, loaded and changed: the edge
follows its branch. -/
theorem run_wellFormed_loaded :
    let doc : Document Rat :=
      { info := .blank
        nodes :=
          [⟨"start", .start, none, none, [], none, []⟩,
            ⟨"choice", .ifElse, none, none, [("cases", .arr [.null, .null])], none, []⟩,
            ⟨"last", .llm, none, none, [], some "choice", []⟩]
        edges := [⟨"start", "choice", none, []⟩, ⟨"choice", "last", some "CASE2", []⟩]
        vars := [] }
    let changes := [Edit.insertBranch "choice" 0, .removeNode "start"]
    ∃ start, doc.toGraph .standard = .ok start
      ∧ (start.run changes).WellFormed
      ∧ (start.run changes).edges.map Edge.route = [("choice", "CASE3", "last")] := by
  intro doc changes
  have hok : doc.toGraph .standard = .ok _ := rfl
  exact ⟨_, hok, (run_wellFormed (.loaded hok) changes).1, by decide +kernel⟩

end Graph

end WorkflowEditor
