/-
  WorkflowEditor.Proofs.BranchUndo
  ────────────────────────────────
  **REMOVING A BRANCH TAKES ITS INSERTION BACK.**

  To insert a branch and to remove it again are two changes, each of which
  takes the edges of the node away and puts them back by the numbers of their
  ports.  Together they change nothing but the place of these edges:

    • `PortRemap.removed_inserted` — every number comes back to itself,
    • `Edge.reattached?_twice` — and so does every edge,
    • `Form.set_items` — a list of branches that was there is set again,
    • `Graph.reformed_back` — and the node with it,
    • `Graph.removeBranch_insertBranch` — together.
-/
import WorkflowEditor.Proofs.BranchChanges

namespace WorkflowEditor

variable {α : Type}

/-! ## §1. Ports and edges. -/

/-- **A branch that comes and goes moves no other one**: a number goes up by one
at most, and comes back to itself. -/
theorem PortRemap.removed_inserted (k i : Nat) :
    ∃ j ≤ i + 1, (inserted k).apply i = some j ∧ (removed k).apply j = some i := by
  rcases Nat.lt_or_ge i k with hbefore | hbehind
  · exact ⟨i, Nat.le_succ i, apply_inserted_of_lt hbefore, apply_removed_of_lt hbefore⟩
  · exact ⟨i + 1, Nat.le_refl _, apply_inserted_of_le hbehind,
      apply_removed_of_gt (Nat.lt_succ_of_le hbehind)⟩

/-- An edge goes back to the number that it left by, if that is where the
second remap sends it. -/
theorem Edge.reattached?_twice {edge : Edge} {id : String} {i j count count' : Nat}
    {remap remap' : PortRemap} (hsource : edge.source = id) (hi : i < count)
    (hport : edge.sourcePort = Port.caseId i) (hj : j < count')
    (hthere : remap.apply i = some j) (hback : remap'.apply j = some i) :
    (edge.reattached? id ((List.range count).map Port.caseId)
        ((List.range count').map Port.caseId) remap).bind
      (Edge.reattached? id ((List.range count').map Port.caseId)
        ((List.range count).map Port.caseId) remap') = some edge := by
  have hput : Edge.reattached? id ((List.range count').map Port.caseId)
      ((List.range count).map Port.caseId) remap' { edge with sourcePort := Port.caseId j }
        = (remap'.apply j).bind fun i =>
          if i < count then some { edge with sourcePort := Port.caseId i } else none :=
    reattached?_of_number hsource hj rfl
  rw [reattached?_of_number hsource hi hport, hthere, Option.bind_some, if_pos hj,
    Option.bind_some, hput, hback, Option.bind_some, if_pos hi, ← hport]

/-! ## §2. Forms and nodes. -/

theorem Form.get?_of_items {form : Form} {key : String} (h : form.items key ≠ []) :
    form.get? key = some (.arr (form.items key)) := by
  unfold items at h ⊢
  cases hvalue : form.get? key with
  | none => simp [hvalue] at h
  | some value =>
      rw [hvalue, Option.bind_some] at h
      cases value with
      | arr items => rfl
      | null | bool | num | str | obj => exact absurd rfl h

/-- **A list of branches that was there is set again**, whatever was set in its
place. -/
theorem Form.set_items {form : Form} {key : String} (h : form.items key ≠ []) (value : Json) :
    (form.set key value).set key (.arr (form.items key)) = form := by
  unfold set
  rw [Fields.insert_insert, Fields.insert_eq_self (form.get?_of_items h)]

namespace Graph

/-- **A node that takes its form again** is the node that it was, and so are
all others. -/
theorem reformed_back {g g' : Graph α} (h : g.WellFormed) {node : Node α} (hnode : node ∈ g.nodes)
    {form : Form} (hnodes : g'.nodes = g.reformed node form) :
    g'.reformed (node.reform form) node.form = g.nodes := by
  unfold reformed at hnodes ⊢
  rw [hnodes, List.map_map]
  refine (List.map_congr_left fun other hother => ?_).trans (List.map_id _)
  show (if (if other.id = node.id then node.reform form else other).id = node.id then
      (node.reform form).reform node.form
    else if other.id = node.id then node.reform form else other) = other
  by_cases hid : other.id = node.id
  · obtain rfl := h.eq_of_id hother hnode hid
    rw [if_pos rfl]
    refine (if_pos rfl).trans ?_
    show { other with ports := portsOf other.kind other.form } = other
    rw [← h.ports other hnode]
  · rw [if_neg hid, if_neg hid]

/-! ## §3. Both changes. -/

/-- The edges after a list of branches was set, in their order. -/
theorem edges_setBranches_eq {g : Graph α} (h : g.WellFormed) {node : Node α}
    (hnode : node ∈ g.nodes) {key : String} (hkey : node.ListsBranches key) (items : List Json)
    (remap : PortRemap) :
    (g.setBranches node.id key items remap).graph.edges
      = Edge.rewired node.id
          (Edge.reattached? node.id
            ((List.range (node.kind.exitCount (node.form.items key).length)).map Port.caseId)
            ((List.range (node.kind.exitCount items.length)).map Port.caseId) remap)
          g.edges := by
  have hnew : layoutIds node.kind (node.form.set key (.arr items))
      = (List.range (node.kind.exitCount items.length)).map Port.caseId := by
    rw [Node.layoutIds_of_listsBranches hkey, Form.items_set]
  rw [← hnew, ← Node.portIds_of_listsBranches hkey (h.ports node hnode)]
  exact (reformed_branches g node.id key items).edges_refreshPorts_eq h hnode remap

/-- The node after its list of branches was set. -/
theorem rebranched_mem {g : Graph α} (h : g.WellFormed) {node : Node α} (hnode : node ∈ g.nodes)
    (key : String) (items : List Json) (remap : PortRemap) :
    node.reform (node.form.set key (.arr items))
      ∈ (g.setBranches node.id key items remap).graph.nodes := by
  rw [nodes_setBranches h hnode]
  exact mem_reformed_self hnode _

/-- **Setting a list of branches and setting back the old one** leaves the nodes
as they were, and the edges too if the second remap sends every number back. -/
theorem setBranches_back {g : Graph α} (h : g.WellFormed) {node : Node α} (hnode : node ∈ g.nodes)
    {key : String} (hkey : node.ListsBranches key) (hsome : node.form.items key ≠ [])
    {items : List Json} {remap remap' : PortRemap}
    (hback : ∀ i < node.kind.exitCount (node.form.items key).length,
      ∃ j < node.kind.exitCount items.length, remap.apply i = some j ∧ remap'.apply j = some i) :
    let d := g.setBranches node.id key items remap
    let d' := d.graph.setBranches node.id key (node.form.items key) remap'
    d'.graph.nodes = g.nodes
      ∧ d'.graph.edges = (g.edges.filter fun edge => !edge.touches node.id)
          ++ g.edges.filter fun edge => edge.touches node.id := by
  intro d d'
  have hwell : d.graph.WellFormed := wellFormed_setBranches h hnode key items remap
  have hnode' := rebranched_mem h hnode key items remap
  constructor
  · refine (nodes_setBranches hwell hnode' key _ remap').trans ?_
    show d.graph.reformed _ ((node.form.set key (.arr items)).set key _) = _
    rw [Form.set_items hsome]
    exact reformed_back h hnode (nodes_setBranches h hnode key items remap)
  · refine (edges_setBranches_eq hwell hnode' hkey _ remap').trans ?_
    show Edge.rewired node.id (Edge.reattached? node.id ((List.range (node.kind.exitCount
      ((node.form.set key (.arr items)).items key).length)).map Port.caseId) _ _) d.graph.edges = _
    -- The edges are taken off and put back twice, which is once by way of both remaps.
    rw [Form.items_set, edges_setBranches_eq h hnode hkey,
      Edge.rewired_rewired fun edge _ edge' hput => ?_]
    · refine Edge.rewired_eq_of_fixed fun edge hedge _ => ?_
      by_cases hsource : edge.source = node.id
      · obtain ⟨i, hi, hport⟩ := h.number_of_source hnode hkey hedge hsource
        obtain ⟨j, hj, hthere, hhome⟩ := hback i hi
        exact Edge.reattached?_twice hsource hi hport hj hthere hhome
      · rw [Edge.reattached?_of_ne hsource]
        exact Edge.reattached?_of_ne hsource
    · obtain ⟨hsource, htarget, -⟩ := Edge.ends_of_reattached? hput
      exact Edge.touches_congr hsource htarget node.id

/-- **Removing a branch takes its insertion back.**  Into a node that lists at
least one branch one more can be inserted anywhere, and the branch that is
there then can be removed.  After both all nodes are as they were, the changed
one with its form and its ports among them, and so are all edges; those that
begin or end at the node stand behind the others, in the order that they
had. -/
theorem removeBranch_insertBranch [Coordinate α] {g : Graph α} (hg : g.Reachable) {node : Node α}
    (hnode : node ∈ g.nodes) {key : String} (hkey : node.ListsBranches key)
    (hsome : node.form.items key ≠ []) {k : Nat} (hk : k ≤ (node.form.items key).length) :
    ∃ d d', g.insertBranch node.id k = .ok d ∧ d.graph.removeBranch node.id k = .ok d'
      ∧ d'.graph.nodes = g.nodes
      ∧ d'.graph.edges = (g.edges.filter fun edge => !edge.touches node.id)
          ++ g.edges.filter fun edge => edge.touches node.id := by
  have hwell := hg.wellFormed
  have hrequire : g.require node.id = .ok node := require_of_node? (hwell.node?_of_mem hnode)
  obtain ⟨blank, hfield⟩ := Node.branchField_of_listsBranches hkey
  let longer := (node.form.items key).insertIdx k blank
  let d := g.setBranches node.id key longer (.inserted k)
  have hlength : longer.length = (node.form.items key).length + 1 :=
    List.length_insertIdx_of_le_length hk blank
  have hpositive : 0 < (node.form.items key).length := List.length_pos_of_ne_nil hsome
  have hremove : d.graph.removeBranch node.id k
      = .ok (d.graph.setBranches node.id key (node.form.items key) (.removed k)) := by
    -- The node is found again under its id, with the longer list.
    have hnode' := rebranched_mem hwell hnode key longer (.inserted k)
    have hwell' : d.graph.WellFormed := wellFormed_setBranches hwell hnode key longer _
    have hkey' : (node.reform (node.form.set key (.arr longer))).ListsBranches key := hkey
    obtain ⟨blank', hfield'⟩ := Node.branchField_of_listsBranches hkey'
    have hitems : (node.form.set key (.arr longer)).items key = longer := Form.items_set _ _ _
    have hshorter : longer.eraseIdx k = node.form.items key := List.eraseIdx_insertIdx_self blank
    rw [← hitems] at hlength
    refine (removeBranch_eq_ok (require_of_node? (hwell'.node?_of_mem hnode')) hfield'
      (hlength ▸ Nat.lt_succ_of_le hk) (hlength ▸ Nat.succ_le_succ hpositive)).trans ?_
    show Except.ok (d.graph.setBranches node.id key
      (((node.form.set key (.arr longer)).items key).eraseIdx k) _) = _
    rw [hitems, hshorter]
  refine ⟨d, _, insertBranch_eq_ok hrequire hfield hk, hremove, ?_⟩
  refine setBranches_back hwell hnode hkey hsome fun i hi => ?_
  obtain ⟨j, hj, hthere, hback⟩ := PortRemap.removed_inserted k i
  have hcount : node.kind.exitCount longer.length
      = node.kind.exitCount (node.form.items key).length + 1 :=
    exitCount_insertIdx hk (fun _ => hsome) blank
  exact ⟨j, by omega, hthere, hback⟩

/-- A case is inserted behind the only one of an if-else and removed again, with
an edge at every port: all edges are there as they were, and the one that does
not touch the if-else comes first. -/
theorem removeBranch_insertBranch_last :
    let doc : Document Rat :=
      { info := .blank
        nodes :=
          [⟨"start", .start, none, none, [], none, []⟩,
            ⟨"choice", .ifElse, none, none, [("cases", .arr [.int 0])], none, []⟩,
            ⟨"yes", .llm, none, none, [], none, []⟩, ⟨"no", .llm, none, none, [], none, []⟩]
        edges :=
          [⟨"start", "choice", none, []⟩, ⟨"choice", "yes", some "CASE1", []⟩,
            ⟨"yes", "no", none, []⟩, ⟨"choice", "no", some "CASE2", [("note", .int 1)]⟩]
        vars := [] }
    ∃ g node d d', doc.toGraph .standard = .ok g ∧ g.Reachable ∧ node ∈ g.nodes
      ∧ node.ListsBranches "cases" ∧ node.form.items "cases" ≠ []
      ∧ 1 ≤ (node.form.items "cases").length
      ∧ g.insertBranch node.id 1 = .ok d ∧ d.graph.removeBranch node.id 1 = .ok d'
      ∧ d'.graph.nodes = g.nodes
      ∧ d.graph.edges.map (fun edge => (edge.id, edge.sourcePort))
        = [("yes-right-no", "right"), ("start-right-choice", "right"),
          ("choice-CASE1-yes", "CASE1"), ("choice-CASE2-no", "CASE3")]
      ∧ d'.graph.edges.map (fun edge => (edge.id, edge.sourcePort))
        = [("yes-right-no", "right"), ("start-right-choice", "right"),
          ("choice-CASE1-yes", "CASE1"), ("choice-CASE2-no", "CASE2")] := by
  intro doc
  have hrun : ((doc.toGraph .standard).toOption.bind fun g => (g.node? "choice").bind fun node =>
      (g.insertBranch "choice" 1).toOption.bind fun d =>
        (d.graph.removeBranch "choice" 1).toOption.map fun d' =>
          (node.kind, (node.form.items "cases").length,
            d.graph.edges.map (fun edge => (edge.id, edge.sourcePort)),
            d'.graph.edges.map fun edge => (edge.id, edge.sourcePort)))
      = some (.ifElse, 1,
          [("yes-right-no", "right"), ("start-right-choice", "right"),
            ("choice-CASE1-yes", "CASE1"), ("choice-CASE2-no", "CASE3")],
          [("yes-right-no", "right"), ("start-right-choice", "right"),
            ("choice-CASE1-yes", "CASE1"), ("choice-CASE2-no", "CASE2")]) := by
    decide +kernel
  obtain ⟨g, hg, hnode⟩ := Option.bind_eq_some_iff.1 hrun
  obtain ⟨node, hfound, hinserted⟩ := Option.bind_eq_some_iff.1 hnode
  obtain ⟨d, hd, hremoved⟩ := Option.bind_eq_some_iff.1 hinserted
  obtain ⟨d', hd', hfacts⟩ := Option.map_eq_some_iff.1 hremoved
  obtain ⟨hkind, hrest⟩ := Prod.mk.inj hfacts
  obtain ⟨hlength, hrest⟩ := Prod.mk.inj hrest
  obtain ⟨hedges, hedges'⟩ := Prod.mk.inj hrest
  obtain ⟨hmem, hid⟩ := mem_of_node? hfound
  have hok : doc.toGraph .standard = .ok g := toOption_eq_some_iff.1 hg
  have hreachable : g.Reachable := ⟨g, [], .loaded hok, rfl⟩
  have hkey : node.ListsBranches "cases" := .inl ⟨hkind, rfl⟩
  have hsome : node.form.items "cases" ≠ [] := List.ne_nil_of_length_eq_add_one hlength
  obtain ⟨e, e', he, he', hnodes, -⟩ :=
    removeBranch_insertBranch hreachable hmem hkey hsome (Nat.le_of_eq hlength.symm)
  -- The drafts that were run are those of the theorem.
  obtain rfl : d = e := Except.ok.inj ((toOption_eq_some_iff.1 hd).symm.trans (hid ▸ he))
  obtain rfl : d' = e' := Except.ok.inj ((toOption_eq_some_iff.1 hd').symm.trans (hid ▸ he'))
  exact ⟨g, node, d, d', hok, hreachable, hmem, hkey, hsome, Nat.le_of_eq hlength.symm, he, he',
    hnodes, hedges, hedges'⟩

end Graph

end WorkflowEditor
