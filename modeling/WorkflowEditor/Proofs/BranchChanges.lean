/-
  WorkflowEditor.Proofs.BranchChanges
  ───────────────────────────────────
  **BRANCHES THAT COME AND GO TAKE THE RIGHT EDGES ALONG.**

  The right ports of an if-else and of a question classifier are numbered.
  When a branch is removed or inserted, the ports behind it get other
  numbers, and an edge must go on leaving by the branch that it left by:

    • `portIds_of_listsBranches` — the ports are numbered without a gap,
    • `rightPortIndex?_eq_some_iff` — so an edge leaves by exactly one number,
    • `edges_setBranches` — what becomes of each edge, by its number,
    • `removeBranch_follows` — removing a branch drops its edges and closes
      the gap,
    • `insertBranch_follows` — inserting one makes room, and drops nothing,
      unless an if-else has no cases: `insertBranch_without_cases`.
-/
import WorkflowEditor.Proofs.Entries
import WorkflowEditor.Proofs.Loading

namespace WorkflowEditor

variable {α : Type}

/-! ## §1. Nodes that list their branches. -/

/-- A node whose branches are the items of a field. -/
def Node.ListsBranches (node : Node α) (key : String) : Prop :=
  (node.kind = .ifElse ∧ key = "cases") ∨ (node.kind = .questionClassifier ∧ key = "categories")

/-- How many right ports a node has for its branches: an if-else has a case
even if it lists none, and the `ELSE` behind its cases. -/
def Kind.exitCount (kind : Kind) (branches : Nat) : Nat :=
  if kind = .ifElse then max branches 1 + 1 else branches

/-- Every branch has a port. -/
theorem Kind.le_exitCount (kind : Kind) (branches : Nat) : branches ≤ kind.exitCount branches := by
  unfold exitCount
  split <;> omega

/-- An if-else has one more. -/
theorem Kind.lt_exitCount {kind : Kind} (h : kind = .ifElse) (branches : Nat) :
    branches < kind.exitCount branches := by
  unfold exitCount
  rw [if_pos h]
  omega

theorem Form.items_set (form : Form) (key : String) (items : List Json) :
    (form.set key (.arr items)).items key = items := by
  have hset : (form.set key (.arr items)).get? key = some (.arr items) :=
    Fields.lookup_insert_self _ _ _
  unfold Form.items
  rw [hset]
  rfl

namespace Node

variable {node : Node α} {key : String}

/-- **The right ports are numbered without a gap.** -/
theorem layoutIds_of_listsBranches (h : node.ListsBranches key) (form : Form) :
    layoutIds node.kind form
      = (List.range (node.kind.exitCount (form.items key).length)).map Port.caseId := by
  rcases h with ⟨hkind, rfl⟩ | ⟨hkind, rfl⟩
  · rw [hkind, layoutIds_ifElse]
    rfl
  · rw [hkind, layoutIds_questionClassifier]
    rfl

theorem branchField_of_listsBranches (h : node.ListsBranches key) :
    ∃ blank, Graph.branchField node = .ok (key, blank) := by
  unfold Graph.branchField
  rcases h with ⟨hkind, rfl⟩ | ⟨hkind, rfl⟩
  · rw [hkind]
    exact ⟨_, rfl⟩
  · rw [hkind]
    exact ⟨_, rfl⟩

theorem idxOf?_caseIds {count i : Nat} {port : String} :
    ((List.range count).map Port.caseId).idxOf? port = some i
      ↔ i < count ∧ port = Port.caseId i := by
  rw [List.idxOf?_eq_some_iff]
  constructor
  · rintro ⟨hi, hport, -⟩
    rw [List.getElem_map, List.getElem_range] at hport
    exact ⟨by simpa using hi, hport.symm⟩
  · rintro ⟨hi, rfl⟩
    refine ⟨by simpa using hi, by simp, fun j hj => ?_⟩
    rw [List.getElem_map, List.getElem_range]
    simpa using fun h => Nat.ne_of_lt hj (Port.caseId_injective h)

/-- The right ports of a node that lists its branches, by their numbers. -/
theorem portIds_of_listsBranches (h : node.ListsBranches key)
    (hports : node.ports = portsOf node.kind node.form) :
    node.portIds .right
      = (List.range (node.kind.exitCount (node.form.items key).length)).map Port.caseId := by
  rw [portIds_right hports, layoutIds_of_listsBranches h]

theorem rightPortIndex?_eq_some_iff (h : node.ListsBranches key)
    (hports : node.ports = portsOf node.kind node.form) {port : String} {i : Nat} :
    node.rightPortIndex? port = some i
      ↔ i < node.kind.exitCount (node.form.items key).length ∧ port = Port.caseId i := by
  unfold rightPortIndex?
  rw [portIds_of_listsBranches h hports, idxOf?_caseIds]

/-- The right ports of a node that took a new list of branches. -/
theorem portIds_rebranched (h : node.ListsBranches key) (items : List Json) :
    (node.reform (node.form.set key (.arr items))).portIds .right
      = (List.range (node.kind.exitCount items.length)).map Port.caseId := by
  rw [portIds_right (node.reform_ports _)]
  refine (layoutIds_of_listsBranches h (node.form.set key (.arr items))).trans ?_
  rw [Form.items_set]

theorem rightPortIndex?_rebranched (h : node.ListsBranches key) {items : List Json} {i : Nat}
    (hi : i < node.kind.exitCount items.length) :
    (node.reform (node.form.set key (.arr items))).rightPortIndex? (Port.caseId i) = some i := by
  unfold rightPortIndex?
  rw [portIds_rebranched h, idxOf?_caseIds]
  exact ⟨hi, rfl⟩

theorem getLast?_caseIds {count : Nat} {port : String} :
    ((List.range count).map Port.caseId).getLast? = some port
      ↔ 0 < count ∧ port = Port.caseId (count - 1) := by
  rw [List.getLast?_map, List.getLast?_range]
  by_cases hcount : count = 0
  · simp [hcount]
  · simp [hcount, Nat.pos_of_ne_zero hcount, eq_comm]

end Node

/-! ## §2. What becomes of an edge. -/

namespace PortRemap

variable {i k : Nat}

theorem apply_removed_of_lt (h : i < k) : (removed k).apply i = some i := if_pos h

theorem apply_removed_self (k : Nat) : (removed k).apply k = none := by
  unfold apply
  dsimp only
  rw [if_neg (Nat.lt_irrefl k), if_pos rfl]

theorem apply_removed_of_gt (h : k < i) : (removed k).apply i = some (i - 1) := by
  unfold apply
  dsimp only
  rw [if_neg (Nat.lt_asymm h), if_neg (Nat.ne_of_gt h)]

theorem apply_inserted_of_lt (h : i < k) : (inserted k).apply i = some i :=
  congrArg some (if_neg (Nat.not_le.2 h))

theorem apply_inserted_of_le (h : k ≤ i) : (inserted k).apply i = some (i + 1) :=
  congrArg some (if_pos h)

end PortRemap

/-- An edge that leaves by a number is put back at the number that the remap
gives, if there is such a port. -/
theorem Edge.reattached?_of_number {edge : Edge} {id : String} {i count count' : Nat}
    {remap : PortRemap} (hsource : edge.source = id) (hi : i < count)
    (hport : edge.sourcePort = Port.caseId i) :
    edge.reattached? id ((List.range count).map Port.caseId)
        ((List.range count').map Port.caseId) remap
      = (remap.apply i).bind fun j =>
          if j < count' then some { edge with sourcePort := Port.caseId j } else none := by
  have hindex : ((List.range count).map Port.caseId).idxOf? edge.sourcePort = some i :=
    Node.idxOf?_caseIds.2 ⟨hi, hport⟩
  unfold reattached?
  rw [if_pos hsource, hindex]
  show (remap.apply i).bind _ = _
  congr 1
  funext j
  by_cases hj : j < count' <;> simp [hj]

namespace Graph

/-- An edge that leaves a node with numbered ports leaves by a number. -/
theorem WellFormed.number_of_source {g : Graph α} (h : g.WellFormed) {node : Node α}
    (hnode : node ∈ g.nodes) {key : String} (hkey : node.ListsBranches key) {edge : Edge}
    (hedge : edge ∈ g.edges) (hsource : edge.source = node.id) :
    ∃ i < node.kind.exitCount (node.form.items key).length, edge.sourcePort = Port.caseId i := by
  have hleaves := h.leaves_of_source hnode hedge hsource
  rw [Node.portIds_of_listsBranches hkey (h.ports node hnode)] at hleaves
  obtain ⟨i, hi, hport⟩ := List.mem_map.1 hleaves
  exact ⟨i, List.mem_range.1 hi, hport.symm⟩

/-- **What becomes of each edge** when the list of branches of a node is set:
one that leaves the node has the number of a port, and gets the number that
the remap gives; all others stay as they are. -/
theorem edges_setBranches {g : Graph α} (h : g.WellFormed) {node : Node α}
    (hnode : node ∈ g.nodes) {key : String} (hkey : node.ListsBranches key) (items : List Json)
    (remap : PortRemap) :
    ∃ move : Edge → Option Edge,
      (g.setBranches node.id key items remap).graph.edges.Perm (g.edges.filterMap move)
        ∧ ∀ edge ∈ g.edges,
          (edge.source ≠ node.id → move edge = some edge)
            ∧ (edge.source = node.id →
              ∃ i < node.kind.exitCount (node.form.items key).length,
                edge.sourcePort = Port.caseId i
                  ∧ move edge = (remap.apply i).bind fun j =>
                    if j < node.kind.exitCount items.length then
                      some { edge with sourcePort := Port.caseId j }
                    else none) := by
  have hports := h.ports node hnode
  have hnew : layoutIds node.kind (node.form.set key (.arr items))
      = (List.range (node.kind.exitCount items.length)).map Port.caseId := by
    rw [Node.layoutIds_of_listsBranches hkey, Form.items_set]
  refine ⟨_, (reformed_branches g node.id key items).edges_refreshPorts h hnode remap,
    fun edge hedge => ⟨Edge.reattached?_of_ne, fun hsource => ?_⟩⟩
  obtain ⟨i, hi, hport⟩ := h.number_of_source hnode hkey hedge hsource
  refine ⟨i, hi, hport, ?_⟩
  rw [Node.portIds_of_listsBranches hkey hports, hnew]
  exact Edge.reattached?_of_number hsource hi hport

theorem nodes_setBranches {g : Graph α} (h : g.WellFormed) {node : Node α}
    (hnode : node ∈ g.nodes) (key : String) (items : List Json) (remap : PortRemap) :
    (g.setBranches node.id key items remap).graph.nodes
      = g.reformed node (node.form.set key (.arr items)) :=
  (reformed_branches g node.id key items).nodes_refreshPorts h hnode remap

/-! ## §3. Removing a branch. -/

section Removing

variable {g : Graph α} {node : Node α} {key : String} {blank : Json} {k : Nat}

theorem removeBranch_eq_ok (hnode : g.require node.id = .ok node)
    (hfield : branchField node = .ok (key, blank)) (hk : k < (node.form.items key).length)
    (hmore : 2 ≤ (node.form.items key).length) :
    g.removeBranch node.id k
      = .ok (g.setBranches node.id key ((node.form.items key).eraseIdx k) (.removed k)) := by
  unfold removeBranch
  rw [hnode]
  show (branchField node >>= _) = _
  rw [hfield]
  show (if (node.form.items key).length ≤ k then _ else _) = _
  rw [if_neg (Nat.not_le.2 hk)]
  show (if (node.form.items key).length ≤ 1 then _ else _) = _
  rw [if_neg (Nat.not_le.2 hmore)]
  rfl

/-- The last branch stays, and one that is not there cannot go. -/
theorem removeBranch_eq_error (hnode : g.require node.id = .ok node)
    (hfield : branchField node = .ok (key, blank)) (hone : (node.form.items key).length ≤ 1) :
    g.removeBranch node.id k
      = .error (if (node.form.items key).length = 1 ∧ k = 0 then .lastBranch node.id
          else .branchOutOfRange node.id k (node.form.items key).length) := by
  unfold removeBranch
  rw [hnode]
  show (branchField node >>= _) = _
  rw [hfield]
  show (if (node.form.items key).length ≤ k then _ else _) = _
  by_cases hlast : (node.form.items key).length = 1 ∧ k = 0
  · -- The range is checked first, so the last branch is refused for being the last.
    rw [if_neg (by omega), if_pos hlast]
    show (if (node.form.items key).length ≤ 1 then _ else _) = _
    rw [if_pos hone]
    rfl
  · rw [if_pos (by omega), if_neg hlast]
    rfl

end Removing

theorem exitCount_eraseIdx {kind : Kind} {items : List Json} {k : Nat} (hk : k < items.length)
    (hmore : 2 ≤ items.length) :
    kind.exitCount (items.eraseIdx k).length + 1 = kind.exitCount items.length := by
  unfold Kind.exitCount
  rw [List.length_eraseIdx_of_lt hk]
  split <;> omega

/-- What becomes of each edge when the ports behind one move down. -/
theorem edges_removed {g : Graph α} (h : g.WellFormed) {node : Node α} (hnode : node ∈ g.nodes)
    {key : String} (hkey : node.ListsBranches key) (items : List Json) {k : Nat}
    (hk : k < node.kind.exitCount items.length + 1)
    (hcount : node.kind.exitCount (node.form.items key).length
      = node.kind.exitCount items.length + 1) :
    ∃ move : Edge → Option Edge,
      (g.setBranches node.id key items (.removed k)).graph.edges.Perm (g.edges.filterMap move)
        ∧ ∀ edge ∈ g.edges,
          (edge.source ≠ node.id → move edge = some edge)
            ∧ (edge.source = node.id →
              ∃ i < node.kind.exitCount items.length + 1,
                edge.sourcePort = Port.caseId i
                  ∧ (i < k → move edge = some edge)
                  ∧ (i = k → move edge = none)
                  ∧ (k < i →
                    move edge = some { edge with sourcePort := Port.caseId (i - 1) })) := by
  obtain ⟨move, hedges, hmove⟩ := edges_setBranches h hnode hkey items (.removed k)
  refine ⟨move, hedges, fun edge hedge => ⟨(hmove edge hedge).1, fun hsource => ?_⟩⟩
  obtain ⟨i, hi, hport, hgone⟩ := (hmove edge hedge).2 hsource
  refine ⟨i, hcount ▸ hi, hport, fun hbefore => ?_, fun hsame => ?_, fun hbehind => ?_⟩
  · rw [hgone, PortRemap.apply_removed_of_lt hbefore, Option.bind_some, if_pos (by omega), ← hport]
  · rw [hgone, hsame, PortRemap.apply_removed_self]
    rfl
  · rw [hgone, PortRemap.apply_removed_of_gt hbehind, Option.bind_some, if_pos (by omega)]

/-- **Removing a branch drops exactly its edges.**  Of a node that lists at
least two branches any one can be removed.  Then

* the list lacks that branch, and the other nodes are as they were;
* of the edges that leave the node by a right port, those at the number of the
  branch are gone, those before it are as they were, and those behind it leave
  by the number before theirs, which goes for the `ELSE` of an if-else too;
* all other edges are as they were.

Of a node that lists one branch at most none can be removed, and nothing
changes. -/
theorem removeBranch_follows [Coordinate α] {g : Graph α} (hg : g.Reachable) {node : Node α}
    (hnode : node ∈ g.nodes) {key : String} (hkey : node.ListsBranches key) (k : Nat) :
    let items := node.form.items key
    let node' := node.reform (node.form.set key (.arr (items.eraseIdx k)))
    (2 ≤ items.length → k < items.length →
        ∃ d, g.removeBranch node.id k = .ok d
          ∧ node'.form.items key = items.eraseIdx k
          ∧ d.graph.nodes = (g.nodes.map fun other => if other.id = node.id then node' else other)
          ∧ ∃ move : Edge → Option Edge, d.graph.edges.Perm (g.edges.filterMap move)
            ∧ ∀ edge ∈ g.edges,
              (edge.source ≠ node.id → move edge = some edge)
                ∧ (edge.source = node.id → ∃ i, node.rightPortIndex? edge.sourcePort = some i
                  ∧ (i < k → node'.rightPortIndex? edge.sourcePort = some i
                      ∧ move edge = some edge)
                  ∧ (i = k → move edge = none)
                  ∧ (k < i → ∃ port, node'.rightPortIndex? port = some (i - 1)
                      ∧ move edge = some { edge with sourcePort := port })))
      ∧ (items.length ≤ 1 →
        g.removeBranch node.id k
            = .error (if items.length = 1 ∧ k = 0 then .lastBranch node.id
                else .branchOutOfRange node.id k items.length)
          ∧ g.after (.removeBranch node.id k) = g) := by
  intro items node'
  have hwell := hg.wellFormed
  have hrequire : g.require node.id = .ok node := require_of_node? (hwell.node?_of_mem hnode)
  obtain ⟨blank, hfield⟩ := Node.branchField_of_listsBranches hkey
  constructor
  · intro hmore hk
    have hcount : node.kind.exitCount (items.eraseIdx k).length + 1
        = node.kind.exitCount items.length := exitCount_eraseIdx hk hmore
    have hlisted := node.kind.le_exitCount items.length
    have hinside : k < node.kind.exitCount (items.eraseIdx k).length + 1 := by omega
    obtain ⟨move, hedges, hmove⟩ :=
      edges_removed hwell hnode hkey (items.eraseIdx k) hinside hcount.symm
    refine ⟨_, removeBranch_eq_ok hrequire hfield hk hmore, Form.items_set _ _ _,
      nodes_setBranches hwell hnode _ _ _, move, hedges,
      fun edge hedge => ⟨(hmove edge hedge).1, fun hsource => ?_⟩⟩
    obtain ⟨i, hi, hport, hbefore, hsame, hbehind⟩ := (hmove edge hedge).2 hsource
    -- A number stays the same on the node as it was and as it is now; only its port may change.
    refine ⟨i, ?_, fun hlt => ⟨?_, hbefore hlt⟩, hsame, fun hgt => ?_⟩
    · rw [hport]
      exact (Node.rightPortIndex?_eq_some_iff hkey (hwell.ports node hnode)).2 ⟨hcount ▸ hi, rfl⟩
    · rw [hport]
      exact Node.rightPortIndex?_rebranched hkey (by omega)
    · exact ⟨_, Node.rightPortIndex?_rebranched hkey (by omega), hbehind hgt⟩
  · intro hone
    have herror := removeBranch_eq_error (k := k) hrequire hfield hone
    refine ⟨herror, ?_⟩
    have hedit : g.edit (.removeBranch node.id k) = .error _ := herror
    unfold Graph.after
    rw [hedit]

/-- Of three cases the second one goes: its edge is cut, the edges of the
third one and of the `ELSE` move down, and the edge into the node stays. -/
theorem removeBranch_follows_second :
    let doc : Document Rat :=
      { info := .blank
        nodes :=
          [⟨"start", .start, none, none, [], none, []⟩,
            ⟨"choice", .ifElse, none, none, [("cases", .arr [.int 0, .int 1, .int 2])], none, []⟩,
            ⟨"last", .llm, none, none, [], none, []⟩]
        edges :=
          [⟨"start", "choice", none, []⟩, ⟨"choice", "last", some "CASE1", []⟩,
            ⟨"choice", "last", some "CASE2", []⟩, ⟨"choice", "last", some "CASE3", []⟩,
            ⟨"choice", "last", some "CASE4", []⟩]
        vars := [] }
    ∃ g node d, doc.toGraph .standard = .ok g ∧ g.Reachable ∧ node ∈ g.nodes
      ∧ node.ListsBranches "cases" ∧ (node.form.items "cases").length = 3
      ∧ g.removeBranch node.id 1 = .ok d
      ∧ d.graph.edges.map (fun edge => (edge.id, edge.sourcePort))
        = [("start-right-choice", "right"), ("choice-CASE1-last", "CASE1"),
          ("choice-CASE3-last", "CASE2"), ("choice-CASE4-last", "CASE3")] := by
  intro doc
  have hrun : ((doc.toGraph .standard).toOption.bind fun g => (g.node? "choice").bind fun node =>
      (g.removeBranch "choice" 1).toOption.map fun d =>
        (node.kind, (node.form.items "cases").length,
          d.graph.edges.map fun edge => (edge.id, edge.sourcePort)))
      = some (.ifElse, 3, [("start-right-choice", "right"), ("choice-CASE1-last", "CASE1"),
          ("choice-CASE3-last", "CASE2"), ("choice-CASE4-last", "CASE3")]) := by
    decide +kernel
  obtain ⟨g, hg, hnode⟩ := Option.bind_eq_some_iff.1 hrun
  obtain ⟨node, hfound, hremoved⟩ := Option.bind_eq_some_iff.1 hnode
  obtain ⟨d, hd, hfacts⟩ := Option.map_eq_some_iff.1 hremoved
  obtain ⟨hkind, hrest⟩ := Prod.mk.inj hfacts
  obtain ⟨hlength, hedges⟩ := Prod.mk.inj hrest
  obtain ⟨hmem, hid⟩ := mem_of_node? hfound
  have hok : doc.toGraph .standard = .ok g := toOption_eq_some_iff.1 hg
  have hreachable : g.Reachable := ⟨g, [], .loaded hok, rfl⟩
  have hkey : node.ListsBranches "cases" := .inl ⟨hkind, rfl⟩
  obtain ⟨d', hd', -⟩ := (removeBranch_follows hreachable hmem hkey 1).1 (by omega) (by omega)
  obtain rfl : d = d' := Except.ok.inj ((toOption_eq_some_iff.1 hd).symm.trans (hid ▸ hd'))
  exact ⟨g, node, d, hok, hreachable, hmem, hkey, hlength, hd', hedges⟩

/-! ## §4. Inserting a branch. -/

theorem insertBranch_eq_ok {g : Graph α} {node : Node α} {key : String} {blank : Json} {k : Nat}
    (hnode : g.require node.id = .ok node) (hfield : branchField node = .ok (key, blank))
    (hk : k ≤ (node.form.items key).length) :
    g.insertBranch node.id k
      = .ok
        (g.setBranches node.id key ((node.form.items key).insertIdx k blank) (.inserted k)) := by
  unfold insertBranch
  rw [hnode]
  show (branchField node >>= _) = _
  rw [hfield]
  show (if (node.form.items key).length < k then _ else _) = _
  rw [if_neg (Nat.not_lt.2 hk)]
  rfl

/-- A branch more is a port more, unless an if-else without cases gets its
first one. -/
theorem exitCount_insertIdx {kind : Kind} {items : List Json} {k : Nat} (hk : k ≤ items.length)
    (hcases : kind = .ifElse → items ≠ []) (blank : Json) :
    kind.exitCount (items.insertIdx k blank).length = kind.exitCount items.length + 1 := by
  unfold Kind.exitCount
  rw [List.length_insertIdx_of_le_length hk]
  split
  · rename_i hkind
    have hsome : 0 < items.length := List.length_pos_of_ne_nil (hcases hkind)
    omega
  · rfl

/-- Where every edge is put back, putting edges back drops none. -/
theorem exists_map_of_filterMap {edges : List Edge} {move : Edge → Option Edge}
    (h : ∀ edge ∈ edges, (move edge).isSome) :
    ∃ move' : Edge → Edge,
      edges.filterMap move = edges.map move' ∧ ∀ edge ∈ edges, move edge = some (move' edge) := by
  have hmove : ∀ edge ∈ edges, move edge = some ((move edge).getD edge) := by
    intro edge hedge
    obtain ⟨edge', hedge'⟩ := Option.isSome_iff_exists.1 (h edge hedge)
    rw [hedge', Option.getD_some]
  refine ⟨fun edge => (move edge).getD edge, ?_, hmove⟩
  rw [List.filterMap_congr hmove]
  exact congrFun List.filterMap_eq_map' edges

/-- What becomes of each edge when there is room for the port behind every
old one. -/
theorem edges_inserted {g : Graph α} (h : g.WellFormed) {node : Node α} (hnode : node ∈ g.nodes)
    {key : String} (hkey : node.ListsBranches key) (items : List Json) (k : Nat)
    (hroom : node.kind.exitCount (node.form.items key).length < node.kind.exitCount items.length) :
    ∃ move : Edge → Edge,
      (g.setBranches node.id key items (.inserted k)).graph.edges.Perm (g.edges.map move)
        ∧ ∀ edge ∈ g.edges,
          (edge.source ≠ node.id → move edge = edge)
            ∧ (edge.source = node.id →
              ∃ i < node.kind.exitCount (node.form.items key).length,
                edge.sourcePort = Port.caseId i
                  ∧ (i < k → move edge = edge)
                  ∧ (k ≤ i → move edge = { edge with sourcePort := Port.caseId (i + 1) })) := by
  obtain ⟨move, hedges, hmove⟩ := edges_setBranches h hnode hkey items (.inserted k)
  have hkept : ∀ edge ∈ g.edges, edge.source = node.id →
      ∃ i < node.kind.exitCount (node.form.items key).length,
        edge.sourcePort = Port.caseId i
          ∧ (i < k → move edge = some edge)
          ∧ (k ≤ i → move edge = some { edge with sourcePort := Port.caseId (i + 1) }) := by
    intro edge hedge hsource
    obtain ⟨i, hi, hport, hgone⟩ := (hmove edge hedge).2 hsource
    refine ⟨i, hi, hport, fun hbefore => ?_, fun hbehind => ?_⟩
    · rw [hgone, PortRemap.apply_inserted_of_lt hbefore, Option.bind_some, if_pos (by omega),
        ← hport]
    · rw [hgone, PortRemap.apply_inserted_of_le hbehind, Option.bind_some, if_pos (by omega)]
  -- There is room for all of them, so what is put back where it can be is put back.
  have hstays : ∀ edge ∈ g.edges, (move edge).isSome := by
    intro edge hedge
    by_cases hsource : edge.source = node.id
    · obtain ⟨i, -, -, hbefore, hbehind⟩ := hkept edge hedge hsource
      rcases Nat.lt_or_ge i k with hi | hi
      · rw [hbefore hi]
        rfl
      · rw [hbehind hi]
        rfl
    · rw [(hmove edge hedge).1 hsource]
      rfl
  obtain ⟨move', hmap, hmove'⟩ := exists_map_of_filterMap hstays
  refine ⟨move', hmap ▸ hedges, fun edge hedge => ⟨fun hsource => ?_, fun hsource => ?_⟩⟩
  · exact Option.some.inj ((hmove' edge hedge).symm.trans ((hmove edge hedge).1 hsource))
  · obtain ⟨i, hi, hport, hbefore, hbehind⟩ := hkept edge hedge hsource
    rw [hmove' edge hedge] at hbefore hbehind
    exact ⟨i, hi, hport, fun hlt => Option.some.inj (hbefore hlt),
      fun hle => Option.some.inj (hbehind hle)⟩

/-- **Inserting a branch drops no edge and misleads none.**  Into a node that
lists its branches one more can be inserted anywhere.  Unless the node is an
if-else without cases it then has one right port more, and

* of the edges that leave the node by a right port, those at a number before
  the new branch are as they were, and the others leave by the number behind
  theirs;
* an edge that left an if-else by its last port, the `ELSE`, does so again;
* all other edges, and the other nodes, are as they were. -/
theorem insertBranch_follows [Coordinate α] {g : Graph α} (hg : g.Reachable) {node : Node α}
    (hnode : node ∈ g.nodes) {key : String} (hkey : node.ListsBranches key)
    (hcases : node.kind = .ifElse → node.form.items key ≠ []) {k : Nat}
    (hk : k ≤ (node.form.items key).length) :
    ∃ d blank, g.insertBranch node.id k = .ok d ∧
      let items := (node.form.items key).insertIdx k blank
      let node' := node.reform (node.form.set key (.arr items))
      node'.form.items key = items
        ∧ (node'.portIds .right).length = (node.portIds .right).length + 1
        ∧ d.graph.nodes = (g.nodes.map fun other => if other.id = node.id then node' else other)
        ∧ ∃ move : Edge → Edge, d.graph.edges.Perm (g.edges.map move)
          ∧ ∀ edge ∈ g.edges,
            (edge.source ≠ node.id → move edge = edge)
              ∧ (edge.source = node.id → ∃ i, node.rightPortIndex? edge.sourcePort = some i
                ∧ (i < k → node'.rightPortIndex? edge.sourcePort = some i ∧ move edge = edge)
                ∧ (k ≤ i → ∃ port, node'.rightPortIndex? port = some (i + 1)
                    ∧ move edge = { edge with sourcePort := port })
                ∧ (node.kind = .ifElse →
                    (node.portIds .right).getLast? = some edge.sourcePort →
                    (node'.portIds .right).getLast? = some (move edge).sourcePort)) := by
  have hwell := hg.wellFormed
  have hports := hwell.ports node hnode
  have hrequire : g.require node.id = .ok node := require_of_node? (hwell.node?_of_mem hnode)
  obtain ⟨blank, hfield⟩ := Node.branchField_of_listsBranches hkey
  refine ⟨_, blank, insertBranch_eq_ok hrequire hfield hk, ?_⟩
  intro items node'
  have hcount : node.kind.exitCount items.length
      = node.kind.exitCount (node.form.items key).length + 1 := exitCount_insertIdx hk hcases blank
  -- There is one right port more, so the remap sends every number somewhere.
  obtain ⟨move, hedges, hmove⟩ := edges_inserted hwell hnode hkey items k (by omega)
  refine ⟨Form.items_set _ _ _, ?_, nodes_setBranches hwell hnode _ _ _, move, hedges,
    fun edge hedge => ⟨(hmove edge hedge).1, fun hsource => ?_⟩⟩
  · rw [Node.portIds_rebranched hkey, Node.portIds_of_listsBranches hkey hports]
    simpa using hcount
  · obtain ⟨i, hi, hport, hbefore, hbehind⟩ := (hmove edge hedge).2 hsource
    refine ⟨i, ?_, fun hlt => ?_, fun hle => ?_, fun hkind hlast => ?_⟩
    · rw [hport]
      exact (Node.rightPortIndex?_eq_some_iff hkey hports).2 ⟨hi, rfl⟩
    · refine ⟨?_, hbefore hlt⟩
      rw [hport]
      exact Node.rightPortIndex?_rebranched hkey (by omega)
    · exact ⟨_, Node.rightPortIndex?_rebranched hkey (by omega), hbehind hle⟩
    · -- The `ELSE` stands behind all cases, and so behind the new one.
      rw [Node.portIds_of_listsBranches hkey hports, Node.getLast?_caseIds] at hlast
      have hi' : i = node.kind.exitCount (node.form.items key).length - 1 :=
        Port.caseId_injective (hport.symm.trans hlast.2)
      have hbehindAll : k ≤ i := by
        have hcases := Kind.lt_exitCount hkind (node.form.items key).length
        omega
      rw [Node.portIds_rebranched hkey, Node.getLast?_caseIds, hbehind hbehindAll]
      exact ⟨by omega, congrArg Port.caseId (by omega)⟩

/-- A case more before the first one: the edges of that and of the `ELSE` move
up. -/
theorem insertBranch_follows_first :
    let doc : Document Rat :=
      { info := .blank
        nodes :=
          [⟨"start", .start, none, none, [], none, []⟩,
            ⟨"choice", .ifElse, none, none, [("cases", .arr [.int 0])], none, []⟩,
            ⟨"last", .llm, none, none, [], none, []⟩]
        edges :=
          [⟨"start", "choice", none, []⟩, ⟨"choice", "last", some "CASE1", []⟩,
            ⟨"choice", "last", some "CASE2", []⟩]
        vars := [] }
    ∃ g node d, doc.toGraph .standard = .ok g ∧ g.Reachable ∧ node ∈ g.nodes
      ∧ node.ListsBranches "cases" ∧ (node.kind = .ifElse → node.form.items "cases" ≠ [])
      ∧ 0 ≤ (node.form.items "cases").length
      ∧ g.insertBranch node.id 0 = .ok d
      ∧ d.graph.edges.map (fun edge => (edge.id, edge.sourcePort))
        = [("start-right-choice", "right"), ("choice-CASE1-last", "CASE2"),
          ("choice-CASE2-last", "CASE3")] := by
  intro doc
  have hrun : ((doc.toGraph .standard).toOption.bind fun g => (g.node? "choice").bind fun node =>
      (g.insertBranch "choice" 0).toOption.map fun d =>
        (node.kind, (node.form.items "cases").length,
          d.graph.edges.map fun edge => (edge.id, edge.sourcePort)))
      = some (.ifElse, 1, [("start-right-choice", "right"), ("choice-CASE1-last", "CASE2"),
          ("choice-CASE2-last", "CASE3")]) := by
    decide +kernel
  obtain ⟨g, hg, hnode⟩ := Option.bind_eq_some_iff.1 hrun
  obtain ⟨node, hfound, hinserted⟩ := Option.bind_eq_some_iff.1 hnode
  obtain ⟨d, hd, hfacts⟩ := Option.map_eq_some_iff.1 hinserted
  obtain ⟨hkind, hrest⟩ := Prod.mk.inj hfacts
  obtain ⟨hlength, hedges⟩ := Prod.mk.inj hrest
  obtain ⟨hmem, hid⟩ := mem_of_node? hfound
  have hok : doc.toGraph .standard = .ok g := toOption_eq_some_iff.1 hg
  have hreachable : g.Reachable := ⟨g, [], .loaded hok, rfl⟩
  have hkey : node.ListsBranches "cases" := .inl ⟨hkind, rfl⟩
  have hcases : node.kind = .ifElse → node.form.items "cases" ≠ [] :=
    fun _ => List.ne_nil_of_length_eq_add_one hlength
  obtain ⟨d', blank, hd', -⟩ :=
    insertBranch_follows hreachable hmem hkey hcases (Nat.zero_le _)
  obtain rfl : d = d' := Except.ok.inj ((toOption_eq_some_iff.1 hd).symm.trans (hid ▸ hd'))
  exact ⟨g, node, d, hok, hreachable, hmem, hkey, hcases, Nat.zero_le _, hd', hedges⟩

/-- **An if-else without cases has the ports of one**, and its first case gets
no port of its own: the edge that left by that port leaves by the `ELSE` then,
and the edge of the `ELSE` is gone. -/
theorem insertBranch_without_cases :
    let doc : Document Rat :=
      { info := .blank
        nodes :=
          [⟨"choice", .ifElse, none, none, [], none, []⟩, ⟨"a", .llm, none, none, [], none, []⟩,
            ⟨"b", .llm, none, none, [], none, []⟩]
        edges := [⟨"choice", "a", some "CASE1", []⟩, ⟨"choice", "b", some "CASE2", []⟩]
        vars := [] }
    ∃ g node d node', doc.toGraph .standard = .ok g
      ∧ g.node? "choice" = some node ∧ node.ListsBranches "cases"
      ∧ node.form.items "cases" = []
      ∧ g.insertBranch "choice" 0 = .ok d ∧ d.graph.node? "choice" = some node'
      ∧ node.portIds .right = ["CASE1", "CASE2"] ∧ node'.portIds .right = ["CASE1", "CASE2"]
      ∧ g.edges.map Edge.id = ["choice-CASE1-a", "choice-CASE2-b"]
      ∧ d.graph.edges.map Edge.id = ["choice-CASE1-a"]
      ∧ d.graph.edges.map Edge.sourcePort = ["CASE2"] := by
  intro doc
  have hrun : ((doc.toGraph .standard).toOption.bind fun g => (g.node? "choice").bind fun node =>
      (g.insertBranch "choice" 0).toOption.bind fun d => (d.graph.node? "choice").map fun node' =>
        (node.kind, (node.form.items "cases").isEmpty,
          [node.portIds .right, node'.portIds .right, g.edges.map Edge.id,
            d.graph.edges.map Edge.id, d.graph.edges.map Edge.sourcePort]))
      = some (.ifElse, true,
          [["CASE1", "CASE2"], ["CASE1", "CASE2"], ["choice-CASE1-a", "choice-CASE2-b"],
            ["choice-CASE1-a"], ["CASE2"]]) := by
    decide +kernel
  obtain ⟨g, hg, hnode⟩ := Option.bind_eq_some_iff.1 hrun
  obtain ⟨node, hfound, hinserted⟩ := Option.bind_eq_some_iff.1 hnode
  obtain ⟨d, hd, hnode'⟩ := Option.bind_eq_some_iff.1 hinserted
  obtain ⟨node', hfound', hfacts⟩ := Option.map_eq_some_iff.1 hnode'
  obtain ⟨hkind, hrest⟩ := Prod.mk.inj hfacts
  obtain ⟨hempty, hlists⟩ := Prod.mk.inj hrest
  simp only [List.cons.injEq, and_true] at hlists
  exact ⟨g, node, d, node', toOption_eq_some_iff.1 hg, hfound, .inl ⟨hkind, rfl⟩,
    List.isEmpty_iff.1 hempty, toOption_eq_some_iff.1 hd, hfound', hlists⟩

end Graph

end WorkflowEditor
