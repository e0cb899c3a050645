/-
  WorkflowEditor.Proofs.Overwriting
  ─────────────────────────────────
  **OVERWRITING A BRANCH FIELD KEEPS EVERY EDGE THAT STILL HAS A PORT.**

  When the field that decides the branches of a node is set as a whole, nobody
  knows which of the old branches the new ones are.  Then the number of a
  branch counts, and the `ELSE` of an if-else stays the `ELSE`:

    • `Edge.Carried` — what becomes of an edge that leaves the node, for each
      kind that branches,
    • `carried_of_leaves` — no edge is forgotten, and each gets what is said,
    • `Graph.Overwritten` — the graph in which a node took such a form,
    • `Graph.Reformed.overwritten` — making its ports anew leads there,
    • `Graph.Overwritten.edges_back` — errors that branch and then do not
      leave the edges of a request as they were,
    • `Graph.updateConfig_follows` — together.
-/
import WorkflowEditor.Proofs.BranchChanges

namespace WorkflowEditor

variable {α : Type}

/-! ## §1. The exits of a form. -/

namespace Form

/-- How many cases an if-else shows: one even if it lists none. -/
def caseCount (form : Form) : Nat := max (form.items "cases").length 1

/-- How many categories a question classifier shows. -/
def categoryCount (form : Form) : Nat := (form.items "categories").length

/-- A request has an exit of its own for errors. -/
def BranchesErrors (form : Form) : Prop :=
  form.nestedText? "error_handle" "method" = some "branch"

instance (form : Form) : Decidable form.BranchesErrors :=
  inferInstanceAs (Decidable (_ = _))

/-- The exit of a request for what went well. -/
def mainExit (form : Form) : String :=
  if form.BranchesErrors then Port.successId else Port.exit.id

end Form

theorem BranchLayout.of_httpRequest_eq (form : Form) :
    of .httpRequest form
      = if form.BranchesErrors then
          ⟨[.branch Port.successId Port.successId, .branch Port.errorId Port.errorId], false⟩
        else ⟨[.exit], false⟩ := rfl

theorem layoutIds_httpRequest_eq (form : Form) :
    layoutIds .httpRequest form
      = form.mainExit :: if form.BranchesErrors then [Port.errorId] else [] := by
  unfold layoutIds Form.mainExit
  rw [BranchLayout.of_httpRequest_eq]
  split <;> rfl

/-- What becomes of an edge that leaves a node of a kind when the node takes a
new form and nobody knows where its branches have changed. -/
inductive Edge.Carried (form form' : Form) (edge : Edge) : Kind → Option Edge → Prop
  /-- What left by the `ELSE` leaves by the `ELSE`. -/
  | otherwise : edge.sourcePort = Port.caseId form.caseCount →
      Carried form form' edge .ifElse
        (some { edge with sourcePort := Port.caseId form'.caseCount })
  /-- A case keeps its edges. -/
  | case {i : Nat} : i < form.caseCount → edge.sourcePort = Port.caseId i →
      i < form'.caseCount → Carried form form' edge .ifElse (some edge)
  /-- A case that is no more loses them. -/
  | noCase {i : Nat} : i < form.caseCount → edge.sourcePort = Port.caseId i →
      form'.caseCount ≤ i → Carried form form' edge .ifElse none
  /-- A category keeps its edges. -/
  | category {i : Nat} : i < form.categoryCount → edge.sourcePort = Port.caseId i →
      i < form'.categoryCount → Carried form form' edge .questionClassifier (some edge)
  /-- A category that is no more loses them. -/
  | noCategory {i : Nat} : i < form.categoryCount → edge.sourcePort = Port.caseId i →
      form'.categoryCount ≤ i → Carried form form' edge .questionClassifier none
  /-- What went well goes on, whatever its exit is called. -/
  | success : edge.sourcePort = form.mainExit →
      Carried form form' edge .httpRequest (some { edge with sourcePort := form'.mainExit })
  /-- Errors that go on branching keep their edges. -/
  | failure : form.BranchesErrors → edge.sourcePort = Port.errorId → form'.BranchesErrors →
      Carried form form' edge .httpRequest (some edge)
  /-- Errors that branch no more lose them. -/
  | noFailure : form.BranchesErrors → edge.sourcePort = Port.errorId → ¬ form'.BranchesErrors →
      Carried form form' edge .httpRequest none

theorem Edge.Carried.ends {form form' : Form} {edge edge' : Edge} {kind : Kind}
    (h : edge.Carried form form' kind (some edge')) :
    edge'.source = edge.source ∧ edge'.target = edge.target := by
  cases h <;> exact ⟨rfl, rfl⟩

/-- The exit for what went well is not the one for errors. -/
theorem Edge.Carried.of_mainExit {form form' : Form} {edge : Edge} {put : Option Edge}
    (h : edge.Carried form form' .httpRequest put) (hport : edge.sourcePort = form.mainExit) :
    put = some { edge with sourcePort := form'.mainExit } := by
  have hother (hbranches : form.BranchesErrors) : edge.sourcePort ≠ Port.errorId := by
    rw [hport, Form.mainExit, if_pos hbranches]
    decide
  cases h with
  | success => rfl
  | failure hbranches herror => exact absurd herror (hother hbranches)
  | noFailure hbranches herror => exact absurd herror (hother hbranches)

/-- Where errors do not branch there is no other exit. -/
theorem Edge.Carried.leaves_mainExit {form form' : Form} {edge : Edge} {put : Option Edge}
    (h : edge.Carried form form' .httpRequest put) (hsingle : ¬ form.BranchesErrors) :
    edge.sourcePort = form.mainExit := by
  cases h with
  | success hport => exact hport
  | failure hbranches => exact absurd hbranches hsingle
  | noFailure hbranches => exact absurd hbranches hsingle

/-! ## §2. Where edges are put back. -/

namespace PortRemap

/-- The last one stays the last one. -/
theorem apply_resized_last (old new : Nat) :
    (resized (old + 1) (new + 1) true).apply old = some new := by
  unfold apply
  dsimp only
  rw [if_pos ⟨rfl, Nat.succ_pos new, rfl⟩]
  rfl

/-- No other one takes the place of the last one. -/
theorem apply_resized_of_lt {i old : Nat} (h : i < old) (new : Nat) :
    (resized (old + 1) (new + 1) true).apply i = if i < new then some i else none := by
  unfold apply
  dsimp only
  rw [if_neg (by omega)]
  rfl

/-- Where no port is there to stay the last one, all keep their numbers. -/
theorem apply_resized (old new i : Nat) :
    (resized old new false).apply i = if i < new then some i else none := rfl

end PortRemap

/-- An edge that leaves by a port is put back at the one that the remap names,
if there is one. -/
theorem Edge.reattached?_of_index {edge : Edge} {id : String} {old new : List String} {i : Nat}
    {remap : PortRemap} (hsource : edge.source = id) (hi : old.idxOf? edge.sourcePort = some i) :
    edge.reattached? id old new remap
      = (remap.apply i).bind fun j => new[j]?.map fun port => { edge with sourcePort := port } := by
  unfold reattached?
  rw [if_pos hsource, hi]
  show (remap.apply i).bind _ = _
  congr 1
  funext j
  cases new[j]? <;> rfl

/-- The remap of a node that takes a new form, when nobody knows where its
branches have changed. -/
def Kind.resizing (kind : Kind) (form form' : Form) : PortRemap :=
  .resized (layoutIds kind form).length (layoutIds kind form').length
    (BranchLayout.of kind form').trailingElse

section Carried

variable {form form' : Form} {edge : Edge} {id : String}

/-- The edges of an if-else. -/
theorem carried_ifElse (hsource : edge.source = id)
    (hleaves : edge.sourcePort ∈ layoutIds .ifElse form) :
    edge.Carried form form' .ifElse (edge.reattached? id (layoutIds .ifElse form)
      (layoutIds .ifElse form') (Kind.resizing .ifElse form form')) := by
  have hids (form : Form) : layoutIds .ifElse form
      = (List.range (form.caseCount + 1)).map Port.caseId := layoutIds_ifElse form
  have hremap : Kind.resizing .ifElse form form'
      = .resized (form.caseCount + 1) (form'.caseCount + 1) true := by
    unfold Kind.resizing
    rw [hids, hids, List.length_map, List.length_map, List.length_range, List.length_range]
    rfl
  rw [hids] at hleaves
  obtain ⟨i, hi, hport⟩ := List.mem_map.1 hleaves
  have hi : i < form.caseCount + 1 := List.mem_range.1 hi
  rw [hids, hids, hremap, Edge.reattached?_of_number hsource hi hport.symm]
  rcases Nat.lt_succ_iff_lt_or_eq.1 hi with hcase | rfl
  · rw [PortRemap.apply_resized_of_lt hcase]
    by_cases hstays : i < form'.caseCount
    · rw [if_pos hstays, Option.bind_some, if_pos (Nat.lt_succ_of_lt hstays), hport]
      exact .case hcase hport.symm hstays
    · rw [if_neg hstays]
      exact .noCase hcase hport.symm (Nat.not_lt.1 hstays)
  · rw [PortRemap.apply_resized_last, Option.bind_some, if_pos (Nat.lt_succ_self _)]
    exact .otherwise hport.symm

/-- The edges of a question classifier. -/
theorem carried_questionClassifier (hsource : edge.source = id)
    (hleaves : edge.sourcePort ∈ layoutIds .questionClassifier form) :
    edge.Carried form form' .questionClassifier (edge.reattached? id
      (layoutIds .questionClassifier form) (layoutIds .questionClassifier form')
      (Kind.resizing .questionClassifier form form')) := by
  have hids (form : Form) : layoutIds .questionClassifier form
      = (List.range form.categoryCount).map Port.caseId := layoutIds_questionClassifier form
  have hremap : Kind.resizing .questionClassifier form form'
      = .resized form.categoryCount form'.categoryCount false := by
    unfold Kind.resizing
    rw [hids, hids, List.length_map, List.length_map, List.length_range, List.length_range]
    rfl
  rw [hids] at hleaves
  obtain ⟨i, hi, hport⟩ := List.mem_map.1 hleaves
  have hi : i < form.categoryCount := List.mem_range.1 hi
  rw [hids, hids, hremap, Edge.reattached?_of_number hsource hi hport.symm,
    PortRemap.apply_resized]
  by_cases hstays : i < form'.categoryCount
  · rw [if_pos hstays, Option.bind_some, if_pos hstays, hport]
    exact .category hi hport.symm hstays
  · rw [if_neg hstays]
    exact .noCategory hi hport.symm (Nat.not_lt.1 hstays)

/-- The edges of a request. -/
theorem carried_httpRequest (hsource : edge.source = id)
    (hleaves : edge.sourcePort ∈ layoutIds .httpRequest form) :
    edge.Carried form form' .httpRequest (edge.reattached? id (layoutIds .httpRequest form)
      (layoutIds .httpRequest form') (Kind.resizing .httpRequest form form')) := by
  have hremap : Kind.resizing .httpRequest form form'
      = .resized (layoutIds .httpRequest form).length (layoutIds .httpRequest form').length
          false := by
    unfold Kind.resizing
    rw [BranchLayout.of_httpRequest_eq]
    split <;> rfl
  rw [hremap, layoutIds_httpRequest_eq form']
  rw [layoutIds_httpRequest_eq] at hleaves ⊢
  rcases List.mem_cons.1 hleaves with hport | herror
  · -- The first exit is the first exit.
    have hindex : (form.mainExit :: if form.BranchesErrors then [Port.errorId] else []).idxOf?
        edge.sourcePort = some 0 := by
      rw [hport, List.idxOf?_cons]
      simp
    rw [Edge.reattached?_of_index hsource hindex, PortRemap.apply_resized]
    exact .success hport
  · have hbranches : form.BranchesErrors := by
      by_contra hnot
      rw [if_neg hnot] at herror
      cases herror
    rw [if_pos hbranches] at herror ⊢
    have hport : edge.sourcePort = Port.errorId := List.mem_singleton.1 herror
    have hexit : form.mainExit = Port.successId := if_pos hbranches
    have hindex : [form.mainExit, Port.errorId].idxOf? edge.sourcePort = some 1 := by
      rw [hport, hexit]
      decide
    rw [Edge.reattached?_of_index hsource hindex, PortRemap.apply_resized]
    by_cases hstays : form'.BranchesErrors
    · rw [if_pos hstays]
      show edge.Carried form form' .httpRequest (some { edge with sourcePort := Port.errorId })
      rw [← hport]
      exact .failure hbranches hport hstays
    · rw [if_neg hstays]
      exact .noFailure hbranches hport hstays

/-- **Every edge that leaves a node that branches is carried.** -/
theorem carried_of_leaves {kind : Kind} (hbranching : kind.isBranching) (hsource : edge.source = id)
    (hleaves : edge.sourcePort ∈ layoutIds kind form) :
    edge.Carried form form' kind (edge.reattached? id (layoutIds kind form)
      (layoutIds kind form') (kind.resizing form form')) := by
  cases kind with
  | ifElse => exact carried_ifElse hsource hleaves
  | questionClassifier => exact carried_questionClassifier hsource hleaves
  | httpRequest => exact carried_httpRequest hsource hleaves
  | _ => cases hbranching

end Carried

/-! ## §3. Setting a branch field. -/

namespace Graph

/-- What a graph is once one of its nodes took a new form, when nobody knows
where the branches of the node have changed: the node has the form and the
ports of that, and its edges stand behind the others, those that leave it
carried to its new ports. -/
structure Overwritten (g : Graph α) (node : Node α) (form : Form) (g' : Graph α) : Prop where
  nodes : g'.nodes = g.reformed node form
  edges : ∃ move, g'.edges = Edge.rewired node.id move g.edges
    ∧ (∀ edge ∈ g.edges, edge.source ≠ node.id → move edge = some edge)
    ∧ ∀ edge ∈ g.edges, edge.source = node.id → edge.Carried node.form form node.kind (move edge)

/-- **Making the ports of a node anew leads there.** -/
theorem Reformed.overwritten {g : Graph α} (h : g.WellFormed) {node : Node α}
    (hnode : node ∈ g.nodes) (hbranching : node.kind.isBranching) {form : Node α → Form}
    {d : Draft α} (hd : Reformed g node.id form d) :
    g.Overwritten node (form node) (d.resyncPorts node.id).graph := by
  have hold : node.portIds .right = layoutIds node.kind node.form :=
    Node.portIds_right (h.ports node hnode)
  have hremap : PortRemap.resized (node.portIds .right).length
      (BranchLayout.of node.kind (form node)).ports.length
      (BranchLayout.of node.kind (form node)).trailingElse
        = node.kind.resizing node.form (form node) := by
    have hnew : (layoutIds node.kind (form node)).length
        = (BranchLayout.of node.kind (form node)).ports.length := List.length_map _
    unfold Kind.resizing
    rw [hold, hnew]
  have hports : (d.resyncPorts node.id)
      = d.refreshPorts node.id (node.kind.resizing node.form (form node)) := by
    unfold Draft.resyncPorts
    rw [hd.node? h hnode, ← hremap]
    rfl
  rw [hports]
  refine ⟨hd.nodes_refreshPorts h hnode _, _, hd.edges_refreshPorts_eq h hnode _,
    fun edge _ => Edge.reattached?_of_ne, fun edge hedge hsource => ?_⟩
  have hleaves := h.leaves_of_source hnode hedge hsource
  rw [hold] at hleaves ⊢
  exact carried_of_leaves hbranching hsource hleaves

theorem updateConfig_overwrites {g : Graph α} (h : g.WellFormed) {node : Node α}
    (hnode : node ∈ g.nodes) (hbranching : node.kind.isBranching) {key : String}
    (hkey : key ∈ branchKeys) (value : Json) :
    ∃ d, g.updateConfig node.id key value = .ok d
      ∧ g.Overwritten node (node.form.set key value) d.graph := by
  have hd : Reformed g node.id (fun _ => node.form.set key value)
      ((g.draft.reviseNode node.id fun other =>
        { other with form := node.form.set key value }).emit (.dataChanged node.id)) := ⟨rfl, rfl⟩
  refine ⟨_, ?_, hd.overwritten h hnode hbranching⟩
  unfold updateConfig
  rw [require_of_node? (h.node?_of_mem hnode)]
  show Except.ok (if node.kind.isBranching ∧ key ∈ branchKeys then _ else _) = _
  rw [if_pos ⟨hbranching, hkey⟩, Kind.completeForm_of_isBranching hbranching]

end Graph

/-! ## §4. Errors that branch. -/

/-- The form of a request whose errors are to branch, or not to. -/
def Form.withErrors (form : Form) (enabled : Bool) : Form :=
  let handle := ((form.get? "error_handle").bind Json.obj?).getD []
  let method := Json.str (if enabled then "branch" else "none")
  form.set "error_handle" (.obj (Fields.insert handle "method" method))

theorem Form.branchesErrors_withErrors (form : Form) (enabled : Bool) :
    (form.withErrors enabled).BranchesErrors ↔ enabled := by
  have hset (handle : Fields) (method : Json) :
      ((form.set "error_handle" (.obj (handle.insert "method" method))).nestedText?
        "error_handle" "method") = method.str? := by
    unfold nestedText? get? set
    rw [Fields.lookup_insert_self, Option.bind_some]
    show (List.lookup "method" (Fields.insert handle "method" method)).bind _ = _
    rw [Fields.lookup_insert_self, Option.bind_some]
  unfold BranchesErrors withErrors
  dsimp only
  rw [hset]
  cases enabled <;> decide

namespace Graph

theorem setErrorBranch_overwrites {g : Graph α} (h : g.WellFormed) {node : Node α}
    (hnode : node ∈ g.nodes) (hkind : node.kind = .httpRequest) (enabled : Bool) :
    ∃ d, g.setErrorBranch node.id enabled = .ok d
      ∧ g.Overwritten node (node.form.withErrors enabled) d.graph := by
  have hbranching : node.kind.isBranching := by
    rw [hkind]
    rfl
  obtain ⟨d, hd, hover⟩ := updateConfig_overwrites h hnode hbranching
    (show "error_handle" ∈ branchKeys by decide)
    (.obj (Fields.insert (((node.form.get? "error_handle").bind Json.obj?).getD []) "method"
      (.str (if enabled then "branch" else "none"))))
  refine ⟨d, ?_, hover⟩
  unfold setErrorBranch
  rw [require_of_node? (h.node?_of_mem hnode)]
  show (if node.kind ≠ .httpRequest then _ else _) = _
  rw [if_neg fun hne => hne hkind]
  exact hd

/-- **Errors that branch and then do not leave the edges as they were**: what
left the request by its only exit leaves by the exit for what went well, and
comes back. -/
theorem Overwritten.edges_back {g g' g'' : Graph α} {node : Node α} {form form' : Form}
    (hkind : node.kind = .httpRequest) (hsingle : ¬ node.form.BranchesErrors)
    (h : g.Overwritten node form g') (h' : g'.Overwritten (node.reform form) form' g'')
    (hsingle' : ¬ form'.BranchesErrors) :
    g''.edges = (g.edges.filter fun edge => !edge.touches node.id)
      ++ g.edges.filter fun edge => edge.touches node.id := by
  obtain ⟨move, hedges, hothers, hcarried⟩ := h.edges
  obtain ⟨move', hedges', hothers', hcarried'⟩ := h'.edges
  have hback : ∀ edge ∈ g.edges, (move edge).bind move' = some edge := by
    intro edge hedge
    by_cases hsource : edge.source = node.id
    · have hthere := hcarried edge hedge hsource
      rw [hkind] at hthere
      have hport : edge.sourcePort = node.form.mainExit := hthere.leaves_mainExit hsingle
      have hmoved := hthere.of_mainExit hport
      have hmem : { edge with sourcePort := form.mainExit } ∈ g'.edges :=
        hedges ▸ Edge.mem_rewired hedge (Edge.touches_of_source hsource) hmoved
      have hhome := hcarried' _ hmem hsource
      rw [show (node.reform form).kind = .httpRequest from hkind] at hhome
      have hexits : form'.mainExit = edge.sourcePort := by
        rw [hport, Form.mainExit, Form.mainExit, if_neg hsingle, if_neg hsingle']
      rw [hmoved, Option.bind_some, hhome.of_mainExit rfl, hexits]
    · have hkept := hothers edge hedge hsource
      rw [hkept]
      exact hothers' edge (hedges ▸ Edge.mem_rewired_of_kept hedge hkept) hsource
  rw [hedges', hedges]
  show Edge.rewired node.id move' (Edge.rewired node.id move g.edges) = _
  rw [Edge.rewired_rewired fun edge hedge edge' hput => ?_]
  · exact Edge.rewired_eq_of_fixed fun edge hedge _ => hback edge hedge
  · by_cases hsource : edge.source = node.id
    · have hends := (hput ▸ hcarried edge hedge hsource).ends
      exact Edge.touches_congr hends.1 hends.2 node.id
    · rw [Option.some.inj ((hothers edge hedge hsource).symm.trans hput)]

/-! ## §5. All branch fields. -/

/-- **Overwriting a branch field keeps every edge that still has a port.**  Of a
node that branches any branch field can be set to any value.  Then the node has
the ports of its new form, and

* the edge of an `ELSE` leaves by the `ELSE`, and that of a case or a category
  by the same one, if that is still there, and is gone otherwise;
* an edge of a request for what went well stays, and one for errors is gone if
  errors do not branch any more;
* all other edges, and the other nodes, are as they were.

To let the errors of a request branch, or not, is such a change.  Done both
ways after one another, it leaves all edges of a request with one exit as they
were, behind the others and in the order that they had. -/
theorem updateConfig_follows [Coordinate α] {g : Graph α} (hg : g.Reachable) {node : Node α}
    (hnode : node ∈ g.nodes) (hbranching : node.kind.isBranching) :
    (∀ key ∈ branchKeys, ∀ value, ∃ d, g.updateConfig node.id key value = .ok d
        ∧ g.Overwritten node (node.form.set key value) d.graph)
      ∧ (node.kind = .httpRequest → ∀ enabled,
        ((node.form.withErrors enabled).BranchesErrors ↔ enabled)
          ∧ ∃ d, g.setErrorBranch node.id enabled = .ok d
            ∧ g.Overwritten node (node.form.withErrors enabled) d.graph)
      ∧ (node.kind = .httpRequest → ¬ node.form.BranchesErrors →
        ∃ d d', g.setErrorBranch node.id true = .ok d
          ∧ d.graph.setErrorBranch node.id false = .ok d'
          ∧ d'.graph.edges = (g.edges.filter fun edge => !edge.touches node.id)
            ++ g.edges.filter fun edge => edge.touches node.id) := by
  have hwell := hg.wellFormed
  refine ⟨fun key hkey value => updateConfig_overwrites hwell hnode hbranching hkey value,
    fun hkind enabled => ⟨node.form.branchesErrors_withErrors enabled,
      setErrorBranch_overwrites hwell hnode hkind enabled⟩, fun hkind hsingle => ?_⟩
  obtain ⟨d, hd, hover⟩ := setErrorBranch_overwrites hwell hnode hkind true
  have hwell' : d.graph.WellFormed := wellFormed_setErrorBranch hwell hd
  have hnode' : node.reform (node.form.withErrors true) ∈ d.graph.nodes :=
    hover.nodes ▸ mem_reformed_self hnode _
  obtain ⟨d', hd', hover'⟩ := setErrorBranch_overwrites hwell' hnode' hkind false
  refine ⟨d, d', hd, hd', hover.edges_back hkind hsingle hover' fun hbranches => ?_⟩
  exact Bool.false_ne_true ((Form.branchesErrors_withErrors _ false).1 hbranches)

/-- An if-else with two cases gets a list of one: the edge of the second case is
cut, and that of the `ELSE` moves up.  A request behind it lets its errors
branch and then does not: its edge goes to the exit for what went well and
back. -/
theorem updateConfig_follows_fewer :
    let doc : Document Rat :=
      { info := .blank
        nodes :=
          [⟨"choice", .ifElse, none, none, [("cases", .arr [.int 0, .int 1])], none, []⟩,
            ⟨"request", .httpRequest, none, none, [], none, []⟩,
            ⟨"last", .llm, none, none, [], none, []⟩]
        edges :=
          [⟨"choice", "request", some "CASE1", []⟩, ⟨"choice", "last", some "CASE2", []⟩,
            ⟨"request", "last", none, []⟩, ⟨"choice", "last", some "CASE3", []⟩]
        vars := [] }
    ∃ g choice request fewer branched single, doc.toGraph .standard = .ok g ∧ g.Reachable
      ∧ choice ∈ g.nodes ∧ choice.kind.isBranching ∧ request ∈ g.nodes ∧ request.kind.isBranching
      ∧ g.updateConfig choice.id "cases" (.arr [.null]) = .ok fewer
      ∧ g.setErrorBranch request.id true = .ok branched
      ∧ branched.graph.setErrorBranch request.id false = .ok single
      ∧ fewer.graph.edges.map (fun edge => (edge.id, edge.sourcePort))
        = [("request-right-last", "right"), ("choice-CASE1-request", "CASE1"),
          ("choice-CASE3-last", "CASE2")]
      ∧ branched.graph.edges.map Edge.sourcePort = ["CASE2", "CASE3", "CASE1", "SUCCESS"]
      ∧ single.graph.edges.map Edge.sourcePort = ["CASE2", "CASE3", "CASE1", "right"] := by
  intro doc
  have hrun : ((doc.toGraph .standard).toOption.bind fun g => (g.node? "choice").bind fun choice =>
      (g.node? "request").bind fun request =>
        (g.updateConfig "choice" "cases" (.arr [.null])).toOption.bind fun fewer =>
          (g.setErrorBranch "request" true).toOption.bind fun branched =>
            (branched.graph.setErrorBranch "request" false).toOption.map fun single =>
              ((choice.kind, request.kind, decide request.form.BranchesErrors),
                fewer.graph.edges.map fun edge => (edge.id, edge.sourcePort),
                branched.graph.edges.map Edge.sourcePort, single.graph.edges.map Edge.sourcePort))
      = some ((.ifElse, .httpRequest, false),
          [("request-right-last", "right"), ("choice-CASE1-request", "CASE1"),
            ("choice-CASE3-last", "CASE2")],
          ["CASE2", "CASE3", "CASE1", "SUCCESS"], ["CASE2", "CASE3", "CASE1", "right"]) := by
    decide +kernel
  obtain ⟨g, hg, hrun⟩ := Option.bind_eq_some_iff.1 hrun
  obtain ⟨choice, hchoice, hrun⟩ := Option.bind_eq_some_iff.1 hrun
  obtain ⟨request, hrequest, hrun⟩ := Option.bind_eq_some_iff.1 hrun
  obtain ⟨fewer, hfewer, hrun⟩ := Option.bind_eq_some_iff.1 hrun
  obtain ⟨branched, hbranched, hrun⟩ := Option.bind_eq_some_iff.1 hrun
  obtain ⟨single, hsingle, hfacts⟩ := Option.map_eq_some_iff.1 hrun
  simp only [Prod.mk.injEq, decide_eq_false_iff_not] at hfacts
  obtain ⟨⟨hkind, hkind', hone⟩, hedges, hedges', hedges''⟩ := hfacts
  obtain ⟨hmem, hid⟩ := mem_of_node? hchoice
  obtain ⟨hmem', hid'⟩ := mem_of_node? hrequest
  have hok : doc.toGraph .standard = .ok g := toOption_eq_some_iff.1 hg
  have hreachable : g.Reachable := ⟨g, [], .loaded hok, rfl⟩
  have hbranching : choice.kind.isBranching := by rw [hkind]; rfl
  have hbranching' : request.kind.isBranching := by rw [hkind']; rfl
  -- What was run is what the theorem speaks of.
  obtain ⟨d, hd, -⟩ :=
    (updateConfig_follows hreachable hmem hbranching).1 "cases" (by decide) (.arr [.null])
  obtain ⟨e, e', he, he', -⟩ :=
    (updateConfig_follows hreachable hmem' hbranching').2.2 hkind' hone
  obtain rfl : fewer = d := Except.ok.inj ((toOption_eq_some_iff.1 hfewer).symm.trans (hid ▸ hd))
  obtain rfl : branched = e :=
    Except.ok.inj ((toOption_eq_some_iff.1 hbranched).symm.trans (hid' ▸ he))
  obtain rfl : single = e' :=
    Except.ok.inj ((toOption_eq_some_iff.1 hsingle).symm.trans (hid' ▸ he'))
  exact ⟨g, choice, request, fewer, branched, single, hok, hreachable, hmem, hbranching, hmem',
    hbranching', hd, he, he', hedges, hedges', hedges''⟩

end Graph

end WorkflowEditor
