/-
  WorkflowEditor.Proofs.SavedDocument
  ───────────────────────────────────
  **WHAT IS SAVED IS SOUND.**

  The checks of a document know nothing of graphs.  Yet whatever was done to
  a graph, they find no fault with the way its document is put together; and
  where a graph was begun without nodes, every container has the one start
  that it was made with:

    • `Document.Found` — the issues that the check of a region can give,
    • `nodup_saved`, `enclosed_saved`, `joined_saved` — ids, containers and
      edges of a saved document,
    • `Founded` — every container has one start,
    • `Founded.opened`, `Founded.removed` — a new container gets its start,
      and a start goes with its container only,
    • `validate_toDocument_run` — so much holds of every document that is
      saved.
-/
import WorkflowEditor.Proofs.Applied
import WorkflowEditor.Proofs.SaveReload
import WorkflowEditor.Proofs.Validity

namespace WorkflowEditor

/-! ## §1. The issues of a region. -/

namespace Document

variable {α : Type}

/-- What the check of a region may find. -/
inductive Found (d : Document α) (region : Region) : Issue → Prop
  | missingStart : d.starts region = [] → Found d region (.missingStart region)
  | multipleStarts : 1 < (d.starts region).length →
      Found d region (.multipleStarts region (d.starts region).length)
  | missingEnd : Found d region .missingEnd
  | unreachable {nodes : List String} : Found d region (.unreachable region nodes)
  | cycle {path : List String} : Found d region (.cycle path)

theorem found_of_mem_boundaryIssues {d : Document α} {region : Region} {issue : Issue}
    (h : issue ∈ d.boundaryIssues region) : d.Found region issue := by
  unfold boundaryIssues at h
  rcases List.mem_append.1 h with hstart | hend
  · split at hstart
    · rename_i hnone
      exact List.mem_singleton.1 hstart ▸ .missingStart hnone
    · cases hstart
    · rename_i many hnone hone
      obtain rfl := List.mem_singleton.1 hstart
      refine .multipleStarts ?_
      -- Neither none nor one, so there are more.
      match hstarts : d.starts region with
      | [] => exact absurd hstarts hnone
      | [start] => exact absurd hstarts (hone start)
      | _ :: _ :: _ => simp
  · split at hend
    · exact List.mem_singleton.1 hend ▸ .missingEnd
    · cases hend

/-- **The check of a region finds nothing else.** -/
theorem found_of_mem_regionIssues {d : Document α} {region : Region} {issue : Issue}
    (h : issue ∈ d.regionIssues region) : d.Found region issue := by
  unfold regionIssues at h
  split at h
  · split at h
    · dsimp only at h
      split at h
      · exact List.mem_singleton.1 h ▸ .cycle
      · cases h
    · exact List.mem_singleton.1 h ▸ .unreachable
  · exact found_of_mem_boundaryIssues h

end Document

/-! ## §2. The document of a graph. -/

namespace Graph

variable {α : Type} {g : Graph α}

/-- A node is saved as it is, unless it is a placeholder. -/
theorem mem_saved {stored : StoredNode α} :
    stored ∈ g.toDocument.nodes ↔ ∃ node ∈ g.lastingNodes, node.toStored = stored := List.mem_map

theorem nodup_saved (h : g.WellFormed) : (g.toDocument.nodes.map StoredNode.id).Nodup := by
  unfold toDocument
  rw [List.map_map]
  exact h.nodup_ids.sublist (List.filter_sublist.map Node.id)

/-- A container is no placeholder, so it is saved with its children. -/
theorem enclosed_saved (h : g.WellFormed) :
    ∀ node ∈ g.toDocument.nodes, ∀ parent, node.cycle = some parent →
      ∃ container ∈ g.toDocument.nodes, container.id = parent ∧ container.kind.isContainer := by
  intro stored hstored parent hparent
  obtain ⟨node, hnode, rfl⟩ := mem_saved.1 hstored
  obtain ⟨container, hcontainer, hid, hencloses⟩ :=
    h.cycles node (mem_lastingNodes.1 hnode).1 parent hparent
  have hlasting := mem_lastingNodes.2 ⟨hcontainer, hencloses.not_placeholder⟩
  exact ⟨container.toStored, mem_saved.2 ⟨container, hlasting, rfl⟩, hid, hencloses.container⟩

/-- An edge is saved only with both of its ends. -/
theorem joined_saved (h : g.WellFormed) :
    ∀ edge ∈ g.toDocument.edges, ∃ source ∈ g.toDocument.nodes, ∃ target ∈ g.toDocument.nodes,
      source.id = edge.source ∧ target.id = edge.target ∧ source.cycle = target.cycle := by
  intro stored hstored
  have hmem : stored ∈ g.edges.filterMap g.storedEdge? :=
    distinctRoutes_storedEdges h ▸ hstored
  obtain ⟨edge, hedge, hsaved⟩ := List.mem_filterMap.1 hmem
  obtain ⟨source, hsource, target, htarget, hjoins⟩ := h.edges edge hedge
  rw [storedEdge?_eq h hsource htarget hjoins, atPlaceholder_eq h hsource htarget hjoins] at hsaved
  split at hsaved
  · cases hsaved
  rename_i hplain
  obtain rfl := Option.some.inj hsaved
  obtain ⟨hplain, hplain'⟩ : source.kind.isPlaceholder = false
      ∧ target.kind.isPlaceholder = false := by simpa using hplain
  have hlasting := mem_lastingNodes.2 ⟨hsource, hplain⟩
  have hlasting' := mem_lastingNodes.2 ⟨htarget, hplain'⟩
  exact ⟨source.toStored, mem_saved.2 ⟨source, hlasting, rfl⟩, target.toStored,
    mem_saved.2 ⟨target, hlasting', rfl⟩, hjoins.source_id, hjoins.target_id, hjoins.same_cycle⟩

/-- **No check finds anything, but for those of the regions.** -/
theorem found_of_mem_validate (h : g.WellFormed) {issue : Issue}
    (hissue : issue ∈ g.toDocument.validate) :
    ∃ region ∈ g.toDocument.regions, g.toDocument.Found region issue := by
  have hids := nodup_saved h
  have hcycles := enclosed_saved h
  have hduplicates := Document.duplicateIssues_eq_nil_iff.2 hids
  have hcontainers := (Document.cycleIssues_eq_nil_iff hids).2 hcycles
  have hedges := (Document.edgeIssues_eq_nil_iff hids hcycles).2 (joined_saved h)
  unfold Document.validate at hissue
  rw [hduplicates, hcontainers, hedges] at hissue
  obtain ⟨region, hregion, hissue⟩ := List.mem_flatMap.1 hissue
  exact ⟨region, hregion, Document.found_of_mem_regionIssues hissue⟩

end Graph

/-! ## §3. The start of a container. -/

section Starts

variable {α : Type}

/-- Whether a node is a start of the container with an id. -/
def Node.startsIn (id : String) (node : Node α) : Bool :=
  node.cycle == some id && node.kind == .cycleStart

theorem Node.startsIn_iff {id : String} {node : Node α} :
    node.startsIn id ↔ node.cycle = some id ∧ node.kind = .cycleStart := by
  unfold startsIn
  rw [Bool.and_eq_true, beq_iff_eq, beq_iff_eq]

/-- What a node is for its container: its id, its kind and the container. -/
def Node.standing (node : Node α) : String × Kind × Option String :=
  (node.id, node.kind, node.cycle)

/-- What nodes are for their containers does not depend on their places. -/
theorem standings_unplaced (nodes : List (Node α)) :
    (nodes.map Node.unplaced).map Node.standing = nodes.map Node.standing := by
  rw [List.map_map]
  rfl

namespace Graph

/-- Every container has one start. -/
def Founded (g : Graph α) : Prop :=
  ∀ container ∈ g.nodes, container.kind.isContainer →
    g.nodes.countP (Node.startsIn container.id) = 1

theorem Founded.existsUnique {g : Graph α} (h : g.Founded) {container : Node α}
    (hcontainer : container ∈ g.nodes) (hkind : container.kind.isContainer) :
    ∃! start, start ∈ g.nodes ∧ start.cycle = some container.id ∧ start.kind = .cycleStart := by
  have hone := h container hcontainer hkind
  rw [List.countP_eq_length_filter] at hone
  obtain ⟨start, hstart⟩ := List.length_eq_one_iff.1 hone
  have hmem (node : Node α) : (node ∈ g.nodes ∧ node.cycle = some container.id
      ∧ node.kind = .cycleStart) ↔ node = start := by
    rw [← Node.startsIn_iff, ← List.mem_filter, hstart, List.mem_singleton]
  exact ⟨start, (hmem start).2 rfl, fun node => (hmem node).1⟩

/-- **Names, forms, ports and places do not matter.** -/
theorem Founded.congr {g g' : Graph α} (h : g.Founded)
    (hsame : g'.nodes.map Node.standing = g.nodes.map Node.standing) : g'.Founded := by
  intro container hcontainer hkind
  obtain ⟨before, hbefore, heq⟩ := List.mem_map.1 (hsame ▸ List.mem_map_of_mem hcontainer)
  obtain ⟨hid, hkinds⟩ := Prod.mk.inj heq
  have hkinds : before.kind = container.kind := (Prod.mk.inj hkinds).1
  have hcount (nodes : List (Node α)) : nodes.countP (Node.startsIn container.id)
      = (nodes.map Node.standing).countP fun standing =>
          standing.2.2 == some container.id && standing.2.1 == .cycleStart := by
    rw [List.countP_map]
    rfl
  rw [hcount, hsame, ← hcount, ← hid]
  exact h before hbefore (hkinds ▸ hkind)

theorem Founded.congr_unplaced {g g' : Graph α} (h : g.Founded)
    (hunplaced : g'.unplaced = g.unplaced) : g'.Founded := by
  refine h.congr ?_
  rw [← standings_unplaced g'.nodes, (Prod.mk.inj hunplaced).1, standings_unplaced]

theorem founded_of_nil {g : Graph α} (h : g.nodes = []) : g.Founded := by
  intro container hcontainer
  rw [h] at hcontainer
  cases hcontainer

/-- A new node that is neither a container nor a start changes nothing. -/
theorem Founded.append {g g' : Graph α} (h : g.Founded) {node : Node α}
    (hnodes : g'.nodes = g.nodes ++ [node]) (hplain : ¬ node.kind.isContainer)
    (hstart : node.kind ≠ .cycleStart) : g'.Founded := by
  intro container hcontainer hkind
  rw [hnodes] at hcontainer ⊢
  rcases List.mem_append.1 hcontainer with hold | hnew
  · have hother : ¬ node.startsIn container.id := fun hin =>
      hstart (Node.startsIn_iff.1 hin).2
    rw [List.countP_append, h container hold hkind, List.countP_singleton, if_neg hother]
  · exact absurd (List.mem_singleton.1 hnew ▸ hkind) hplain

/-- **A new container comes with its start**: it encloses nothing yet, as its
id is new. -/
theorem Founded.opened {g g' : Graph α} (h : g.Founded) (hwell : g.WellFormed)
    {container start : Node α} (hnodes : g'.nodes = g.nodes ++ [container] ++ [start])
    (hfresh : container.id ∉ g.nodes.map Node.id) (htop : container.cycle = none)
    (hstart : start.startsIn container.id) : g'.Founded := by
  have hids : ∀ other ∈ g.nodes, other.id ≠ container.id := fun other hother heq =>
    hfresh (heq ▸ List.mem_map_of_mem hother)
  have hnone : g.nodes.countP (Node.startsIn container.id) = 0 := by
    refine List.countP_eq_zero.2 fun other hother hin => ?_
    obtain ⟨parent, hparent, hid, -⟩ :=
      hwell.cycles other hother _ (Node.startsIn_iff.1 hin).1
    exact hids parent hparent hid
  have hself (id : String) : ¬ container.startsIn id := fun hin => by
    rw [Node.startsIn_iff, htop] at hin
    cases hin.1
  intro other hother hkind
  -- Of the two new nodes the first is no start, and the second counts for the first only.
  rw [hnodes] at hother ⊢
  rw [List.countP_append, List.countP_append, List.countP_singleton, List.countP_singleton,
    if_neg (hself other.id)]
  obtain ⟨hinside, hstartKind⟩ := Node.startsIn_iff.1 hstart
  rcases List.mem_append.1 hother with hother | hlast
  · rcases List.mem_append.1 hother with hold | hnew
    · have hapart : ¬ start.startsIn other.id := fun hin => by
        have hsame := hinside.symm.trans (Node.startsIn_iff.1 hin).1
        exact hids other hold (Option.some.inj hsame).symm
      rw [if_neg hapart, h other hold hkind]
    · obtain rfl := List.mem_singleton.1 hnew
      rw [if_pos hstart, hnone]
  · rw [List.mem_singleton.1 hlast, hstartKind] at hkind
    cases hkind

/-- **A start goes with its container only**, as long as it is not the node
that is removed. -/
theorem Founded.removed {g g' : Graph α} (h : g.Founded) (hwell : g.WellFormed) {node : Node α}
    (hnode : node ∈ g.nodes) (hfree : ¬ (node.kind = .cycleStart ∧ (g.containerOf? node).isSome))
    (hnodes : g'.nodes = g.nodes.filter fun other => !(g.doomed node).contains other.id) :
    g'.Founded := by
  intro container hcontainer hkind
  rw [hnodes] at hcontainer ⊢
  obtain ⟨hmem, hkept⟩ := List.mem_filter.1 hcontainer
  have hkept : container.id ∉ g.doomed node := by simpa using hkept
  have hstays : ∀ start ∈ g.nodes, start.startsIn container.id → start.id ∉ g.doomed node := by
    intro start hstart hin hdoomed
    obtain ⟨hinside, hstartKind⟩ := Node.startsIn_iff.1 hin
    obtain ⟨other, hother, hid, hgoes⟩ := (mem_doomed hnode).1 hdoomed
    obtain rfl := hwell.eq_of_id hother hstart hid
    rcases hgoes with rfl | ⟨-, hcycle⟩
    · refine hfree ⟨hstartKind, ?_⟩
      exact Option.isSome_of_eq_some
        ((containerOf?_eq_some_iff hwell.nodup_ids).2 ⟨hmem, hinside⟩)
    · -- A child of the removed node is in that, and in no other container.
      rw [hinside] at hcycle
      exact hkept ((mem_doomed hnode).2 ⟨node, hnode, (Option.some.inj hcycle).symm, .inl rfl⟩)
  rw [List.countP_filter, ← h container hmem hkind]
  refine List.countP_congr fun start hstart => ?_
  constructor
  · exact fun hin => (Bool.and_eq_true_iff.1 hin).1
  · exact fun hin => Bool.and_eq_true_iff.2 ⟨hin, by simpa using hstays start hstart hin⟩

end Graph

end Starts

/-! ## §4. Changes in turn. -/

namespace Graph

variable {α : Type}

theorem standing_reviseNode (d : Draft α) (id : String) {f : Node α → Node α}
    (hf : ∀ node, (f node).standing = node.standing) :
    (d.reviseNode id f).graph.nodes.map Node.standing = d.graph.nodes.map Node.standing :=
  d.map_reviseNode id hf

theorem standing_refreshPorts (d : Draft α) (id : String) (remap : PortRemap) :
    (d.refreshPorts id remap).graph.nodes.map Node.standing
      = d.graph.nodes.map Node.standing := by
  cases hnode : d.graph.node? id with
  | none =>
      unfold Draft.refreshPorts
      rw [hnode]
  | some node =>
      rw [d.refreshPorts_nodes remap hnode]
      refine map_map_ite ?_ d.graph.nodes
      exact fun _ _ => rfl

theorem standing_resyncPorts (d : Draft α) (id : String) :
    (d.resyncPorts id).graph.nodes.map Node.standing = d.graph.nodes.map Node.standing := by
  unfold Draft.resyncPorts
  split
  · rfl
  · exact standing_refreshPorts d id _

variable [Coordinate α]

/-- **No change leaves a container without its start**, or gives it
another. -/
theorem Founded.applied {g : Graph α} {made : Kind → Prop} {d : Draft α} (h : g.Founded)
    (hwell : g.WellFormed) (happlied : g.Applied made d) : d.graph.Founded := by
  -- Starts are counted by container: only adding and removing change a count, and ports, positions
  -- and sizes are not looked at.
  cases happlied with
  | @added kind position cycle _ hreserved hcontainer _ =>
      refine Founded.congr_unplaced ?_ (Draft.unplaced_fitEnclosing _ _)
      refine h.append (g.draft.spawn_nodes kind position cycle) hcontainer ?_
      rintro hkind
      have hkind : kind = .cycleStart := hkind
      exact hreserved (hkind ▸ rfl)
  | @opened kind position corner =>
      let first := (g.draft.spawn kind position none).1
      let container := g.draft.spawned kind position none
      let start := first.spawned .cycleStart corner (some container.id)
      have hnodes : (first.spawn .cycleStart corner (some container.id)).1.graph.nodes
          = g.nodes ++ [container] ++ [start] := rfl
      have hstart : start.startsIn container.id := Node.startsIn_iff.2 ⟨rfl, rfl⟩
      exact h.opened hwell hnodes (g.freshNodeId_not_mem kind) rfl hstart
  | removed hrequire hfree =>
      refine Founded.congr_unplaced ?_ (Draft.unplaced_fitEnclosing _ _)
      refine h.removed hwell (mem_of_require hrequire).1 hfree ?_
      unfold without
      rw [Draft.foldl_discard_nodes, Draft.emitAll_nodes]
      rfl
  | connected => exact h.congr rfl
  | cut => exact h.congr rfl
  | moved =>
      refine h.congr_unplaced ?_
      rw [Draft.unplaced_fitEnclosing, Draft.unplaced_foldl fun d child => d.unplaced_place _ _,
        Draft.unplaced_place]
      rfl
  | resized =>
      refine h.congr_unplaced ((Draft.unplaced_fitEnclosing _ _).trans ?_)
      exact g.draft.unplaced_reviseNode _ fun _ => rfl
  | renamed => exact h.congr (standing_reviseNode _ _ fun _ => rfl)
  | filled => exact h.congr (standing_reviseNode _ _ fun _ => rfl)
  | resynced =>
      refine h.congr ((standing_resyncPorts _ _).trans ?_)
      exact standing_reviseNode g.draft _ fun _ => rfl
  | branched =>
      refine h.congr ((standing_refreshPorts _ _ _).trans ?_)
      exact standing_reviseNode g.draft _ fun _ => rfl
  | pruned =>
      refine h.congr ((standing_refreshPorts _ _ _).trans ?_)
      exact standing_reviseNode g.draft _ fun _ => rfl
  | redeclared => exact h.congr rfl

theorem Founded.run {g : Graph α} (h : g.Founded) (hwell : g.WellFormed)
    (changes : List (Edit α)) : (g.run changes).Founded := by
  induction changes generalizing g with
  | nil => exact h
  | cons change changes ih =>
      refine ih (g := g.after change) ?_ (hwell.after change)
      unfold after
      split
      · rename_i d hok
        exact h.applied hwell (applied_edit hok)
      · exact h

/-! ## §5. Saving. -/

/-- A start is no placeholder, so a container is saved with one start. -/
theorem Founded.starts_saved {α : Type} {g : Graph α} (h : g.Founded) (hwell : g.WellFormed)
    {id : String} (hregion : .container id ∈ g.toDocument.regions) :
    ∃ start, g.toDocument.starts (.container id) = [start] := by
  have hcontainer : ∃ container ∈ g.nodes, container.kind.isContainer ∧ container.id = id := by
    unfold Document.regions at hregion
    rcases List.mem_cons.1 hregion with hworkflow | hregion
    · cases hworkflow
    obtain ⟨stored, hstored, heq⟩ := List.mem_map.1 hregion
    obtain ⟨hstored, hkind⟩ := List.mem_filter.1 hstored
    obtain ⟨container, hmem, rfl⟩ := mem_saved.1 hstored
    exact ⟨container, (mem_lastingNodes.1 hmem).1, hkind, Region.container.inj heq⟩
  obtain ⟨container, hmem, hkind, rfl⟩ := hcontainer
  obtain ⟨start, ⟨hstart, hcycle, hstartKind⟩, honly⟩ := h.existsUnique hmem hkind
  refine ⟨start.id, ?_⟩
  show g.toDocument.starts (Region.ofScope (some container.id)) = [start.id]
  refine (Document.starts_eq_singleton_iff (nodup_saved hwell) (enclosed_saved hwell)).2
    ⟨start.toStored, rfl, ⟨?_, hcycle, hstartKind⟩, ?_⟩
  · refine mem_saved.2 ⟨start, mem_lastingNodes.2 ⟨hstart, ?_⟩, rfl⟩
    rw [hstartKind]
    rfl
  · rintro other ⟨hother, hother', hotherKind⟩
    obtain ⟨node, hnode, rfl⟩ := mem_saved.1 hother
    rw [honly node ⟨(mem_lastingNodes.1 hnode).1, hother', hotherKind⟩]

/-- **What is saved is sound.**  Whatever changes were made, by whatever
document they began, the saved document has no id twice, no edge that leads
nowhere or out of a container, and no container that is none.  If they began
without nodes, every container has one start, and is saved with it. -/
theorem validate_toDocument_run {start : Graph α} (h : start.Initial) (changes : List (Edit α)) :
    let g := start.run changes
    let issues := g.toDocument.validate
    ((∀ id, .duplicateNode id ∉ issues)
      ∧ (∀ source target, .danglingEdge source target ∉ issues)
      ∧ (∀ id parent, .invalidCycle id parent ∉ issues)
      ∧ ∀ source target, .crossingEdge source target ∉ issues)
    ∧ ∀ settings, start = .empty settings →
      (∀ id, .missingStart (.container id) ∉ issues)
      ∧ (∀ id count, .multipleStarts (.container id) count ∉ issues)
      ∧ ∀ container ∈ g.nodes, container.kind.isContainer →
        ∃! node, node ∈ g.nodes ∧ node.cycle = some container.id ∧ node.kind = .cycleStart := by
  intro g issues
  have hwell : g.WellFormed := h.wellFormed.run changes
  refine ⟨⟨?duplicate, ?dangling, ?invalid, ?crossing⟩, ?starts⟩
  case starts =>
      rintro settings rfl
      have hfounded : g.Founded := (founded_of_nil rfl).run h.wellFormed changes
      refine ⟨fun id hissue => ?_, fun id count hissue => ?_, fun _ => hfounded.existsUnique⟩
      · obtain ⟨_, hregion, hfound⟩ := found_of_mem_validate hwell hissue
        cases hfound with
        | missingStart hnone =>
            obtain ⟨_, hone⟩ := hfounded.starts_saved hwell hregion
            rw [hone] at hnone
            cases hnone
      · obtain ⟨_, hregion, hfound⟩ := found_of_mem_validate hwell hissue
        cases hfound with
        | multipleStarts hmany =>
            obtain ⟨_, hone⟩ := hfounded.starts_saved hwell hregion
            rw [hone] at hmany
            exact absurd hmany (Nat.lt_irrefl 1)
  -- The checks of the regions give no issues of the other kinds.
  all_goals
    intros
    intro hissue
    obtain ⟨_, -, hfound⟩ := found_of_mem_validate hwell hissue
    cases hfound

/-- A loop with a placeholder in it, whose start is asked to be removed:
that is refused, and the loop is saved with its start alone. -/
theorem validate_toDocument_run_loop :
    let start : Graph Rat := .empty .standard
    let changes : List (Edit Rat) :=
      [.addNode .loop ⟨0, 0⟩, .addNode .addNode ⟨60, 100⟩, .removeNode "cycle_start_1"]
    let g := start.run changes
    start.Initial
      ∧ (∀ id, .duplicateNode id ∉ g.toDocument.validate)
      ∧ (∀ id, .missingStart (.container id) ∉ g.toDocument.validate)
      ∧ (∀ id count, .multipleStarts (.container id) count ∉ g.toDocument.validate)
      ∧ g.nodes.map Node.standing
        = [("loop_1", .loop, none), ("cycle_start_1", .cycleStart, some "loop_1"),
          ("add_node_1", .addNode, some "loop_1")] := by
  intro start changes g
  have hstart : start.Initial := .empty .standard
  obtain ⟨⟨hduplicate, -⟩, hstarts⟩ := validate_toDocument_run hstart changes
  obtain ⟨hmissing, hmultiple, -⟩ := hstarts .standard rfl
  exact ⟨hstart, hduplicate, hmissing, hmultiple, by decide +kernel⟩

end Graph

end WorkflowEditor
