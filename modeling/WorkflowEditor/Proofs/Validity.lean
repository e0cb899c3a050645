/-
  WorkflowEditor.Proofs.Validity
  ──────────────────────────────
  **WHAT A DOCUMENT HAS TO BE LIKE TO BE VALID.**

  The rules of a document that can be run are stated of the nodes and edges
  as they are stored, without the tables and the searches by which they are
  checked.  A scope is the container that nodes name, or the workflow where
  they name none:

    • `Runnable`, `Passable` — the rules of a document and of a scope,
    • `mem_members_iff`, `mem_innerEdges_iff` — where ids are distinct and
      containers are what they say, a region is a scope,
    • `leads_iff` — the searches walk along the edges of the scope,
    • `regionIssues_eq_nil_iff` — so a region has no issue if its scope can
      be passed through,
    • `isValid_iff_runnable` — and a document is valid if it can be run.
-/
import WorkflowEditor.Document.Validation
import WorkflowEditor.Proofs.DepthFirst
import Mathlib.Logic.Relation

namespace WorkflowEditor

variable {α : Type}

/-! ## §1. The rules. -/

/-- The kind of node at which a scope is entered. -/
def entranceKind : Option String → Kind
  | none => .start
  | some _ => .cycleStart

/-- A scope as a region of a report. -/
def Region.ofScope : Option String → Region
  | none => .workflow
  | some id => .container id

theorem Region.ofScope_injective {scope scope' : Option String}
    (h : Region.ofScope scope = Region.ofScope scope') : scope = scope' := by
  cases scope with
  | none =>
      cases scope' with
      | none => rfl
      | some _ => cases h
  | some id =>
      cases scope' with
      | none => cases h
      | some id' => rw [Region.container.inj h]

namespace Document

/-- Both ends of an edge are in a scope. -/
structure Inside (d : Document α) (scope : Option String) (edge : StoredEdge) : Prop where
  source : ∃ node ∈ d.nodes, node.id = edge.source ∧ node.cycle = scope
  target : ∃ node ∈ d.nodes, node.id = edge.target ∧ node.cycle = scope

/-- An edge that is no error route and at no loop. -/
structure Strict (d : Document α) (edge : StoredEdge) : Prop where
  plain : edge.extra.lookup "type" ≠ some (.str "error")
  apart : ∀ node ∈ d.nodes, node.id = edge.source ∨ node.id = edge.target → node.kind ≠ .loop

/-- Getting from one id to another along an edge of a scope. -/
def Step (d : Document α) (scope : Option String) (a b : String) : Prop :=
  ∃ edge ∈ d.edges, edge.source = a ∧ edge.target = b ∧ d.Inside scope edge

/-- Getting from one id to another along a strict edge of a scope. -/
def StrictStep (d : Document α) (scope : Option String) (a b : String) : Prop :=
  ∃ edge ∈ d.edges, edge.source = a ∧ edge.target = b ∧ d.Inside scope edge ∧ d.Strict edge

/-- A scope can be passed through: it has one entrance, from there every node
but placeholders can be reached, and no strict edges close a cycle. -/
structure Passable (d : Document α) (scope : Option String) : Prop where
  entrance : ∃! node, node ∈ d.nodes ∧ node.cycle = scope ∧ node.kind = entranceKind scope
  reached : ∀ start ∈ d.nodes, start.cycle = scope → start.kind = entranceKind scope →
    ∀ node ∈ d.nodes, node.cycle = scope → node.kind.isPlaceholder = false →
      Relation.ReflTransGen (d.Step scope) start.id node.id
  acyclic : ∀ id, ¬ Relation.TransGen (d.StrictStep scope) id id

/-- A document that can be run. -/
structure Runnable (d : Document α) : Prop where
  distinct : (d.nodes.map StoredNode.id).Nodup
  enclosed : ∀ node ∈ d.nodes, ∀ parent, node.cycle = some parent →
    ∃ container ∈ d.nodes, container.id = parent ∧ container.kind.isContainer
  joined : ∀ edge ∈ d.edges, ∃ source ∈ d.nodes, ∃ target ∈ d.nodes,
    source.id = edge.source ∧ target.id = edge.target ∧ source.cycle = target.cycle
  finish : ∃ node ∈ d.nodes, node.cycle = none ∧ node.kind = .finish
  workflow : d.Passable none
  bodies : ∀ container ∈ d.nodes, container.kind.isContainer → d.Passable (some container.id)

/-! ## §2. Checks of the document as a whole. -/

/-- No name is repeated exactly if all are distinct, and none was seen
before. -/
theorem repeats_eq_nil_iff {seen names : List String} :
    repeats seen names = [] ↔ names.Nodup ∧ ∀ name ∈ names, name ∉ seen := by
  induction names generalizing seen with
  | nil => simp [repeats]
  | cons name names ih =>
      unfold repeats
      by_cases hseen : name ∈ seen
      · simp [hseen]
      · rw [if_neg (by simpa using hseen), ih, List.nodup_cons]
        grind

/-- Ids are used once. -/
theorem duplicateIssues_eq_nil_iff {d : Document α} :
    d.duplicateIssues = [] ↔ (d.nodes.map StoredNode.id).Nodup := by
  unfold duplicateIssues
  rw [List.map_eq_nil_iff, repeats_eq_nil_iff]
  simp

section Distinct

variable {d : Document α} (hids : (d.nodes.map StoredNode.id).Nodup)
include hids

theorem eq_of_id {node other : StoredNode α} (hnode : node ∈ d.nodes) (hother : other ∈ d.nodes)
    (h : node.id = other.id) : node = other :=
  List.inj_on_of_nodup_map hids hnode hother h

/-- **An id stands for the node with it.** -/
theorem lastNode?_eq_some_iff {id : String} {node : StoredNode α} :
    d.lastNode? id = some node ↔ node ∈ d.nodes ∧ node.id = id := by
  unfold lastNode?
  constructor
  · intro h
    exact ⟨List.mem_reverse.1 (List.mem_of_find?_eq_some h), by simpa using List.find?_some h⟩
  · rintro ⟨hnode, rfl⟩
    cases hfound : d.nodes.reverse.find? fun other => other.id == node.id with
    | none =>
        exact absurd (List.find?_eq_none.1 hfound node (List.mem_reverse.2 hnode)) (by simp)
    | some found =>
        have hmem := List.mem_reverse.1 (List.mem_of_find?_eq_some hfound)
        rw [eq_of_id hids hmem hnode (by simpa using List.find?_some hfound)]

theorem kindOf?_eq_some_iff {id : String} {kind : Kind} :
    d.kindOf? id = some kind ↔ ∃ node ∈ d.nodes, node.id = id ∧ node.kind = kind := by
  unfold kindOf?
  rw [Option.map_eq_some_iff]
  refine exists_congr fun node => ?_
  rw [lastNode?_eq_some_iff hids, and_assoc]

theorem kindOf?_id {node : StoredNode α} (hnode : node ∈ d.nodes) :
    d.kindOf? node.id = some node.kind :=
  (kindOf?_eq_some_iff hids).2 ⟨node, hnode, rfl, rfl⟩

/-- With distinct ids there is one node that an id can name. -/
theorem namesContainer_iff {id : String} :
    d.namesContainer id ↔ ∃ node ∈ d.nodes, node.id = id ∧ node.kind.isContainer := by
  unfold namesContainer
  cases hkind : d.kindOf? id with
  | some kind =>
      obtain ⟨node, hnode, rfl, rfl⟩ := (kindOf?_eq_some_iff hids).1 hkind
      constructor
      · exact fun h => ⟨node, hnode, rfl, h⟩
      · rintro ⟨other, hother, hid, hcontainer⟩
        rwa [eq_of_id hids hother hnode hid] at hcontainer
  | none =>
      constructor
      · exact fun h => nomatch h
      · rintro ⟨node, hnode, rfl, -⟩
        rw [kindOf?_id hids hnode] at hkind
        cases hkind

/-- **Containers are what they say.** -/
theorem cycleIssues_eq_nil_iff :
    d.cycleIssues = [] ↔ ∀ node ∈ d.nodes, ∀ parent, node.cycle = some parent →
      ∃ container ∈ d.nodes, container.id = parent ∧ container.kind.isContainer := by
  unfold cycleIssues
  rw [List.filterMap_eq_nil_iff]
  refine forall₂_congr fun node _ => ?_
  cases node.cycle with
  | none => simp
  | some parent =>
      have hnames : d.namesContainer parent ↔
          ∃ node ∈ d.nodes, node.id = parent ∧ node.kind.isContainer := namesContainer_iff hids
      constructor
      · intro h other hother
        obtain rfl := Option.some.inj hother
        refine hnames.1 ?_
        by_contra hnone
        simp [hnone] at h
      · exact fun h => if_pos (hnames.2 (h parent rfl))

/-! ## §3. Regions are scopes. -/

variable (hcycles : ∀ node ∈ d.nodes, ∀ parent, node.cycle = some parent →
  ∃ container ∈ d.nodes, container.id = parent ∧ container.kind.isContainer)
include hcycles

theorem regionOf_eq {node : StoredNode α} (hnode : node ∈ d.nodes) :
    d.regionOf node = Region.ofScope node.cycle := by
  unfold regionOf
  cases hcycle : node.cycle with
  | none => rfl
  | some parent => exact if_pos ((namesContainer_iff hids).2 (hcycles node hnode parent hcycle))

/-- **The region of an id is the scope of the node with it.** -/
theorem regionOf?_eq_some_iff {id : String} {region : Region} :
    d.regionOf? id = some region
      ↔ ∃ node ∈ d.nodes, node.id = id ∧ Region.ofScope node.cycle = region := by
  unfold regionOf?
  rw [Option.map_eq_some_iff]
  refine exists_congr fun node => ?_
  rw [lastNode?_eq_some_iff hids, and_assoc]
  refine and_congr_right fun hnode => and_congr_right fun _ => ?_
  rw [regionOf_eq hids hcycles hnode]

/-- **Edges end in the scope where they begin.** -/
theorem edgeIssues_eq_nil_iff :
    d.edgeIssues = [] ↔ ∀ edge ∈ d.edges, ∃ source ∈ d.nodes, ∃ target ∈ d.nodes,
      source.id = edge.source ∧ target.id = edge.target ∧ source.cycle = target.cycle := by
  unfold edgeIssues
  rw [List.filterMap_eq_nil_iff]
  refine forall₂_congr fun edge _ => ?_
  constructor
  · intro h
    split at h
    · rename_i a b hsource htarget
      obtain ⟨source, hmem, hid, rfl⟩ := (regionOf?_eq_some_iff hids hcycles).1 hsource
      obtain ⟨target, hmem', hid', rfl⟩ := (regionOf?_eq_some_iff hids hcycles).1 htarget
      split at h
      · rename_i hsame
        exact ⟨source, hmem, target, hmem', hid, hid', Region.ofScope_injective hsame⟩
      · cases h
    · cases h
  · rintro ⟨source, hmem, target, hmem', hid, hid', hsame⟩
    have hsource := (regionOf?_eq_some_iff hids hcycles).2 ⟨source, hmem, hid, rfl⟩
    have htarget := (regionOf?_eq_some_iff hids hcycles).2 ⟨target, hmem', hid', rfl⟩
    rw [hsource, htarget]
    exact if_pos (congrArg Region.ofScope hsame)

variable {scope : Option String}

theorem mem_members_iff {id : String} :
    id ∈ d.members (Region.ofScope scope)
      ↔ ∃ node ∈ d.nodes, node.id = id ∧ node.cycle = scope := by
  unfold members
  rw [List.mem_filter, decide_eq_true_iff, regionOf?_eq_some_iff hids hcycles]
  constructor
  · rintro ⟨-, node, hnode, hid, hscope⟩
    exact ⟨node, hnode, hid, Region.ofScope_injective hscope⟩
  · rintro ⟨node, hnode, rfl, rfl⟩
    exact ⟨List.mem_map_of_mem hnode, node, hnode, rfl, rfl⟩

theorem mem_innerEdges_iff {edge : StoredEdge} :
    edge ∈ d.innerEdges (Region.ofScope scope) ↔ edge ∈ d.edges ∧ d.Inside scope edge := by
  unfold innerEdges
  dsimp only
  rw [List.mem_filter, Bool.and_eq_true, List.contains_iff_mem, List.contains_iff_mem,
    mem_members_iff hids hcycles, mem_members_iff hids hcycles]
  exact and_congr_right fun _ => ⟨fun h => ⟨h.1, h.2⟩, fun h => ⟨h.1, h.2⟩⟩

/-- A node of a scope is a member of the region, and of its own kind. -/
theorem mem_members_kind_iff {id : String} {kind : Kind} :
    (id ∈ d.members (Region.ofScope scope) ∧ d.kindOf? id = some kind)
      ↔ ∃ node ∈ d.nodes, node.id = id ∧ node.cycle = scope ∧ node.kind = kind := by
  rw [mem_members_iff hids hcycles]
  constructor
  · rintro ⟨⟨node, hnode, rfl, hscope⟩, hkind⟩
    rw [kindOf?_id hids hnode] at hkind
    exact ⟨node, hnode, rfl, hscope, Option.some.inj hkind⟩
  · rintro ⟨node, hnode, rfl, hscope, rfl⟩
    exact ⟨⟨node, hnode, rfl, hscope⟩, kindOf?_id hids hnode⟩

/-! ## §4. Edges of a scope. -/

theorem mem_ends_iff {a b : String} :
    (a, b) ∈ ends (d.innerEdges (Region.ofScope scope)) ↔ d.Step scope a b := by
  unfold ends Step
  rw [List.mem_map]
  refine exists_congr fun edge => ?_
  rw [mem_innerEdges_iff hids hcycles, Prod.mk.injEq, and_assoc]
  exact and_congr_right fun _ => by tauto

omit hids hcycles in
theorem isErrorRoute_iff {edge : StoredEdge} :
    isErrorRoute edge ↔ edge.extra.lookup "type" = some (.str "error") := by
  unfold isErrorRoute
  cases edge.extra.lookup "type" with
  | none => simp
  | some value => cases value <;> simp [Json.str?]

omit hcycles in
theorem isStrict_iff {edge : StoredEdge} : d.isStrict edge ↔ d.Strict edge := by
  have hkind (id : String) : (d.kindOf? id != some .loop)
      ↔ ∀ node ∈ d.nodes, node.id = id → node.kind ≠ .loop := by
    rw [bne_iff_ne, ne_eq, kindOf?_eq_some_iff hids]
    simp
  unfold isStrict
  rw [Bool.and_eq_true, Bool.and_eq_true, hkind, hkind, Bool.not_eq_true', ← Bool.not_eq_true,
    isErrorRoute_iff]
  constructor
  · rintro ⟨⟨hplain, hsource⟩, htarget⟩
    exact ⟨hplain, fun node hnode hid => hid.elim (hsource node hnode) (htarget node hnode)⟩
  · rintro ⟨hplain, hapart⟩
    exact ⟨⟨hplain, fun node hnode hid => hapart node hnode (.inl hid)⟩,
      fun node hnode hid => hapart node hnode (.inr hid)⟩

theorem mem_strictEnds_iff {a b : String} :
    (a, b) ∈ ends ((d.innerEdges (Region.ofScope scope)).filter d.isStrict)
      ↔ d.StrictStep scope a b := by
  unfold ends StrictStep
  rw [List.mem_map]
  refine exists_congr fun edge => ?_
  rw [List.mem_filter, mem_innerEdges_iff hids hcycles, isStrict_iff hids, Prod.mk.injEq,
    and_assoc, and_assoc]
  exact and_congr_right fun _ => by tauto

omit hids hcycles in
/-- A search walks along the edges that it is given. -/
theorem leads_iff {edges : Digraph} {step : String → String → Prop}
    (hstep : ∀ {a b}, (a, b) ∈ edges ↔ step a b) {a b : String} :
    Digraph.Leads edges a b ↔ Relation.TransGen step a b := by
  constructor
  · intro h
    induction h with
    | edge hedge => exact .single (hstep.1 hedge)
    | cons hedge _ ih => exact .head (hstep.1 hedge) ih
  · intro h
    induction h using Relation.TransGen.head_induction_on with
    | single hedge => exact .edge (hstep.2 hedge)
    | head hedge _ ih => exact .cons (hstep.2 hedge) ih

/-! ## §5. Checks of a region. -/

omit hids hcycles in
/-- A list without repetitions that has one member is that member. -/
theorem eq_singleton_iff {names : List String} (hnodup : names.Nodup) {name : String} :
    names = [name] ↔ ∀ other, other ∈ names ↔ other = name := by
  constructor
  · rintro rfl other
    exact List.mem_singleton
  · intro h
    refine List.perm_singleton.1 ((List.perm_ext_iff_of_nodup hnodup ?_).2 fun other => ?_)
    · exact List.nodup_singleton name
    · rw [h, List.mem_singleton]

/-- **A region has one start exactly where its scope has one entrance.** -/
theorem starts_eq_singleton_iff {start : String} :
    d.starts (Region.ofScope scope) = [start]
      ↔ ∃ node, node.id = start
        ∧ (node ∈ d.nodes ∧ node.cycle = scope ∧ node.kind = entranceKind scope)
        ∧ ∀ other, other ∈ d.nodes ∧ other.cycle = scope ∧ other.kind = entranceKind scope →
          other = node := by
  have hkind : (Region.ofScope scope).startKind = entranceKind scope := by cases scope <;> rfl
  have hmem (id : String) : id ∈ d.starts (Region.ofScope scope)
      ↔ ∃ node ∈ d.nodes, node.id = id ∧ node.cycle = scope ∧ node.kind = entranceKind scope := by
    unfold starts
    rw [List.mem_filter, beq_iff_eq, hkind, mem_members_kind_iff hids hcycles]
  have hnodup : (d.starts (Region.ofScope scope)).Nodup := (hids.filter _).filter _
  rw [eq_singleton_iff hnodup]
  constructor
  · intro h
    obtain ⟨node, hnode, hid, hentrance⟩ := (hmem start).1 ((h start).2 rfl)
    refine ⟨node, hid, ⟨hnode, hentrance⟩, fun other hother => ?_⟩
    have hstart := (h other.id).1 ((hmem other.id).2 ⟨other, hother.1, rfl, hother.2⟩)
    exact eq_of_id hids hother.1 hnode (hstart.trans hid.symm)
  · rintro ⟨node, rfl, ⟨hnode, hentrance⟩, hunique⟩ id
    rw [hmem]
    constructor
    · rintro ⟨other, hother, rfl, hentrance'⟩
      rw [hunique other ⟨hother, hentrance'⟩]
    · rintro rfl
      exact ⟨node, hnode, rfl, hentrance⟩

omit hids hcycles in
/-- A region has one start, and only the workflow needs an end. -/
theorem boundaryIssues_eq_nil_iff {region : Region} :
    d.boundaryIssues region = []
      ↔ (∃ start, d.starts region = [start])
        ∧ (region = .workflow → ∃ id, id ∈ d.members region ∧ d.kindOf? id = some .finish) := by
  unfold boundaryIssues
  rw [List.append_eq_nil_iff]
  refine and_congr ?_ ?_
  · split <;> simp_all
  · by_cases hregion : region = .workflow <;> simp [hregion]

/-- **From the start every node is reached that counts.** -/
theorem unreachableFrom_eq_nil_iff {start : String} :
    d.unreachableFrom (Region.ofScope scope) start = []
      ↔ ∀ node ∈ d.nodes, node.cycle = scope → node.kind.isPlaceholder = false →
        Relation.ReflTransGen (d.Step scope) start node.id := by
  have hreached (id : String) :
      id ∈ Digraph.explore (ends (d.innerEdges (Region.ofScope scope))) start
        ↔ Relation.ReflTransGen (d.Step scope) start id := by
    rw [Digraph.mem_explore_iff, leads_iff (mem_ends_iff hids hcycles),
      Relation.reflTransGen_iff_eq_or_transGen]
  unfold unreachableFrom
  dsimp only
  rw [List.filter_eq_nil_iff]
  constructor
  · intro h node hnode hscope hplain
    have hmember := (mem_members_iff hids hcycles).2 ⟨node, hnode, rfl, hscope⟩
    have hlost := h node.id hmember
    rw [kindOf?_id hids hnode] at hlost
    exact (hreached node.id).1 (by simpa [hplain] using hlost)
  · intro h id hmember
    obtain ⟨node, hnode, rfl, hscope⟩ := (mem_members_iff hids hcycles).1 hmember
    rw [kindOf?_id hids hnode]
    cases hplain : node.kind.isPlaceholder with
    | true => simp [hplain]
    | false => simpa [hplain] using (hreached node.id).2 (h node hnode hscope hplain)

/-- **No closed path is found exactly where no strict edges close one.** -/
theorem findCycle_strict_eq_none_iff :
    Digraph.findCycle (ends ((d.innerEdges (Region.ofScope scope)).filter d.isStrict))
        (d.members (Region.ofScope scope)) = none
      ↔ ∀ id, ¬ Relation.TransGen (d.StrictStep scope) id id := by
  rw [Digraph.findCycle_eq_none_iff]
  · exact forall_congr' fun id => not_congr (leads_iff (mem_strictEnds_iff hids hcycles))
  · -- An edge of the region leaves one of its members.
    intro edge hedge
    obtain ⟨stored, -, hsource, -, hinside, -⟩ := (mem_strictEnds_iff hids hcycles).1 hedge
    obtain ⟨node, hnode, hid, hscope⟩ := hinside.source
    exact (mem_members_iff hids hcycles).2 ⟨node, hnode, hid.trans hsource, hscope⟩

omit hids hcycles in
/-- A region is without issues if it has one start, an end where it is the
workflow, and neither nodes that are not reached nor a strict cycle. -/
theorem regionIssues_eq_nil {region : Region} :
    d.regionIssues region = []
      ↔ ∃ start, d.starts region = [start]
        ∧ (region = .workflow → ∃ id, id ∈ d.members region ∧ d.kindOf? id = some .finish)
        ∧ d.unreachableFrom region start = []
        ∧ Digraph.findCycle (ends ((d.innerEdges region).filter d.isStrict))
            (d.members region) = none := by
  unfold regionIssues
  constructor
  · intro h
    split at h
    · rename_i start rest hboundary hstarts
      obtain ⟨⟨first, hfirst⟩, hfinish⟩ := boundaryIssues_eq_nil_iff.1 hboundary
      obtain ⟨rfl, rfl⟩ := List.cons.inj (hstarts.symm.trans hfirst)
      split at h
      · rename_i hreached
        dsimp only at h
        split at h
        · cases h
        · rename_i hcycle
          exact ⟨start, hfirst, hfinish, hreached, hcycle⟩
      · cases h
    · -- Without issues at the boundary there is a start.
      rename_i hnone
      obtain ⟨start, hstart⟩ := (boundaryIssues_eq_nil_iff.1 h).1
      exact absurd hstart (hnone start [] h)
  · rintro ⟨start, hstart, hfinish, hreached, hcycle⟩
    have hboundary := boundaryIssues_eq_nil_iff.2 ⟨⟨start, hstart⟩, hfinish⟩
    rw [hboundary, hstart]
    dsimp only
    rw [hreached]
    dsimp only
    rw [hcycle]

/-- **A region has no issue exactly where its scope can be passed through**,
and the workflow has an end besides. -/
theorem regionIssues_eq_nil_iff :
    d.regionIssues (Region.ofScope scope) = []
      ↔ d.Passable scope
        ∧ (scope = none → ∃ node ∈ d.nodes, node.cycle = none ∧ node.kind = .finish) := by
  have hworkflow : Region.ofScope scope = .workflow ↔ scope = none := by
    cases scope <;> simp [Region.ofScope]
  have hfinish : (∃ id, id ∈ d.members (Region.ofScope scope) ∧ d.kindOf? id = some .finish)
      ↔ ∃ node ∈ d.nodes, node.cycle = scope ∧ node.kind = .finish := by
    simp only [mem_members_kind_iff hids hcycles]
    constructor
    · rintro ⟨_, node, hnode, -, h⟩
      exact ⟨node, hnode, h⟩
    · rintro ⟨node, hnode, h⟩
      exact ⟨node.id, node, hnode, rfl, h⟩
  rw [regionIssues_eq_nil]
  simp only [starts_eq_singleton_iff hids hcycles, hworkflow, hfinish,
    unreachableFrom_eq_nil_iff hids hcycles, findCycle_strict_eq_none_iff hids hcycles]
  constructor
  · rintro ⟨_, ⟨start, rfl, hentrance, hunique⟩, hend, hreached, hacyclic⟩
    refine ⟨⟨⟨start, hentrance, hunique⟩, ?_, hacyclic⟩, fun hscope => ?_⟩
    · intro other hother hscope hkind
      rw [hunique other ⟨hother, hscope, hkind⟩]
      exact hreached
    · obtain rfl := hscope
      exact hend rfl
  · rintro ⟨⟨⟨start, hentrance, hunique⟩, hreached, hacyclic⟩, hend⟩
    refine ⟨start.id, ⟨start, rfl, hentrance, hunique⟩, fun hscope => ?_, ?_, hacyclic⟩
    · obtain rfl := hscope
      exact hend rfl
    · exact hreached start hentrance.1 hentrance.2.1 hentrance.2.2

end Distinct

/-! ## §6. Valid documents. -/

variable {d : Document α}

theorem regions_eq (d : Document α) :
    d.regions = Region.ofScope none
      :: (d.nodes.filter fun node => node.kind.isContainer).map fun node =>
        Region.ofScope (some node.id) := rfl

theorem Runnable.of_isValid (h : d.isValid) : d.Runnable := by
  unfold isValid validate at h
  simp only [List.isEmpty_iff, List.append_eq_nil_iff, List.flatMap_eq_nil_iff] at h
  obtain ⟨⟨⟨hduplicates, hcontainers⟩, hedges⟩, hregions⟩ := h
  have hids := duplicateIssues_eq_nil_iff.1 hduplicates
  have hcycles := (cycleIssues_eq_nil_iff hids).1 hcontainers
  rw [regions_eq, List.forall_mem_cons] at hregions
  obtain ⟨hworkflow, hfinish⟩ := (regionIssues_eq_nil_iff hids hcycles).1 hregions.1
  constructor
  case distinct => exact hids
  case enclosed => exact hcycles
  case joined => exact (edgeIssues_eq_nil_iff hids hcycles).1 hedges
  case finish => exact hfinish rfl
  case workflow => exact hworkflow
  case bodies =>
      intro container hcontainer hkind
      have hmem : Region.ofScope (some container.id)
          ∈ (d.nodes.filter fun node => node.kind.isContainer).map fun node =>
            Region.ofScope (some node.id) :=
        List.mem_map.2 ⟨container, List.mem_filter.2 ⟨hcontainer, hkind⟩, rfl⟩
      exact ((regionIssues_eq_nil_iff hids hcycles).1 (hregions.2 _ hmem)).1

theorem Runnable.isValid (h : d.Runnable) : d.isValid := by
  unfold Document.isValid validate
  simp only [List.isEmpty_iff, List.append_eq_nil_iff, List.flatMap_eq_nil_iff]
  refine ⟨⟨⟨duplicateIssues_eq_nil_iff.2 h.distinct, ?_⟩, ?_⟩, ?_⟩
  · exact (cycleIssues_eq_nil_iff h.distinct).2 h.enclosed
  · exact (edgeIssues_eq_nil_iff h.distinct h.enclosed).2 h.joined
  · rw [regions_eq, List.forall_mem_cons]
    constructor
    · exact (regionIssues_eq_nil_iff h.distinct h.enclosed).2 ⟨h.workflow, fun _ => h.finish⟩
    · intro region hregion
      obtain ⟨container, hcontainer, rfl⟩ := List.mem_map.1 hregion
      obtain ⟨hcontainer, hkind⟩ := List.mem_filter.1 hcontainer
      exact (regionIssues_eq_nil_iff h.distinct h.enclosed).2
        ⟨h.bodies container hcontainer hkind, fun hscope => nomatch hscope⟩

/-- **A document is valid exactly if it can be run.** -/
theorem isValid_iff_runnable (d : Document α) : d.isValid ↔ d.Runnable :=
  ⟨.of_isValid, Runnable.isValid⟩

end Document

end WorkflowEditor
