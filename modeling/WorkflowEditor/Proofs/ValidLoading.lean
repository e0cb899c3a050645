/-
  WorkflowEditor.Proofs.ValidLoading
  ──────────────────────────────────
  **WHAT BECOMES OF A VALID DOCUMENT WHEN IT IS LOADED.**

  The checks of a document and the rules of the canvas are not the same: a
  document may be run with containers in containers and with edges that
  could not be made by hand.  A valid document is loaded in any case, and
  what the canvas cannot show is left out, which is no more than this:

    • `Document.Nested`, `Document.Drawable` — the nodes that lose their
      container, and the edges that the canvas can show,
    • `loaded_cycle` — a node of a valid document keeps its container
      unless it is nested,
    • `route_mem_foldl` — an edge that can be made is there in the end,
    • `Drawable.loaded`, `drawable_of_loaded` — edges that can be shown are
      loaded, and no others,
    • `toGraph_of_isValid` — so a valid document is loaded as far as the
      canvas can show it,
    • `not_unchanged_of_isValid` — and not always as it is.
-/
import WorkflowEditor.Proofs.SavedDocument

namespace WorkflowEditor

variable {α : Type}

/-! ## §1. What the canvas can show. -/

/-- The right ports that a stored node gets. -/
def StoredNode.exits (stored : StoredNode α) : List String :=
  layoutIds stored.kind (stored.kind.decodeConfig stored.config)

namespace Document

/-- A container in a container, or what is in such a container. -/
def Nested (d : Document α) (node : StoredNode α) : Prop :=
  ∃ container ∈ d.nodes, node.cycle = some container.id
    ∧ (node.kind.isContainer ∨ container.cycle.isSome)

instance (d : Document α) (node : StoredNode α) : Decidable (d.Nested node) :=
  inferInstanceAs (Decidable (∃ container ∈ d.nodes, node.cycle = some container.id
    ∧ (node.kind.isContainer ∨ container.cycle.isSome)))

/-- The canvas can show an edge from one node to another. -/
structure Drawable (d : Document α) (source target : StoredNode α) : Prop where
  apart : source.id ≠ target.id
  accepts : target.kind.acceptsIncoming
  leaves : source.exits ≠ []
  -- They lose their container both, or neither does.
  together : d.Nested source ↔ d.Nested target

/-- In one container two nodes stay together if they lose it both, or
neither does. -/
theorem nested_iff_of_cycle_eq {d : Document α} {node other : StoredNode α}
    (h : node.cycle = other.cycle) :
    ((if d.Nested node then none else node.cycle) = if d.Nested other then none else other.cycle)
      ↔ (d.Nested node ↔ d.Nested other) := by
  rw [h]
  cases hcycle : other.cycle with
  | none =>
      have hplain (node : StoredNode α) (hnone : node.cycle = none) : ¬ d.Nested node := by
        rintro ⟨container, -, hinside, -⟩
        rw [hnone] at hinside
        cases hinside
      rw [if_neg (hplain node (h.trans hcycle)), if_neg (hplain other hcycle)]
      exact iff_of_true rfl (iff_of_false (hplain node (h.trans hcycle)) (hplain other hcycle))
  | some parent => by_cases hnode : d.Nested node <;> by_cases hother : d.Nested other <;>
      simp [hnode, hother]

end Document

/-- **Ends, breaks, placeholders and classifiers without categories have no
right port**, and all else has one. -/
theorem layoutIds_eq_nil_iff {kind : Kind} {form : Form} :
    layoutIds kind form = [] ↔ kind.emitsOutgoing = false ∨ kind.isPlaceholder
      ∨ (kind = .questionClassifier ∧ form.items "categories" = []) := by
  cases kind with
  | ifElse =>
      rw [layoutIds_ifElse]
      simp [Kind.emitsOutgoing, Kind.isPlaceholder]
  | questionClassifier =>
      rw [layoutIds_questionClassifier]
      simp [Kind.emitsOutgoing, Kind.isPlaceholder]
  | httpRequest =>
      rcases layoutIds_httpRequest form with h | h <;> rw [h] <;>
        simp [Kind.emitsOutgoing, Kind.isPlaceholder]
  | _ => simp [layoutIds, BranchLayout.of, Kind.emitsOutgoing, Kind.isPlaceholder]

/-! ## §2. Nodes. -/

section Nodes

variable [Coordinate α] {d : Document α} {settings : Settings α}

/-- A stored node as it is loaded, but for its place. -/
def Document.loaded (d : Document α) (settings : Settings α) (stored : StoredNode α) : Node α :=
  (stored.toNode settings).detach (d.nodes.map (StoredNode.toNode settings))

theorem loaded_id (stored : StoredNode α) : (d.loaded settings stored).id = stored.id :=
  (stored.toNode settings).detach_id _

theorem loaded_kind (stored : StoredNode α) : (d.loaded settings stored).kind = stored.kind :=
  congrArg Node.kind ((stored.toNode settings).detach_eq _)

theorem loaded_exits (stored : StoredNode α) :
    (d.loaded settings stored).portIds .right = stored.exits := by
  unfold Document.loaded Node.portIds Node.portsOn
  rw [Node.detach_ports]
  exact Node.portIds_right (stored.toNode_ports settings)

theorem loaded_entry {stored : StoredNode α} (h : stored.kind.acceptsIncoming) :
    ((d.loaded settings stored).portIds .left).head? = some Port.entry.id := by
  unfold Document.loaded Node.portIds
  have hports : ((stored.toNode settings).detach
      (d.nodes.map (StoredNode.toNode settings))).portsOn .left = [Port.entry] := by
    unfold Node.portsOn
    rw [Node.detach_ports]
    refine (Node.portsOn_left (stored.toNode_ports settings)).trans ?_
    exact if_pos h
  rw [hports]
  rfl

/-- **A node of a valid document keeps its container unless it is nested.** -/
theorem loaded_cycle (h : d.Runnable) {stored : StoredNode α} (hstored : stored ∈ d.nodes) :
    (d.loaded settings stored).cycle = if d.Nested stored then none else stored.cycle := by
  let nodes := d.nodes.map (StoredNode.toNode settings)
  have hnodup : (nodes.map Node.id).Nodup := by
    show ((d.nodes.map (StoredNode.toNode settings)).map Node.id).Nodup
    rw [List.map_map]
    exact h.distinct
  cases hcycle : stored.cycle with
  | none =>
      have htop : d.loaded settings stored = stored.toNode settings :=
        Node.detach_of_top _ hcycle
      rw [htop, ite_self]
      exact hcycle
  | some parent =>
      obtain ⟨container, hcontainer, rfl, hkind⟩ := h.enclosed stored hstored parent hcycle
      have hencloses : isTopContainer nodes container.id ↔ container.cycle = none := by
        rw [isTopContainer_iff hnodup]
        constructor
        · rintro ⟨other, hother, hid, hencloses⟩
          obtain ⟨before, hbefore, rfl⟩ := List.mem_map.1 hother
          obtain rfl := Document.eq_of_id h.distinct hbefore hcontainer hid
          exact hencloses.top
        · exact fun htop => ⟨_, List.mem_map_of_mem hcontainer, rfl, hkind, htop⟩
      have hnested : d.Nested stored ↔ stored.kind.isContainer ∨ container.cycle.isSome := by
        constructor
        · rintro ⟨other, hother, hinside, hnested⟩
          have hid : container.id = other.id := Option.some.inj (hcycle.symm.trans hinside)
          obtain rfl := Document.eq_of_id h.distinct hcontainer hother hid
          exact hnested
        · exact fun hnested => ⟨container, hcontainer, hcycle, hnested⟩
      -- So what the loader tests is whether the node is nested.
      have hlost : (stored.kind.isContainer || !isTopContainer nodes container.id) = true
          ↔ d.Nested stored := by
        rw [hnested, Bool.or_eq_true, Bool.not_eq_true', ← Bool.not_eq_true, hencloses,
          Option.isSome_iff_ne_none]
      show ((stored.toNode settings).detach nodes).cycle = _
      unfold Node.detach
      rw [show (stored.toNode settings).cycle = some container.id from hcycle]
      show (if (stored.kind.isContainer || !isTopContainer nodes container.id) = true
        then { stored.toNode settings with cycle := none } else stored.toNode settings).cycle = _
      by_cases hlose : d.Nested stored
      · rw [if_pos (hlost.2 hlose), if_pos hlose]
      · rw [if_neg (mt hlost.1 hlose), if_neg hlose]
        exact hcycle

end Nodes

/-! ## §3. Edges are added one after the other. -/

/-- Where there is a right port an edge leaves by one, and by the one that it
names if there is that. -/
theorem Node.exists_exitFor? {node : Node α} (h : node.portIds .right ≠ [])
    (label : Option String) :
    ∃ exit, node.exitFor? label = some exit
      ∧ ∀ wanted ∈ node.portIds .right, label = some wanted → exit = wanted := by
  unfold exitFor?
  dsimp only
  cases hfound : label.bind fun label => (node.portIds .right).find? fun id => id == label with
  | some found =>
      refine ⟨found, rfl, ?_⟩
      rintro wanted - rfl
      have hsame := List.find?_some (p := fun id => id == wanted) hfound
      exact beq_iff_eq.1 hsame
  | none =>
      obtain ⟨first, hfirst⟩ := Option.ne_none_iff_exists'.1 (mt List.head?_eq_none_iff.1 h)
      refine ⟨first, hfirst, ?_⟩
      rintro wanted hwanted rfl
      exact absurd (List.find?_eq_none.1 hfound wanted hwanted) (by simp)

namespace Graph

theorem addStoredEdge_nodes (g : Graph α) (stored : StoredEdge) :
    (g.addStoredEdge stored).nodes = g.nodes := by
  unfold addStoredEdge
  split <;> rfl

theorem foldl_addStoredEdge_nodes (g : Graph α) (edges : List StoredEdge) :
    (edges.foldl addStoredEdge g).nodes = g.nodes := by
  induction edges generalizing g with
  | nil => rfl
  | cons edge edges ih => exact (ih _).trans (g.addStoredEdge_nodes edge)

theorem prefix_addStoredEdge (g : Graph α) (stored : StoredEdge) :
    g.edges <+: (g.addStoredEdge stored).edges := by
  unfold addStoredEdge
  split
  · exact List.prefix_append _ _
  · exact List.prefix_rfl

theorem prefix_foldl_addStoredEdge (g : Graph α) (edges : List StoredEdge) :
    g.edges <+: (edges.foldl addStoredEdge g).edges := by
  induction edges generalizing g with
  | nil => exact List.prefix_rfl
  | cons edge edges ih => exact (g.prefix_addStoredEdge edge).trans (ih _)

variable {g : Graph α} {stored : StoredEdge} {source target : Node α} {exit entry : String}

/-- An edge that can be made is there when it was added, be it that it was
there before. -/
theorem route_mem_addStoredEdge (hsource : g.node? stored.source = some source)
    (htarget : g.node? stored.target = some target) (hends : checkEnds source target = .ok ())
    (hexit : source.exitFor? stored.label = some exit)
    (hentry : (target.portIds .left).head? = some entry) :
    (stored.source, exit, stored.target) ∈ (g.addStoredEdge stored).edges.map Edge.route := by
  by_cases hknown : (stored.source, exit, stored.target) ∈ g.edges.map Edge.route
  · exact List.map_subset Edge.route (g.prefix_addStoredEdge stored).subset hknown
  · obtain ⟨id, hedge⟩ := ofStoredEdge?_eq hsource htarget hends hexit hentry hknown
    unfold addStoredEdge
    rw [hedge]
    exact List.mem_map_of_mem (List.mem_append_right _ List.mem_cons_self)

/-- **An edge that can be made is there in the end.** -/
theorem route_mem_foldl {edges : List StoredEdge} (hstored : stored ∈ edges)
    (hsource : g.node? stored.source = some source)
    (htarget : g.node? stored.target = some target) (hends : checkEnds source target = .ok ())
    (hexit : source.exitFor? stored.label = some exit)
    (hentry : (target.portIds .left).head? = some entry) :
    (stored.source, exit, stored.target)
      ∈ (edges.foldl addStoredEdge g).edges.map Edge.route := by
  induction edges generalizing g with
  | nil => cases hstored
  | cons first edges ih =>
      rcases List.mem_cons.1 hstored with rfl | hrest
      · -- Later edges are added behind it.
        have hmem := route_mem_addStoredEdge hsource htarget hends hexit hentry
        have hlater := (g.addStoredEdge stored).prefix_foldl_addStoredEdge edges
        exact List.map_subset Edge.route hlater.subset hmem
      · have hsame (id : String) : (g.addStoredEdge first).node? id = g.node? id := by
          unfold node?
          rw [addStoredEdge_nodes]
        exact ih hrest ((hsame _).trans hsource) ((hsame _).trans htarget)

end Graph

/-! ## §4. Valid documents. -/

section Loading

variable [Coordinate α] {d : Document α} {settings : Settings α}

namespace Document

/-- The nodes of a document as they are loaded, but for their places. -/
def bare (d : Document α) (settings : Settings α) : Graph α :=
  { Graph.empty settings with
    nodes := d.nodes.map (d.loaded settings)
    vars := d.vars
    info := d.info
    revision := 1 }

/-- A document without repeated ids as it is loaded, but for the places of its
nodes. -/
def canvas (d : Document α) (settings : Settings α) : Graph α :=
  d.edges.foldl Graph.addStoredEdge (d.bare settings)

end Document

theorem toGraph_of_distinct (h : (d.nodes.map StoredNode.id).Nodup) (settings : Settings α) :
    ∃ g, d.toGraph settings = .ok g ∧ g.unplaced = (d.canvas settings).unplaced := by
  have hadded : addStored settings [] d.nodes = .ok (d.nodes.map (StoredNode.toNode settings)) :=
    addStored_nil_eq_ok.2 ⟨rfl, h⟩
  obtain ⟨g, hok, hunplaced⟩ := Graph.toGraph_of_addStored hadded
  refine ⟨g, hok, hunplaced.trans ?_⟩
  have hnodes : detachNodes (d.nodes.map (StoredNode.toNode settings))
      = d.nodes.map (d.loaded settings) := List.map_map
  unfold Graph.ofDocument Document.canvas Document.bare
  rw [hnodes]

theorem wellFormed_canvas (h : (d.nodes.map StoredNode.id).Nodup) :
    (d.canvas settings).WellFormed := by
  obtain ⟨g, hok, hunplaced⟩ := toGraph_of_distinct h settings
  exact (Graph.wellFormed_toGraph hok).congr_unplaced hunplaced

theorem canvas_nodes : (d.canvas settings).nodes = d.nodes.map (d.loaded settings) :=
  Graph.foldl_addStoredEdge_nodes _ _

/-- The nodes are there before the edges are added. -/
theorem node?_bare (h : (d.nodes.map StoredNode.id).Nodup) {stored : StoredNode α}
    (hstored : stored ∈ d.nodes) :
    (d.bare settings).node? stored.id = some (d.loaded settings stored) := by
  refine (Graph.node?_eq_some_iff ?_).2 ⟨List.mem_map_of_mem hstored, loaded_id stored⟩
  have hnodup : ((d.canvas settings).nodes.map Node.id).Nodup := (wellFormed_canvas h).nodup_ids
  rwa [canvas_nodes] at hnodup

section Edges

variable (h : d.Runnable) {source target : StoredNode α} (hsource : source ∈ d.nodes)
  (htarget : target ∈ d.nodes) (hcycle : source.cycle = target.cycle)
include h hsource htarget hcycle

/-- **What can be shown could be made by hand.** -/
theorem Document.Drawable.checkEnds (hdrawable : d.Drawable source target) :
    checkEnds (d.loaded settings source) (d.loaded settings target) = .ok () := by
  refine Graph.checkEnds_eq_ok.2 ⟨?_, ?_, ?_, ?_⟩
  · rw [loaded_id, loaded_id]
    exact hdrawable.apart
  · rw [loaded_kind]
    exact hdrawable.accepts
  · rw [loaded_kind]
    by_contra hmute
    exact hdrawable.leaves (layoutIds_eq_nil_iff.2 (.inl (Bool.eq_false_iff.2 hmute)))
  · rw [loaded_cycle h hsource, loaded_cycle h htarget]
    exact (Document.nested_iff_of_cycle_eq hcycle).2 hdrawable.together

/-- **An edge that can be shown is loaded**, by the port that it names if
there is that. -/
theorem Document.Drawable.loaded (hdrawable : d.Drawable source target) {stored : StoredEdge}
    (hstored : stored ∈ d.edges) (hsourceId : source.id = stored.source)
    (htargetId : target.id = stored.target) :
    ∃ edge ∈ (d.canvas settings).edges, edge.source = stored.source ∧ edge.target = stored.target
      ∧ ∀ label ∈ source.exits, stored.label = some label → edge.sourcePort = label := by
  have hleaves : (d.loaded settings source).portIds .right ≠ [] := by
    rw [loaded_exits]
    exact hdrawable.leaves
  obtain ⟨exit, hexit, hwanted⟩ := Node.exists_exitFor? hleaves stored.label
  have hroute : (stored.source, exit, stored.target)
      ∈ (d.canvas settings).edges.map Edge.route :=
    Graph.route_mem_foldl hstored (hsourceId ▸ node?_bare h.distinct hsource)
      (htargetId ▸ node?_bare h.distinct htarget)
      (hdrawable.checkEnds h hsource htarget hcycle) hexit (loaded_entry hdrawable.accepts)
  obtain ⟨edge, hedge, heq⟩ := List.mem_map.1 hroute
  obtain ⟨hs, hports⟩ := Prod.mk.inj heq
  obtain ⟨hp, ht⟩ := Prod.mk.inj hports
  refine ⟨edge, hedge, hs, ht, fun label hlabel hnamed => hp.trans (hwanted label ?_ hnamed)⟩
  rw [loaded_exits]
  exact hlabel

/-- **No other edge is loaded.** -/
theorem drawable_of_loaded {edge : Edge} (hedge : edge ∈ (d.canvas settings).edges)
    (hsourceId : source.id = edge.source) (htargetId : target.id = edge.target) :
    d.Drawable source target := by
  have hback {stored : StoredNode α} (hstored : stored ∈ d.nodes) {node : Node α}
      (hnode : node ∈ (d.canvas settings).nodes) (hid : node.id = stored.id) :
      node = d.loaded settings stored := by
    rw [canvas_nodes] at hnode
    obtain ⟨other, hother, rfl⟩ := List.mem_map.1 hnode
    rw [loaded_id] at hid
    rw [Document.eq_of_id h.distinct hother hstored hid]
  obtain ⟨before, hbefore, after, hafter, hjoins⟩ := (wellFormed_canvas h.distinct).edges edge hedge
  obtain rfl := hback hsource hbefore (hjoins.source_id.trans hsourceId.symm)
  obtain rfl := hback htarget hafter (hjoins.target_id.trans htargetId.symm)
  constructor
  case apart =>
      have hapart := hjoins.distinct
      rwa [loaded_id, loaded_id] at hapart
  case accepts =>
      have haccepts := hjoins.accepts
      rwa [loaded_kind] at haccepts
  case leaves =>
      have hleaves := hjoins.leaves
      rw [loaded_exits] at hleaves
      exact List.ne_nil_of_mem hleaves
  case together =>
      have hsame := hjoins.same_cycle
      rw [loaded_cycle h hsource, loaded_cycle h htarget] at hsame
      exact (Document.nested_iff_of_cycle_eq hcycle).1 hsame

end Edges

/-- **A valid document is loaded as far as the canvas can show it.**  Every
node is there, and in the container that it names, unless it is a container
itself or in a container that is in one.  An edge is there exactly if it
leads from one node to another that accepts edges, the one that it leaves has
a right port, and both of them or neither lose their container; and if it
names a right port it leaves by that. -/
theorem toGraph_of_isValid (h : d.isValid) (settings : Settings α) :
    ∃ g, d.toGraph settings = .ok g
      ∧ g.nodes.map Node.standing
        = d.nodes.map (fun node =>
            (node.id, node.kind, if d.Nested node then none else node.cycle))
      ∧ ∀ stored ∈ d.edges, ∃ source ∈ d.nodes, ∃ target ∈ d.nodes,
        source.id = stored.source ∧ target.id = stored.target
        ∧ ((∃ edge ∈ g.edges, edge.source = stored.source ∧ edge.target = stored.target)
          ↔ d.Drawable source target)
        ∧ ∀ label ∈ source.exits, stored.label = some label → d.Drawable source target →
          ∃ edge ∈ g.edges, edge.source = stored.source ∧ edge.target = stored.target
            ∧ edge.sourcePort = label := by
  have hrunnable := Document.Runnable.of_isValid h
  obtain ⟨g, hok, hunplaced⟩ := toGraph_of_distinct hrunnable.distinct settings
  refine ⟨g, hok, ?nodes, fun stored hstored => ?edges⟩
  case nodes =>
      rw [← standings_unplaced g.nodes, (Prod.mk.inj hunplaced).1, standings_unplaced,
        canvas_nodes, List.map_map]
      refine List.map_congr_left fun node hnode => ?_
      show (_, _, _) = _
      rw [loaded_id, loaded_kind, loaded_cycle hrunnable hnode]
  case edges =>
      -- A valid edge joins two nodes of one container, which the loader may have taken from one of
      -- them only.
      obtain ⟨source, hsource, target, htarget, hsourceId, htargetId, hcycle⟩ :=
        hrunnable.joined stored hstored
      rw [(Prod.mk.inj hunplaced).2]
      refine ⟨source, hsource, target, htarget, hsourceId, htargetId, ⟨?_, ?_⟩, ?_⟩
      · rintro ⟨edge, hedge, hs, ht⟩
        exact drawable_of_loaded hrunnable hsource htarget hcycle hedge (hsourceId.trans hs.symm)
          (htargetId.trans ht.symm)
      · intro hdrawable
        obtain ⟨edge, hedge, hs, ht, -⟩ :=
          hdrawable.loaded hrunnable hsource htarget hcycle hstored hsourceId htargetId
        exact ⟨edge, hedge, hs, ht⟩
      · intro label hlabel hnamed hdrawable
        obtain ⟨edge, hedge, hs, ht, hport⟩ :=
          hdrawable.loaded hrunnable hsource htarget hcycle hstored hsourceId htargetId
        exact ⟨edge, hedge, hs, ht, hport label hlabel hnamed⟩

/-- A document with a branch, an iteration in a loop, and an edge that leaves
an end: the branch is kept, the edge to the iteration and that behind the end
are not, and what was in the iteration is at the top with it. -/
theorem toGraph_of_isValid_nested :
    let doc : Document Rat :=
      { info := .blank
        nodes :=
          [⟨"start", .start, none, none, [], none, []⟩,
            ⟨"choice", .ifElse, none, none, [("cases", .arr [.null, .null])], none, []⟩,
            ⟨"outer", .loop, none, none, [], none, []⟩,
            ⟨"end", .finish, none, none, [], none, []⟩,
            ⟨"after", .llm, none, none, [], none, []⟩,
            ⟨"first", .cycleStart, none, none, [], some "outer", []⟩,
            ⟨"step", .llm, none, none, [], some "outer", []⟩,
            ⟨"inner", .iteration, none, none, [], some "outer", []⟩,
            ⟨"second", .cycleStart, none, none, [], some "inner", []⟩,
            ⟨"deep", .llm, none, none, [], some "inner", []⟩]
        edges :=
          [⟨"start", "choice", none, []⟩, ⟨"choice", "outer", some "CASE2", []⟩,
            ⟨"outer", "end", none, []⟩, ⟨"end", "after", none, []⟩, ⟨"first", "step", none, []⟩,
            ⟨"first", "inner", none, []⟩, ⟨"second", "deep", none, []⟩]
        vars := [] }
    doc.isValid ∧ ∃ g, doc.toGraph .standard = .ok g
      ∧ g.nodes.map Node.standing
        = [("start", .start, none), ("choice", .ifElse, none), ("outer", .loop, none),
          ("end", .finish, none), ("after", .llm, none), ("first", .cycleStart, some "outer"),
          ("step", .llm, some "outer"), ("inner", .iteration, none),
          ("second", .cycleStart, none), ("deep", .llm, none)]
      ∧ g.edges.map Edge.route
        = [("start", "right", "choice"), ("choice", "CASE2", "outer"), ("outer", "right", "end"),
          ("first", "right", "step"), ("second", "right", "deep")] := by
  intro doc
  have hvalid : doc.isValid := by decide +kernel
  obtain ⟨g, hok, hnodes, -⟩ := toGraph_of_isValid hvalid .standard
  refine ⟨hvalid, g, hok, hnodes.trans (by decide +kernel), ?_⟩
  have hloaded : doc.toGraph .standard = .ok _ := rfl
  obtain rfl := Except.ok.inj (hloaded.symm.trans hok)
  decide +kernel

/-- **A valid document may be loaded with a loss**: a container in a container
does not stay there, nor does what is in it, and four edges are left out: one
from a node to itself, one into a start, one out of an end, and one between a
node that keeps its container and one that does not. -/
theorem not_unchanged_of_isValid :
    let doc : Document Rat :=
      { info := .blank
        nodes :=
          [⟨"start", .start, none, none, [], none, []⟩,
            ⟨"retried", .llm, none, none, [], none, []⟩,
            ⟨"outer", .loop, none, none, [], none, []⟩,
            ⟨"end", .finish, none, none, [], none, []⟩,
            ⟨"after", .llm, none, none, [], none, []⟩,
            ⟨"first", .cycleStart, none, some ⟨60, 120⟩, [], some "outer", []⟩,
            ⟨"inner", .iteration, none, some ⟨60, 120⟩, [], some "outer", []⟩,
            ⟨"second", .cycleStart, none, some ⟨100, 240⟩, [], some "inner", []⟩]
        edges :=
          [⟨"start", "retried", none, []⟩, ⟨"retried", "retried", none, [("type", .str "error")]⟩,
            ⟨"retried", "start", none, [("type", .str "error")]⟩, ⟨"retried", "outer", none, []⟩,
            ⟨"outer", "end", none, []⟩, ⟨"end", "after", none, []⟩, ⟨"first", "inner", none, []⟩]
        vars := [] }
    doc.isValid ∧ ∃ g, doc.toGraph .standard = .ok g
      ∧ g.nodes.map (fun node => (node.id, node.cycle))
        ≠ doc.nodes.map (fun node => (node.id, node.cycle))
      ∧ (doc.edges.filter fun stored => ¬ ∃ edge ∈ g.edges,
          edge.source = stored.source ∧ edge.target = stored.target).map
            (fun stored => (stored.source, stored.target))
        = [("retried", "retried"), ("retried", "start"), ("end", "after"), ("first", "inner")] := by
  intro doc
  have hok : doc.toGraph .standard = .ok _ := rfl
  exact ⟨by decide +kernel, _, hok, by decide +kernel, by decide +kernel⟩

end Loading

end WorkflowEditor
