/-
  WorkflowEditor.Proofs.LoadedGeometry
  ────────────────────────────────────
  **WHAT LOADING DOES TO PLACES AND SIZES.**

  Sizes are not stored.  Loading fits each container to its children where
  they were stored, moves those inside that stand on its header or border,
  and fits it again to what came of that.  Nothing else is touched:

    • `Draft.nodes_settleContainer` — the three steps as one change,
    • `Graph.SizedBut` — all nodes have the size that they need, but for the
      containers that are still to be settled,
    • `Graph.SizedBut.settleContainer` — of which there is one less after
      each,
    • `Graph.SizedBut.foldl_settleContainer` — and none at the end,
    • `Graph.fittedTo_toGraph`, `Graph.position_toGraph` — sizes and places of
      what is loaded,
    • `Graph.geometry_toGraph` — all that loading does to them.
-/
import WorkflowEditor.Proofs.Fitting

namespace WorkflowEditor

/-! ## §1. One container. -/

namespace Node

/-- A node as it is when a container has been settled, which has got a size
by that. -/
def settledWith (settings : Settings Rat) (container : Node Rat) (size : Size Rat)
    (node : Node Rat) : Node Rat :=
  container.sizing size (node.settledIn settings container)

variable {settings : Settings Rat} {container node : Node Rat} {size : Size Rat}

theorem settledWith_self (htop : container.cycle = none) :
    container.settledWith settings size container = { container with size := size } := by
  unfold settledWith
  rw [settledIn_of_other (htop ▸ nofun)]
  exact if_pos rfl

theorem settledWith_of_ne (h : node.id ≠ container.id) :
    container.settledWith settings size node = node.settledIn settings container := by
  rw [← settledIn_id settings container node] at h
  exact if_neg h

theorem settledIn_size (settings : Settings Rat) (container node : Node Rat) :
    (node.settledIn settings container).size = node.size := by
  unfold settledIn
  split <;> rfl

theorem alike_settledWith (settings : Settings Rat) (container : Node Rat) (size : Size Rat)
    (node : Node Rat) : (container.settledWith settings size node).Alike node := by
  refine (container.alike_sizing size (node.settledIn settings container)).trans ?_
  unfold settledIn
  split <;> exact ⟨rfl, rfl, rfl, rfl⟩

end Node

namespace Draft

variable {d : Draft Rat} {container : Node Rat}

/-- The size that a container needs when its children have been moved away
from its near sides. -/
def settledSize (d : Draft Rat) (container : Node Rat) : Size Rat :=
  d.graph.settings.fit container.position
    (((d.graph.children container.id).map fun child =>
      child.settledIn d.graph.settings container).map Node.rect)

/-- **The children of a container that was fitted** have been moved away from
its near sides, and nothing else has become of them. -/
theorem children_settleChildren (hids : (d.graph.nodes.map Node.id).Nodup)
    (hcontainer : container ∈ d.graph.nodes) (htop : container.cycle = none) :
    (((d.graph.children container.id).map Node.id).foldl settleChild
        (d.fitContainer container.id)).graph.children container.id
      = (d.graph.children container.id).map fun child =>
          child.settledIn d.graph.settings container := by
  rw [Graph.children_map (nodes_settleChildren hids hcontainer htop) fun node =>
    Node.settledIn_cycle _ _ node, children_fitContainer hids hcontainer htop]

/-- **Settling a container**: its children are moved away from the near
sides, and it gets the size that they need there. -/
theorem nodes_settleContainer (hids : (d.graph.nodes.map Node.id).Nodup)
    (hcontainer : container ∈ d.graph.nodes) (htop : container.cycle = none) :
    (d.settleContainer container.id).graph.nodes
      = d.graph.nodes.map
          (container.settledWith d.graph.settings (d.settledSize container)) := by
  let settings := d.graph.settings
  let first := d.graph.sizeToFit container
  let sized : Node Rat := { container with size := first }
  let moved := ((d.graph.children container.id).map Node.id).foldl settleChild
    (d.fitContainer container.id)
  let step (node : Node Rat) : Node Rat :=
    (container.sizing first node).settledIn settings container
  have hmoved : moved.graph.nodes = d.graph.nodes.map step := by
    refine (nodes_settleChildren hids hcontainer htop).trans ?_
    rw [nodes_fitContainer hids hcontainer, List.map_map]
    rfl
  have hids' : (moved.graph.nodes.map Node.id).Nodup := by
    refine Graph.nodup_ids_of_unplaced ?_ hids
    exact (unplaced_foldl unplaced_settleChild _ _).trans (d.unplaced_fitContainer container.id)
  have hself : step container = sized := by
    have hsized : container.sizing first container = sized := if_pos rfl
    show (container.sizing first container).settledIn settings container = sized
    rw [hsized]
    exact Node.settledIn_of_other (htop ▸ nofun)
  have hsize : moved.graph.sizeToFit sized = d.settledSize container := by
    have haside : moved.graph.aside = d.graph.aside :=
      (aside_foldl aside_settleChild _ _).trans (d.aside_fitContainer container.id)
    have hsettings : moved.graph.settings = settings := congrArg Prod.fst haside
    have hchildren := children_settleChildren hids hcontainer htop
    unfold Graph.sizeToFit settledSize
    rw [hsettings, hchildren]
  -- The second fit is of a container of the same place, whose children have been moved.
  calc (d.settleContainer container.id).graph.nodes
      = moved.graph.nodes.map (sized.sizing (moved.graph.sizeToFit sized)) := by
        have hsized : sized ∈ moved.graph.nodes :=
          hmoved ▸ List.mem_map.2 ⟨container, hcontainer, hself⟩
        exact (nodes_fitContainer hids' hsized :)
    _ = d.graph.nodes.map fun node => sized.sizing (d.settledSize container) (step node) := by
        rw [hmoved, hsize, List.map_map]
        rfl
    _ = d.graph.nodes.map (container.settledWith settings (d.settledSize container)) := by
        refine List.map_congr_left fun node hnode => ?_
        by_cases hne : node.id = container.id
        · -- The size that it was given first does not matter.
          obtain rfl := Graph.eq_of_id_eq hids hnode hcontainer hne
          rw [hself, Node.settledWith_self htop]
          exact if_pos rfl
        · have hother : container.sizing first node = node := if_neg hne
          show sized.sizing _ ((container.sizing first node).settledIn settings container) = _
          rw [hother]
          rfl

end Draft

/-! ## §2. All containers. -/

namespace Graph

variable {d : Draft Rat} {container : Node Rat} {rest : List String}

/-- Every node has the size that it is to have, a container the one that it
needs, but for those that are still to be settled. -/
def SizedBut (g : Graph Rat) (rest : List String) : Prop :=
  ∀ node ∈ g.nodes, node.id ∉ rest →
    node.size = if node.kind.isContainer then g.sizeToFit node else g.settings.sizeOf node.kind

/-- **Settling a container gives it its size**, and leaves those of the
others right. -/
theorem SizedBut.settleContainer (h : d.graph.SizedBut (container.id :: rest))
    (hwell : d.graph.WellFormed) (hcontainer : container ∈ d.graph.nodes)
    (hencloses : container.Encloses) :
    (d.settleContainer container.id).graph.SizedBut rest := by
  let settings := d.graph.settings
  let size := d.settledSize container
  let settle := container.settledWith settings size
  have hsettings : (d.settleContainer container.id).graph.settings = settings :=
    congrArg Prod.fst (d.aside_settleContainer container.id)
  have hnodes : (d.settleContainer container.id).graph.nodes = d.graph.nodes.map settle :=
    Draft.nodes_settleContainer hwell.nodup_ids hcontainer hencloses.top
  have hchildren (id : String) : (d.settleContainer container.id).graph.children id
      = (d.graph.children id).map fun child => child.settledIn settings container := by
    rw [children_map hnodes fun node => (container.alike_settledWith settings size node).cycle]
    -- No child is the container itself, which is in none.
    refine List.map_congr_left fun child hchild => Node.settledWith_of_ne fun hid => ?_
    obtain ⟨hmem, hcycle⟩ := mem_children.1 hchild
    rw [hwell.eq_of_id hmem hcontainer hid, hencloses.top] at hcycle
    cases hcycle
  intro node hnode hrest
  rw [hnodes] at hnode
  obtain ⟨before, hbefore, rfl⟩ := List.mem_map.1 hnode
  obtain ⟨hid, hkind, -, -⟩ := container.alike_settledWith settings size before
  unfold sizeToFit
  rw [hsettings, hkind, hid, hchildren]
  by_cases hne : before.id = container.id
  · obtain rfl := hwell.eq_of_id hbefore hcontainer hne
    have hself : settle before = { before with size := size } :=
      Node.settledWith_self hencloses.top
    rw [if_pos hencloses.container]
    show (settle before).size = settings.fit (settle before).position _
    rw [hself]
    rfl
  · have hother : settle before = before.settledIn settings container :=
      Node.settledWith_of_ne hne
    have hbefore' := h before hbefore (List.not_mem_cons_of_ne_of_not_mem hne (hid ▸ hrest))
    show (settle before).size
      = if before.kind.isContainer then settings.fit (settle before).position _ else _
    rw [hother, Node.settledIn_size, hbefore']
    split
    · -- A container is in none, and its children are in no other one.
      rename_i hcontains
      have htop := hwell.containers before hbefore hcontains
      have hkept : ∀ child ∈ d.graph.children before.id,
          child.settledIn settings container = child := by
        intro child hchild
        refine Node.settledIn_of_other fun hcycle => hne ?_
        exact Option.some.inj ((mem_children.1 hchild).2.symm.trans hcycle)
      rw [Node.settledIn_of_other (htop ▸ nofun), List.map_congr_left hkept, List.map_id']
      rfl
    · rfl

/-- **Settling containers in turn** leaves none of them to be settled. -/
theorem SizedBut.foldl_settleContainer {ids : List String} (h : d.graph.SizedBut ids)
    (hwell : d.graph.WellFormed)
    (hcontainers : ∀ id ∈ ids, ∃ container ∈ d.graph.nodes, container.id = id
      ∧ container.Encloses) :
    (ids.foldl Draft.settleContainer d).graph.SizedBut [] := by
  induction ids generalizing d with
  | nil => exact h
  | cons id ids ih =>
      obtain ⟨container, hcontainer, rfl, hencloses⟩ := hcontainers id List.mem_cons_self
      have hunplaced := d.unplaced_settleContainer container.id
      refine ih (h.settleContainer hwell hcontainer hencloses)
        (hwell.congr_unplaced hunplaced.symm) fun other hother => ?_
      obtain ⟨before, hbefore, rfl, hencloses'⟩ :=
        hcontainers other (List.mem_cons_of_mem _ hother)
      -- The others are containers as they were before this one was settled.
      obtain ⟨after, hafter, halike⟩ :=
        exists_alike (outline_eq_of_unplaced hunplaced.symm) hbefore
      exact ⟨after, hafter, halike.id.symm, hencloses'.congr halike⟩

/-! ## §3. Loading. -/

/-- Before containers are settled, all other nodes have their sizes. -/
theorem sizedBut_ofDocument (doc : Document Rat) (settings : Settings Rat) :
    let before := ofDocument doc settings (doc.nodes.map (StoredNode.toNode settings))
    before.SizedBut ((before.nodes.filter fun node => node.kind.isContainer).map Node.id) := by
  intro before node hnode hrest
  have hplain : ¬ node.kind.isContainer := fun hcontains =>
    hrest (List.mem_map_of_mem (List.mem_filter.2 ⟨hnode, hcontains⟩))
  have hsettings : before.settings = settings := settings_ofDocument doc settings _
  rw [if_neg hplain, hsettings]
  rw [nodes_ofDocument] at hnode
  obtain ⟨stored, hstored, rfl⟩ := List.mem_map.1 hnode
  obtain ⟨stored, -, rfl⟩ := List.mem_map.1 hstored
  rw [Node.detach_eq]
  rfl

/-- What becomes of a coordinate that is to be `low` at the least: it stays, or
it becomes that. -/
def RaisedTo (low before after : Rat) : Prop :=
  (low ≤ before → after = before) ∧ (before < low → after = low)

theorem raisedTo_max (low before : Rat) : RaisedTo low before (max before low) :=
  ⟨max_eq_left, fun h => max_eq_right h.le⟩

section Loaded

variable {doc : Document Rat} {settings : Settings Rat} {g : Graph Rat}
  (hok : doc.toGraph settings = .ok g)
include hok

/-- **Loading gives each container its size.** -/
theorem sizedBut_toGraph : g.SizedBut [] := by
  obtain ⟨nodes, hnodes, hunplaced⟩ := toGraph_eq_ok hok
  obtain ⟨rfl, -⟩ := addStored_nil_eq_ok.1 hnodes
  obtain rfl := Except.ok.inj (hok.symm.trans (toGraph_eq hnodes))
  have hwell : (ofDocument doc settings (doc.nodes.map (StoredNode.toNode settings))).WellFormed :=
    (wellFormed_toGraph hok).congr_unplaced hunplaced
  refine SizedBut.foldl_settleContainer (sizedBut_ofDocument doc settings) hwell fun id hid => ?_
  obtain ⟨container, hmem, rfl⟩ := List.mem_map.1 hid
  obtain ⟨hcontainer, hcontains⟩ := List.mem_filter.1 hmem
  exact ⟨container, hcontainer, rfl, hcontains, hwell.containers container hcontainer hcontains⟩

/-- All of a document is loaded, and its nodes stand where they are settled. -/
theorem settled_of_toGraph :
    let before := ofDocument doc settings (doc.nodes.map (StoredNode.toNode settings))
    g.unplaced = before.unplaced ∧ g.aside = (settings, doc.info, doc.vars)
      ∧ g.nodes.map Node.unsized
        = before.nodes.map fun node => (before.settled node).unsized := by
  obtain ⟨nodes, hnodes, -⟩ := toGraph_eq_ok hok
  obtain ⟨rfl, -⟩ := addStored_nil_eq_ok.1 hnodes
  obtain ⟨loaded, hloaded, hsettled⟩ := toGraph_settled hnodes
  obtain rfl := Except.ok.inj (hok.symm.trans hloaded)
  exact hsettled

/-- A node that was loaded has the id of a stored one, in order. -/
theorem ids_toGraph : g.nodes.map Node.id = doc.nodes.map StoredNode.id := by
  obtain ⟨hunplaced, -, -⟩ := settled_of_toGraph hok
  rw [ids_eq_of_outline (outline_eq_of_unplaced hunplaced), nodes_ofDocument]
  unfold detachNodes
  rw [List.map_map, List.map_map]
  exact List.map_congr_left fun stored _ => Node.detach_id _ _

/-- **A container is as large as its children ask**, and any other node has the
usual size. -/
theorem fittedTo_toGraph {node : Node Rat} (hnode : node ∈ g.nodes) :
    if node.kind.isContainer then node.FittedTo settings (g.children node.id)
    else node.size = settings.defaultNodeSize := by
  have hsettings : g.settings = settings := congrArg Prod.fst (settled_of_toGraph hok).2.1
  have hsize := sizedBut_toGraph hok node hnode List.not_mem_nil
  split
  · rename_i hcontains
    refine Node.fittedTo_of_size ?_
    rw [hsize, if_pos hcontains, sizeToFit, hsettings]
  · rename_i hplain
    rw [hsize, if_neg hplain, hsettings]
    exact if_neg hplain

/-- **Where a node stands that was loaded**: where it was stored, or moved away
from the near sides of its container. -/
theorem position_toGraph {stored : StoredNode Rat} (hstored : stored ∈ doc.nodes)
    {node : Node Rat} (hnode : node ∈ g.nodes) (hid : node.id = stored.id) :
    let place := stored.position.getD .origin
    (node.cycle = none ∧ node.position = place)
      ∨ ∃ container ∈ g.nodes, node.cycle = some container.id ∧ container.Encloses
        ∧ node.position = settings.pushed container.position place := by
  let before := ofDocument doc settings (doc.nodes.map (StoredNode.toNode settings))
  let origin := (stored.toNode settings).detach (doc.nodes.map (StoredNode.toNode settings))
  obtain ⟨hunplaced, -, hsettled⟩ := settled_of_toGraph hok
  have hwell := wellFormed_toGraph hok
  have horigin : origin ∈ before.nodes := by
    rw [nodes_ofDocument]
    exact List.mem_map_of_mem (List.mem_map_of_mem hstored)
  obtain ⟨found, hfound, heq⟩ : ∃ found ∈ g.nodes,
      found.unsized = (before.settled origin).unsized :=
    List.mem_map.1 (hsettled ▸ List.mem_map_of_mem horigin)
  -- Ids are distinct, so the node with the id of a stored one came from it.
  have hsame : found.id = node.id := by
    have hfoundId : found.id = (before.settled origin).id := (Node.mk.inj heq).1
    rw [hfoundId, settled_id, hid]
    exact Node.detach_id _ _
  obtain rfl := hwell.eq_of_id hfound hnode hsame
  have hposition : origin.position = stored.position.getD .origin :=
    (congrArg Node.position (Node.detach_eq _ _)).trans rfl
  have hcases := position_of_settled (hwell.congr_unplaced hunplaced) hwell hsettled hnode heq.symm
  rwa [settings_ofDocument, hposition] at hcases

end Loaded

/-- **Loading mends places and sizes, and nothing else.**  A container gets
the size that its children need, and any other node the usual one.  A child
stands inside its container, where it was stored or at the near side that it
was beyond, along each axis; and what is in no container stands where it was
stored. -/
theorem geometry_toGraph {doc : Document Rat} {settings : Settings Rat} {g : Graph Rat}
    (hok : doc.toGraph settings = .ok g) :
    g.unplaced
        = (ofDocument doc settings (doc.nodes.map (StoredNode.toNode settings))).unplaced
      ∧ g.aside = (settings, doc.info, doc.vars)
      ∧ g.nodes.map Node.id = doc.nodes.map StoredNode.id
      ∧ (∀ node ∈ g.nodes, if node.kind.isContainer
        then node.FittedTo settings (g.children node.id)
        else node.size = settings.defaultNodeSize)
      ∧ ∀ stored ∈ doc.nodes, ∀ node ∈ g.nodes, node.id = stored.id →
        let place := stored.position.getD .origin
        (node.cycle = none ∧ node.position = place)
          ∨ ∃ container ∈ g.nodes, node.cycle = some container.id ∧ container.kind.isContainer
            ∧ settings.Admits container.rect node.size node.position
            ∧ RaisedTo (container.position.x + settings.containerPadding) place.x node.position.x
            ∧ RaisedTo (container.position.y + settings.containerHeader
              + settings.containerPadding) place.y node.position.y := by
  obtain ⟨hunplaced, haside, -⟩ := settled_of_toGraph hok
  refine ⟨hunplaced, haside, ids_toGraph hok, fun node => fittedTo_toGraph hok,
    fun stored hstored node hnode hid => ?_⟩
  refine (position_toGraph hok hstored hnode hid).imp_right ?_
  rintro ⟨container, hcontainer, hcycle, hencloses, hposition⟩
  have hfitted := fittedTo_toGraph hok hcontainer
  rw [if_pos hencloses.container] at hfitted
  have hclears : container.Clears settings node := by
    unfold Node.Clears
    rw [hposition]
    exact ⟨le_max_right _ _, le_max_right _ _⟩
  refine ⟨container, hcontainer, hcycle, hencloses.container,
    hfitted.admits (mem_children.2 ⟨hnode, hcycle⟩) hclears, ?_⟩
  rw [hposition]
  exact ⟨raisedTo_max _ _, raisedTo_max _ _⟩

/-- A loop whose first child was stored beyond its left side, and its second
one far beyond the least size; and a node that names a child as its
container. -/
theorem geometry_toGraph_loop :
    let doc : Document Rat :=
      { info := .blank
        nodes :=
          [⟨"box", .loop, none, some ⟨100, 100⟩, [], none, []⟩,
            ⟨"near", .llm, none, some ⟨0, 300⟩, [], some "box", []⟩,
            ⟨"far", .llm, none, some ⟨2000, 900⟩, [], some "box", []⟩,
            ⟨"lost", .llm, none, some ⟨5, 5⟩, [], some "far", []⟩]
        edges := []
        vars := [] }
    ∃ g, doc.toGraph .standard = .ok g
      ∧ g.nodes.map (fun node => (node.id, node.cycle, node.rect))
        = [("box", none, ⟨100, 100, 2164, 904⟩), ("near", some "box", ⟨124, 300, 240, 80⟩),
          ("far", some "box", ⟨2000, 900, 240, 80⟩), ("lost", none, ⟨5, 5, 240, 80⟩)]
      ∧ ∀ box ∈ g.nodes, box.kind.isContainer → box.FittedTo .standard (g.children box.id) := by
  intro doc
  have hok : doc.toGraph .standard = .ok _ := rfl
  obtain ⟨-, -, -, hfitted, -⟩ := geometry_toGraph hok
  refine ⟨_, hok, by decide +kernel, fun box hbox hcontains => ?_⟩
  have hbox' := hfitted box hbox
  rwa [if_pos hcontains] at hbox'

end Graph

end WorkflowEditor
