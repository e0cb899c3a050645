/-
  WorkflowEditor.Proofs.Enclosure
  ───────────────────────────────
  **CONTAINERS ENCLOSE THEIR CHILDREN.**

  Over exact coordinates a child stands clear of the near sides of its
  container from the time that it is put there, and its container is fitted
  to it at the end of every change of a child.  Only a new container is not
  fitted to its start:

    • `Settings.clears_clamp` — clamping keeps a child clear of the near
      sides,
    • `Graph.ShelteredBut` — all containers enclose their children, but for
      one that is still to be fitted,
    • `Graph.sheltered_fitEnclosing` — which fitting mends,
    • `Graph.Applied.sheltered` — one change, and `children_enclosed` —
      changes in turn,
    • `not_enclosed_opened` — a new container that is too small for its
      start.
-/
import WorkflowEditor.Proofs.Applied
import WorkflowEditor.Proofs.Moving
import Mathlib.Tactic.Linarith
import Mathlib.Tactic.Ring

namespace WorkflowEditor

/-! ## §1. What a container gives to its children. -/

namespace Settings

/-- The upper left corner of the body of a container at a corner. -/
def bodyCorner (settings : Settings Rat) (corner : Position Rat) : Position Rat :=
  ⟨corner.x + settings.containerPadding,
    corner.y + settings.containerHeader + settings.containerPadding⟩

theorem bodyCorner_offset (settings : Settings Rat) (corner : Position Rat) (dx dy : Rat) :
    settings.bodyCorner (corner.offset dx dy) = (settings.bodyCorner corner).offset dx dy := by
  refine congrArg₂ Position.mk ?_ ?_
  · show corner.x + dx + settings.containerPadding = corner.x + settings.containerPadding + dx
    ring
  · show corner.y + dy + settings.containerHeader + settings.containerPadding
      = corner.y + settings.containerHeader + settings.containerPadding + dy
    ring

/-- The least size has room for the start of a new container. -/
def HasRoom (settings : Settings Rat) : Prop :=
  settings.defaultNodeSize.width + 2 * settings.containerPadding ≤ settings.minContainerSize.width
    ∧ settings.containerHeader + settings.defaultNodeSize.height + 2 * settings.containerPadding
      ≤ settings.minContainerSize.height

end Settings

namespace Node

variable {settings : Settings Rat} {container container' child child' : Node Rat}
  {children children' : List (Node Rat)}

/-- A child stands clear of the near sides of its container and of the
header. -/
def Clears (settings : Settings Rat) (container child : Node Rat) : Prop :=
  (settings.bodyCorner container.position).x ≤ child.position.x
    ∧ (settings.bodyCorner container.position).y ≤ child.position.y

/-- A container is as it was opened: of the least size, and with nothing but
its start in the upper left corner. -/
structure JustOpened (settings : Settings Rat) (container : Node Rat)
    (children : List (Node Rat)) : Prop where
  size : container.size = settings.minContainerSize
  start : ∃ start, children = [start] ∧ start.size = settings.defaultNodeSize
    ∧ start.position = settings.bodyCorner container.position

/-- What a container gives to its children: it is large enough, they stand
clear of its near sides, and it reaches beyond them, unless it is as it was
opened. -/
structure Shelters (settings : Settings Rat) (container : Node Rat) (children : List (Node Rat)) :
    Prop where
  least : container.size.Reaches settings.minContainerSize
  clears : ∀ child ∈ children, container.Clears settings child
  holds : (∀ child ∈ children, container.Holds settings child)
    ∨ container.JustOpened settings children

/-- A node as far as containers and their children go. -/
def seat (node : Node Rat) : Node Rat :=
  { node with name := "", form := .empty, ports := [], extra := [] }

/-- Where a node is. -/
def spot (node : Node Rat) : Position Rat × Size Rat := (node.position, node.size)

/-- A list of nodes at the same spots as another one. -/
theorem exists_spot (h : children'.map spot = children.map spot) (hchild : child ∈ children') :
    ∃ other ∈ children, other.position = child.position ∧ other.size = child.size := by
  obtain ⟨other, hother, heq⟩ := List.mem_map.1 (h ▸ List.mem_map_of_mem (f := spot) hchild)
  obtain ⟨hposition, hsize⟩ := Prod.mk.inj heq
  exact ⟨other, hother, hposition, hsize⟩

theorem Clears.congr (h : container.Clears settings child)
    (hcontainer : container'.position = container.position)
    (hchild : child'.position = child.position) : container'.Clears settings child' := by
  unfold Clears at *
  rwa [hcontainer, hchild]

theorem JustOpened.congr (h : container.JustOpened settings children)
    (hcontainer : container'.spot = container.spot)
    (hchildren : children'.map spot = children.map spot) :
    container'.JustOpened settings children' := by
  obtain ⟨hposition, hsize⟩ := Prod.mk.inj hcontainer
  obtain ⟨start, rfl, hstart, hcorner⟩ := h.start
  obtain ⟨start', rfl, heq⟩ := List.map_eq_singleton_iff.1 hchildren
  obtain ⟨hposition', hsize'⟩ := Prod.mk.inj heq
  exact
    { size := hsize.trans h.size
      start := ⟨start', rfl, hsize'.trans hstart,
        hposition'.trans (hcorner.trans (hposition ▸ rfl))⟩ }

/-- **Only positions and sizes matter.** -/
theorem Shelters.congr (h : container.Shelters settings children)
    (hcontainer : container'.spot = container.spot)
    (hchildren : children'.map spot = children.map spot) :
    container'.Shelters settings children' := by
  obtain ⟨hposition, hsize⟩ := Prod.mk.inj hcontainer
  constructor
  case least => exact hsize ▸ h.least
  case clears =>
      intro child hchild
      obtain ⟨other, hother, hposition', -⟩ := exists_spot hchildren hchild
      exact (h.clears other hother).congr hposition hposition'.symm
  case holds =>
      refine h.holds.imp (fun hholds child hchild => ?_) fun hopened =>
        hopened.congr hcontainer hchildren
      obtain ⟨other, hother, hposition', hsize'⟩ := exists_spot hchildren hchild
      have hchild' := hholds other hother
      unfold Holds rect at *
      rwa [hposition, hsize, ← hposition', ← hsize']

/-- A container reaches beyond a child, told by their sides. -/
theorem holds_iff : container.Holds settings child
    ↔ child.rect.right + settings.containerPadding ≤ container.rect.right
      ∧ child.rect.bottom + settings.containerPadding ≤ container.rect.bottom := by
  show child.position.x + child.size.width - container.position.x + settings.containerPadding
        ≤ container.size.width
      ∧ child.position.y + child.size.height - container.position.y + settings.containerPadding
        ≤ container.size.height
    ↔ child.position.x + child.size.width + settings.containerPadding
        ≤ container.position.x + container.size.width
      ∧ child.position.y + child.size.height + settings.containerPadding
        ≤ container.position.y + container.size.height
  constructor <;> rintro ⟨hright, hbottom⟩ <;> constructor <;> linarith

/-- **A container that was just opened reaches beyond its start exactly if the
least size has room for it.** -/
theorem JustOpened.holds_iff_hasRoom (h : container.JustOpened settings children) :
    (∀ child ∈ children, container.Holds settings child) ↔ settings.HasRoom := by
  obtain ⟨start, rfl, hstart, hcorner⟩ := h.start
  rw [List.forall_mem_singleton, holds_iff]
  show start.position.x + start.size.width + settings.containerPadding
        ≤ container.position.x + container.size.width
      ∧ start.position.y + start.size.height + settings.containerPadding
        ≤ container.position.y + container.size.height
    ↔ settings.HasRoom
  rw [hstart, hcorner, h.size]
  unfold Settings.bodyCorner Settings.HasRoom
  dsimp only
  constructor <;> rintro ⟨hwidth, hheight⟩ <;> constructor <;> linarith

/-- A container that is as large as its children need shelters them. -/
theorem shelters_of_reaches (hclears : ∀ child ∈ children, container.Clears settings child)
    (hsize : container.size.Reaches
      (settings.fit container.position (children.map rect))) :
    container.Shelters settings children := by
  obtain ⟨hleast, hchildren⟩ := settings.reaches_fit container.position (children.map rect)
  exact
    { least := hsize.trans hleast
      clears := hclears
      holds := .inl fun child hchild =>
        hsize.trans (hchildren child.rect (List.mem_map_of_mem hchild)) }

theorem clears_shifted (dx dy : Rat) :
    (container.shifted dx dy).Clears settings (child.shifted dx dy)
      ↔ container.Clears settings child := by
  show (settings.bodyCorner (container.position.offset dx dy)).x ≤ child.position.x + dx
    ∧ (settings.bodyCorner (container.position.offset dx dy)).y ≤ child.position.y + dy ↔ _
  rw [settings.bodyCorner_offset]
  exact and_congr (add_le_add_iff_right dx) (add_le_add_iff_right dy)

theorem holds_shifted (dx dy : Rat) :
    (container.shifted dx dy).Holds settings (child.shifted dx dy)
      ↔ container.Holds settings child := by
  have hextent : settings.extent (container.position.offset dx dy) (child.shifted dx dy).rect
      = settings.extent container.position child.rect := by
    refine congrArg₂ Size.mk ?_ ?_
    · show child.position.x + dx + child.size.width - (container.position.x + dx) + _
        = child.position.x + child.size.width - container.position.x + _
      ring
    · show child.position.y + dy + child.size.height - (container.position.y + dy) + _
        = child.position.y + child.size.height - container.position.y + _
      ring
  unfold Holds
  show container.size.Reaches (settings.extent (container.position.offset dx dy) _) ↔ _
  rw [hextent]

/-- Where a moved node has landed, told as how far it went. -/
theorem carried_self_eq_shifted (moved : Node Rat) (landed : Position Rat) :
    moved.carried landed moved
      = moved.shifted (landed.x - moved.position.x) (landed.y - moved.position.y) := by
  have hlanded : moved.position.offset (landed.x - moved.position.x)
      (landed.y - moved.position.y) = landed :=
    congrArg₂ Position.mk (add_sub_cancel _ _) (add_sub_cancel _ _)
  unfold shifted
  rw [hlanded]
  exact moved.carried_self landed

theorem JustOpened.shifted (h : container.JustOpened settings children) (dx dy : Rat) :
    (container.shifted dx dy).JustOpened settings (children.map (Node.shifted dx dy)) := by
  obtain ⟨start, rfl, hstart, hcorner⟩ := h.start
  refine ⟨h.size, start.shifted dx dy, rfl, hstart, ?_⟩
  show start.position.offset dx dy = settings.bodyCorner (container.position.offset dx dy)
  rw [settings.bodyCorner_offset, hcorner]

/-- **A container and its children may go together.** -/
theorem Shelters.shifted (h : container.Shelters settings children) (dx dy : Rat) :
    (container.shifted dx dy).Shelters settings (children.map (Node.shifted dx dy)) := by
  constructor
  case least => exact h.least
  case clears =>
      rw [List.forall_mem_map]
      exact fun child hchild => (clears_shifted dx dy).2 (h.clears child hchild)
  case holds =>
      rw [List.forall_mem_map]
      refine h.holds.imp (fun hholds child hchild => ?_) fun hopened => ?_
      · exact (holds_shifted dx dy).2 (hholds child hchild)
      · exact hopened.shifted dx dy

/-- A node as it is when one node has got a size. -/
def sizing (resized : Node Rat) (size : Size Rat) (node : Node Rat) : Node Rat :=
  if node.id = resized.id then { node with size := size } else node

theorem alike_sizing (resized : Node Rat) (size : Size Rat) (node : Node Rat) :
    (resized.sizing size node).Alike node := by
  unfold sizing
  split <;> exact ⟨rfl, rfl, rfl, rfl⟩

theorem sizing_position (resized : Node Rat) (size : Size Rat) (node : Node Rat) :
    (resized.sizing size node).position = node.position := by
  unfold sizing
  split <;> rfl

end Node

/-- What is put into the corner of the body stays there. -/
theorem Settings.clamp_bodyCorner (settings : Settings Rat) (corner : Position Rat)
    (child size : Size Rat) :
    settings.clamp (settings.bodyCorner corner) child (.ofCorner corner size)
      = settings.bodyCorner corner := by
  have hself (low high : Rat) : clampAxis low low high = low := by
    unfold clampAxis
    rw [larger_eq_max, smaller_eq_min]
    exact max_eq_right (min_le_left _ _)
  exact congrArg₂ Position.mk (hself _ _) (hself _ _)

/-- **Clamping keeps a child clear of the near sides.** -/
theorem Settings.clears_clamp (settings : Settings Rat) (candidate : Position Rat)
    (size : Size Rat) {container child : Node Rat}
    (h : child.position = settings.clamp candidate size container.rect) :
    container.Clears settings child := by
  unfold Node.Clears
  rw [h]
  unfold clamp clampAxis
  dsimp only
  rw [larger_eq_max, larger_eq_max]
  exact ⟨le_max_right _ _, le_max_right _ _⟩

/-! ## §2. Graphs whose containers enclose their children. -/

namespace Graph

variable {g g' : Graph Rat} {exempt : Option String}

/-- Every container shelters its children; of the one that is exempt, which
is still to be fitted, they stand clear of the near sides only. -/
def ShelteredBut (g : Graph Rat) (exempt : Option String) : Prop :=
  ∀ container ∈ g.nodes, container.kind.isContainer →
    (∀ child ∈ g.children container.id, container.Clears g.settings child)
      ∧ (exempt ≠ some container.id →
        container.Shelters g.settings (g.children container.id))

/-- **A change of each node for itself**, that keeps ids, kinds and
containers. -/
theorem shelteredBut_map {f : Node Rat → Node Rat} (hsettings : g'.settings = g.settings)
    (hnodes : g'.nodes = g.nodes.map f) (halike : ∀ node, (f node).Alike node)
    (h : ∀ container ∈ g.nodes, container.kind.isContainer →
      (∀ child ∈ g.children container.id, (f container).Clears g.settings (f child))
        ∧ (exempt ≠ some container.id →
          (f container).Shelters g.settings ((g.children container.id).map f))) :
    g'.ShelteredBut exempt := by
  intro container hcontainer hcontains
  rw [hnodes] at hcontainer
  obtain ⟨before, hbefore, rfl⟩ := List.mem_map.1 hcontainer
  rw [hsettings, (halike before).id, children_map hnodes (fun node => (halike node).cycle),
    List.forall_mem_map]
  exact h before hbefore ((halike before).kind ▸ hcontains)

theorem ShelteredBut.exempting (h : g.ShelteredBut none) (exempt : Option String) :
    g.ShelteredBut exempt := fun container hcontainer hcontains =>
  ⟨(h container hcontainer hcontains).1, fun _ => (h container hcontainer hcontains).2 nofun⟩

/-- **Only what stands where matters.** -/
theorem ShelteredBut.congr (h : g.ShelteredBut exempt) (hsettings : g'.settings = g.settings)
    (hseats : g'.nodes.map Node.seat = g.nodes.map Node.seat) : g'.ShelteredBut exempt := by
  have hchildren (id : String) :
      (g'.children id).map Node.spot = (g.children id).map Node.spot := by
    have hview (g : Graph Rat) : (g.children id).map Node.spot
        = ((g.nodes.map Node.seat).filter fun seat => seat.cycle == some id).map Node.spot := by
      rw [List.filter_map, List.map_map]
      rfl
    rw [hview, hview, hseats]
  intro container hcontainer hcontains
  obtain ⟨before, hbefore, heq⟩ := List.mem_map.1
    (hseats ▸ List.mem_map_of_mem (f := Node.seat) hcontainer)
  obtain ⟨hid, hkind, -, hposition, hsize, -⟩ := Node.mk.inj heq
  have hspot : container.spot = before.spot := Prod.ext hposition.symm hsize.symm
  obtain ⟨hclears, hshelters⟩ := h before hbefore (hkind ▸ hcontains)
  rw [hsettings, ← hid]
  constructor
  · intro child hchild
    obtain ⟨other, hother, hat, -⟩ := Node.exists_spot (hchildren before.id) hchild
    exact (hclears other hother).congr hposition.symm hat.symm
  · exact fun hexempt => (hshelters hexempt).congr hspot (hchildren before.id)

/-- Children stay as they are if none of them is what was resized. -/
theorem map_sizing_children {resized : Node Rat} {size : Size Rat} {id : String}
    (hids : (g.nodes.map Node.id).Nodup) (hresized : resized ∈ g.nodes)
    (hout : resized.cycle ≠ some id) :
    (g.children id).map (resized.sizing size) = g.children id := by
  refine (List.map_congr_left fun child hchild => ?_).trans (List.map_id _)
  obtain ⟨hmem, hcycle⟩ := mem_children.1 hchild
  refine if_neg fun hid => hout ?_
  rwa [← eq_of_id_eq hids hmem hresized hid]

/-- **A node gets a size**, a container one that its children fit in. -/
theorem shelteredBut_resize {resized : Node Rat} {size : Size Rat}
    (h : g.ShelteredBut (some resized.id)) (hids : (g.nodes.map Node.id).Nodup)
    (hresized : resized ∈ g.nodes) (hout : resized.cycle ≠ some resized.id)
    (hsize : resized.kind.isContainer → size.Reaches (g.sizeToFit resized))
    (hsettings : g'.settings = g.settings)
    (hnodes : g'.nodes = g.nodes.map (resized.sizing size)) :
    g'.ShelteredBut resized.cycle := by
  refine shelteredBut_map hsettings hnodes (resized.alike_sizing size) ?_
  intro container hcontainer hcontains
  obtain ⟨hclears, hshelters⟩ := h container hcontainer hcontains
  have hclears' : ∀ child ∈ g.children container.id,
      (resized.sizing size container).Clears g.settings (resized.sizing size child) := by
    intro child hchild
    exact (hclears child hchild).congr (resized.sizing_position size container)
      (resized.sizing_position size child)
  refine ⟨hclears', fun hexempt => ?_⟩
  rw [map_sizing_children hids hresized hexempt]
  by_cases hid : container.id = resized.id
  · obtain rfl := eq_of_id_eq hids hcontainer hresized hid
    have hsized : container.sizing size container = { container with size := size } := if_pos rfl
    rw [hsized]
    exact Node.shelters_of_reaches hclears (hsize hcontains)
  · have hsame : resized.sizing size container = container := if_neg hid
    rw [hsame]
    exact hshelters fun heq => hid (Option.some.inj heq).symm

/-- **Fitting a container mends what a change of its children has left
undone.** -/
theorem sheltered_fitEnclosing {d : Draft Rat} (h : d.graph.ShelteredBut exempt)
    (hids : (d.graph.nodes.map Node.id).Nodup)
    (hexempt : ∀ container ∈ d.graph.nodes, exempt = some container.id → container.Encloses) :
    (d.fitEnclosing exempt).graph.ShelteredBut none := by
  have hall (hfree : ∀ container ∈ d.graph.nodes, exempt ≠ some container.id) :
      d.graph.ShelteredBut none := fun container hcontainer hcontains =>
    ⟨(h container hcontainer hcontains).1, fun _ =>
      (h container hcontainer hcontains).2 (hfree container hcontainer)⟩
  have hsettings : (d.fitEnclosing exempt).graph.settings = d.graph.settings :=
    settings_of_untouched (d.untouched_fitEnclosing exempt)
  cases exempt with
  | none => exact hall fun _ _ => nofun
  | some id =>
      by_cases hfound : ∃ container ∈ d.graph.nodes, container.id = id
      · obtain ⟨fitted, hfitted, rfl⟩ := hfound
        have htop := (hexempt fitted hfitted rfl).top
        have hfit := shelteredBut_resize h hids hfitted (htop ▸ nofun)
          (fun _ => ⟨le_refl _, le_refl _⟩) hsettings (Draft.nodes_fitContainer hids hfitted)
        rwa [htop] at hfit
      · have hnone : d.graph.node? id = none := by
          rw [node?_eq_none_iff, List.mem_map]
          exact hfound
        have hsame : d.fitEnclosing (some id) = d := by
          show d.fitContainer id = d
          unfold Draft.fitContainer
          rw [hnone]
        rw [hsame]
        exact hall fun container hcontainer hid =>
          hfound ⟨container, hcontainer, (Option.some.inj hid).symm⟩

/-- A child lands inside its container. -/
theorem landing_of_child (hwell : g.WellFormed) {node container : Node Rat}
    (hcontainer : container ∈ g.nodes) (hcycle : node.cycle = some container.id)
    (candidate : Position Rat) :
    g.landing node candidate = g.settings.clamp candidate node.size container.rect := by
  unfold landing
  rw [(containerOf?_eq_some_iff hwell.nodup_ids).2 ⟨hcontainer, hcycle⟩]

/-! ## §3. Single changes. -/

/-- What a container encloses when a node was added. -/
theorem filter_children_append (nodes : List (Node Rat)) (node : Node Rat) (id : String) :
    ((nodes ++ [node]).filter fun node => node.cycle == some id)
      = (nodes.filter fun node => node.cycle == some id)
        ++ if node.cycle = some id then [node] else [] := by
  rw [List.filter_append, List.filter_singleton]
  by_cases hcycle : node.cycle = some id
  · rw [if_pos hcycle, hcycle, beq_self_eq_true, Bool.cond_true]
  · rw [if_neg hcycle, beq_eq_false_iff_ne.2 hcycle, Bool.cond_false]

/-- **A new node that is no container** leaves its container to be fitted. -/
theorem shelteredBut_addNode (h : g.ShelteredBut none) {node : Node Rat}
    (hsettings : g'.settings = g.settings) (hnodes : g'.nodes = g.nodes ++ [node])
    (hkind : ¬ node.kind.isContainer)
    (hclears : ∀ container ∈ g.nodes, node.cycle = some container.id →
      container.Clears g.settings node) : g'.ShelteredBut node.cycle := by
  have hchildren (id : String) :
      g'.children id = g.children id ++ if node.cycle = some id then [node] else [] := by
    unfold children
    rw [hnodes, filter_children_append]
  intro container hcontainer hcontains
  have hold : container ∈ g.nodes := by
    rw [hnodes, List.mem_append, List.mem_singleton] at hcontainer
    refine hcontainer.resolve_right ?_
    rintro rfl
    exact hkind hcontains
  obtain ⟨hbefore, hshelters⟩ := h container hold hcontains
  rw [hsettings, hchildren]
  constructor
  · intro child hchild
    rcases List.mem_append.1 hchild with hchild | hnew
    · exact hbefore child hchild
    · split at hnew
      · rename_i hcycle
        obtain rfl := List.mem_singleton.1 hnew
        exact hclears container hold hcycle
      · cases hnew
  · intro hexempt
    rw [if_neg hexempt, List.append_nil]
    exact hshelters nofun

/-- **A container that is opened** has its start in the corner of its
body. -/
theorem sheltered_open (h : g.ShelteredBut none) (hwell : g.WellFormed)
    {opened start : Node Rat} (hsettings : g'.settings = g.settings)
    (hnodes : g'.nodes = g.nodes ++ [opened] ++ [start])
    (hfresh : opened.id ∉ g.nodes.map Node.id) (htop : opened.cycle = none)
    (hsize : opened.size = g.settings.minContainerSize)
    (hkind : ¬ start.kind.isContainer) (hinside : start.cycle = some opened.id)
    (hstart : start.size = g.settings.defaultNodeSize)
    (hcorner : start.position = g.settings.bodyCorner opened.position) :
    g'.ShelteredBut none := by
  have hchildren (id : String) :
      g'.children id = g.children id ++ if opened.id = id then [start] else [] := by
    unfold children
    rw [hnodes, filter_children_append, filter_children_append, htop, hinside, if_neg nofun,
      List.append_nil]
    simp only [Option.some.injEq]
  -- No node was in the new container before it was there.
  have hempty : g.children opened.id = [] := by
    refine List.filter_eq_nil_iff.2 fun child hchild hcycle => hfresh ?_
    obtain ⟨container, hcontainer, hid, -⟩ :=
      hwell.cycles child hchild opened.id (beq_iff_eq.1 hcycle)
    exact hid ▸ List.mem_map_of_mem hcontainer
  intro container hcontainer hcontains
  rw [hsettings, hchildren]
  rw [hnodes, List.mem_append, List.mem_append, List.mem_singleton, List.mem_singleton]
    at hcontainer
  rcases hcontainer with (hold | rfl) | rfl
  · have hne : opened.id ≠ container.id := fun heq => hfresh (heq ▸ List.mem_map_of_mem hold)
    rw [if_neg hne, List.append_nil]
    exact h container hold hcontains
  · rw [if_pos rfl, hempty, List.nil_append]
    have hclears : ∀ child ∈ [start], container.Clears g.settings child := by
      intro child hchild
      obtain rfl := List.mem_singleton.1 hchild
      unfold Node.Clears
      rw [hcorner]
      exact ⟨le_refl _, le_refl _⟩
    refine ⟨hclears, fun _ => ?_⟩
    exact
      { least := hsize ▸ ⟨le_refl _, le_refl _⟩
        clears := hclears
        holds := .inr ⟨hsize, start, rfl, hstart, hcorner⟩ }
  · exact absurd hcontains hkind

/-- A child stays if its container does, unless it is the child that was
removed. -/
theorem not_mem_doomed_of_child (hwell : g.WellFormed) {removed container child : Node Rat}
    (hremoved : removed ∈ g.nodes) (hchild : child ∈ g.nodes)
    (hcycle : child.cycle = some container.id) (hstays : container.id ∉ g.doomed removed)
    (hother : removed.cycle ≠ some container.id) : child.id ∉ g.doomed removed := by
  intro hdoomed
  obtain ⟨other, hother', hid, hgoes⟩ := (mem_doomed hremoved).1 hdoomed
  obtain rfl := hwell.eq_of_id hother' hchild hid
  rcases hgoes with rfl | ⟨-, hinside⟩
  · exact hother hcycle
  · rw [hcycle] at hinside
    exact hstays ((mem_doomed hremoved).2
      ⟨removed, hremoved, (Option.some.inj hinside).symm, .inl rfl⟩)

/-- **A node goes**, and a container with all that it encloses. -/
theorem shelteredBut_remove (h : g.ShelteredBut none) (hwell : g.WellFormed)
    {removed : Node Rat} (hremoved : removed ∈ g.nodes) (hsettings : g'.settings = g.settings)
    (hnodes : g'.nodes = g.nodes.filter fun node => !(g.doomed removed).contains node.id) :
    g'.ShelteredBut removed.cycle := by
  have hkept {node : Node Rat} : node ∈ g'.nodes ↔ node ∈ g.nodes ∧ node.id ∉ g.doomed removed := by
    rw [hnodes, List.mem_filter, Bool.not_eq_true', ← Bool.not_eq_true, List.contains_iff_mem]
  intro container hcontainer hcontains
  obtain ⟨hold, hstays⟩ := hkept.1 hcontainer
  obtain ⟨hclears, hshelters⟩ := h container hold hcontains
  rw [hsettings]
  constructor
  · intro child hchild
    obtain ⟨hmem, hcycle⟩ := mem_children.1 hchild
    exact hclears child (mem_children.2 ⟨(hkept.1 hmem).1, hcycle⟩)
  · intro hexempt
    have hsame : g'.children container.id = g.children container.id := by
      unfold children
      rw [hnodes, List.filter_filter]
      refine List.filter_congr fun child hchild => ?_
      by_cases hcycle : child.cycle = some container.id
      · have hchildStays :=
          not_mem_doomed_of_child hwell hremoved hchild hcycle hstays hexempt
        simp [hcycle, hchildStays]
      · rw [beq_eq_false_iff_ne.2 hcycle, Bool.false_and]
    rw [hsame]
    exact hshelters nofun

/-- **A container has moved with its children**, which stand as they did. -/
theorem shelters_moved (hwell : g.WellFormed) {container : Node Rat} (hmem : container ∈ g.nodes)
    (h : container.Shelters g.settings (g.children container.id)) (landed : Position Rat) :
    (container.carried landed container).Shelters g.settings
      ((g.children container.id).map (container.carried landed)) := by
  have hchildren : ∀ child ∈ g.children container.id, container.carried landed child
      = child.shifted (landed.x - container.position.x) (landed.y - container.position.y) :=
    fun child hchild => carried_of_child hwell hmem hchild landed
  rw [container.carried_self_eq_shifted landed, List.map_congr_left hchildren]
  exact h.shifted _ _

/-- **A node has moved**: a container with its children, or a child inside
its container. -/
theorem shelteredBut_move (h : g.ShelteredBut none) (hwell : g.WellFormed)
    {moved : Node Rat} (hmoved : moved ∈ g.nodes) {position : Position Rat}
    (hsettings : g'.settings = g.settings)
    (hnodes : g'.nodes = g.nodes.map (moved.carried (g.landing moved position))) :
    g'.ShelteredBut moved.cycle := by
  refine shelteredBut_map hsettings hnodes (moved.alike_carried _) ?_
  intro container hcontainer hcontains
  obtain ⟨hclears, hshelters⟩ := h container hcontainer hcontains
  by_cases hid : container.id = moved.id
  · obtain rfl := hwell.eq_of_id hcontainer hmoved hid
    have hshelters := shelters_moved hwell hmoved (hshelters nofun) (g.landing container position)
    exact ⟨List.forall_mem_map.1 hshelters.clears, fun _ => hshelters⟩
  · -- The container has not moved; of its children at most the moved one has.
    have hsame := carried_of_top (hwell.containers container hcontainer hcontains) hid
      (g.landing moved position)
    have hothers : ∀ child ∈ g.children container.id, child.id ≠ moved.id →
        moved.carried (g.landing moved position) child = child := fun child hchild hne =>
      carried_of_sibling hchild hid hne _
    rw [hsame]
    refine ⟨fun child hchild => ?_, fun hexempt => ?_⟩
    · by_cases hne : child.id = moved.id
      · obtain ⟨hmem, hcycle⟩ := mem_children.1 hchild
        obtain rfl := hwell.eq_of_id hmem hmoved hne
        rw [child.carried_self]
        exact g.settings.clears_clamp position child.size
          (landing_of_child hwell hcontainer hcycle position)
      · rw [hothers child hchild hne]
        exact hclears child hchild
    · have hall : ∀ child ∈ g.children container.id,
          moved.carried (g.landing moved position) child = child := by
        intro child hchild
        refine hothers child hchild fun heq => hexempt ?_
        obtain ⟨hmem, hcycle⟩ := mem_children.1 hchild
        rwa [← hwell.eq_of_id hmem hmoved heq]
      rw [(List.map_congr_left hall).trans (List.map_id _)]
      exact hshelters nofun

/-! ## §4. Changes in turn. -/

/-- **A node is added**, and its container is fitted to it. -/
theorem sheltered_added (h : g.ShelteredBut none) (hwell : g.WellFormed) {kind : Kind}
    {position : Position Rat} {cycle : Option String} (hkind : ¬ kind.isContainer)
    (hcycle : cycle = (g.containerAt? position).map Node.id) :
    ((g.draft.spawn kind position cycle).1.fitEnclosing cycle).graph.ShelteredBut none := by
  let node := g.draft.spawned kind position cycle
  have hnodes := g.draft.spawn_nodes kind position cycle
  have hfresh : node.id ∉ g.nodes.map Node.id := g.freshNodeId_not_mem kind
  -- Where the node lands is clear of the near sides; the far ones are left to fitting.
  have hclears : ∀ container ∈ g.nodes, node.cycle = some container.id →
      container.Clears g.settings node := by
    intro container hcontainer hinside
    have hlanded : g.landing
        ((Template.of g.settings kind).instantiate (g.freshNodeId kind) position cycle) position
          = g.settings.clamp position node.size container.rect :=
      landing_of_child hwell hcontainer hinside position
    exact g.settings.clears_clamp position node.size hlanded
  have hsettings : (g.draft.spawn kind position cycle).1.graph.settings = g.settings := rfl
  have hbut := shelteredBut_addNode h hsettings hnodes hkind hclears
  refine sheltered_fitEnclosing hbut ?_ ?_
  · rw [hnodes, List.map_append]
    exact hwell.nodup_ids.append (List.nodup_singleton _) (by simpa using hfresh)
  · intro container hcontainer hinside
    have hinside : cycle = some container.id := hinside
    rw [hcycle] at hinside
    obtain ⟨found, hfound, hid⟩ := Option.map_eq_some_iff.1 hinside
    obtain ⟨hmem, hencloses⟩ := mem_of_containerAt? hfound
    rw [hnodes, List.mem_append, List.mem_singleton] at hcontainer
    rcases hcontainer with hold | rfl
    · rwa [← hwell.eq_of_id hmem hold hid]
    · exact absurd (hid ▸ List.mem_map_of_mem hmem) hfresh

/-- **A container is opened** with a start of its own. -/
theorem sheltered_opened (h : g.ShelteredBut none) (hwell : g.WellFormed) {kind : Kind}
    {position corner : Position Rat} (hkind : kind.isContainer)
    (hcorner : corner = g.settings.bodyCorner position) :
    ((g.draft.spawn kind position none).1.spawn .cycleStart corner
      (some (g.freshNodeId kind))).1.graph.ShelteredBut none := by
  let d := (g.draft.spawn kind position none).1
  let opened := g.draft.spawned kind position none
  let start := d.spawned .cycleStart corner (some opened.id)
  have hnodes : d.graph.nodes = g.nodes ++ [opened] := g.draft.spawn_nodes kind position none
  have hwell' : d.graph.WellFormed := Draft.wellFormed_spawn hwell position fun _ => nofun
  have hopened : opened ∈ d.graph.nodes := by
    rw [hnodes]
    exact List.mem_append_right _ (List.mem_singleton_self _)
  have hstart : start.position = g.settings.bodyCorner opened.position := by
    refine (landing_of_child hwell' hopened rfl corner).trans ?_
    rw [hcorner]
    exact g.settings.clamp_bodyCorner position _ _
  have hnodes' : (d.spawn .cycleStart corner (some opened.id)).1.graph.nodes
      = g.nodes ++ [opened] ++ [start] := by
    rw [← hnodes]
    exact d.spawn_nodes .cycleStart corner _
  exact sheltered_open h hwell rfl hnodes' (g.freshNodeId_not_mem kind) rfl (if_pos hkind)
    Bool.false_ne_true rfl rfl hstart

/-- **A change of a node is made good** by fitting the container that the
node is in. -/
theorem sheltered_of_fitted (hwell : g.WellFormed) {node : Node Rat} (hnode : node ∈ g.nodes)
    {d : Draft Rat} (h : d.graph.ShelteredBut node.cycle)
    (hids : (d.graph.nodes.map Node.id).Nodup)
    (halike : ∀ container ∈ d.graph.nodes, ∃ before ∈ g.nodes, container.Alike before) :
    (d.fitEnclosing node.cycle).graph.ShelteredBut none := by
  refine sheltered_fitEnclosing h hids fun container hcontainer hcycle => ?_
  obtain ⟨before, hbefore, hsame⟩ := halike container hcontainer
  obtain ⟨parent, hparent, hid, hencloses⟩ := hwell.cycles node hnode container.id hcycle
  obtain rfl := hwell.eq_of_id hparent hbefore (hid.trans hsame.id)
  exact hencloses.congr hsame.symm

/-- The same if nodes have only been placed. -/
theorem sheltered_of_placed (hwell : g.WellFormed) {node : Node Rat} (hnode : node ∈ g.nodes)
    {d : Draft Rat} (h : d.graph.ShelteredBut node.cycle)
    (hunplaced : d.graph.unplaced = g.unplaced) :
    (d.fitEnclosing node.cycle).graph.ShelteredBut none :=
  sheltered_of_fitted hwell hnode h (nodup_ids_of_unplaced hunplaced hwell.nodup_ids)
    fun _ => exists_alike (outline_eq_of_unplaced hunplaced)

/-- **One change.** -/
theorem Applied.sheltered {g : Graph Rat} {made : Kind → Prop} {d : Draft Rat}
    (h : g.Applied made d) (hsheltered : g.ShelteredBut none) (hwell : g.WellFormed) :
    d.graph.ShelteredBut none := by
  have hpreserved := h.untouched
  have hsettings := settings_of_untouched hpreserved
  -- Where a change breaks the bounds of one container, that is fitted at the end.
  have hfitted {d : Draft Rat} {cycle : Option String}
      (huntouched : (d.fitEnclosing cycle).graph.untouched = g.untouched) :
      d.graph.settings = g.settings :=
    settings_of_untouched ((d.untouched_fitEnclosing cycle).symm.trans huntouched)
  cases h with
  | added _ _ hkind hcycle => exact sheltered_added hsheltered hwell hkind hcycle
  | opened _ _ hkind _ hcorner => exact sheltered_opened hsheltered hwell hkind hcorner
  | @removed node hrequire hfree =>
      obtain ⟨hnode, -⟩ := mem_of_require hrequire
      have hnodes := g.without_nodes (g.doomed node)
      refine sheltered_of_fitted hwell hnode (shelteredBut_remove hsheltered hwell hnode
        (hfitted hpreserved) hnodes) ?_ ?_
      · rw [hnodes]
        exact hwell.nodup_ids.sublist (List.filter_sublist.map Node.id)
      · intro container hcontainer
        rw [hnodes] at hcontainer
        exact ⟨container, (List.mem_filter.1 hcontainer).1, .refl container⟩
  | @moved node position landed followers hrequire hlanded hfollowers =>
      obtain ⟨hnode, -⟩ := mem_of_require hrequire
      subst hlanded
      have hmoved := shelteredBut_move hsheltered hwell hnode
        (hfitted hpreserved)
        (nodes_moved hwell hnode _ hfollowers)
      refine sheltered_of_placed hwell hnode hmoved ?_
      rw [Draft.unplaced_foldl fun d child => d.unplaced_place _ _, Draft.unplaced_place]
      rfl
  | @resized node wanted size hrequire hsize =>
      obtain ⟨hnode, -⟩ := mem_of_require hrequire
      have hreaches (hkind : node.kind.isContainer) : size.Reaches (g.sizeToFit node) := by
        rw [hsize, if_pos hkind]
        exact (wanted.reaches_cover (g.sizeToFit node)).2
      have hresized := shelteredBut_resize (hsheltered.exempting _) hwell.nodup_ids hnode
        (hwell.cycle_ne_id hnode) hreaches (hfitted hpreserved) rfl
      exact sheltered_of_placed hwell hnode hresized
        (g.draft.unplaced_reviseNode node.id fun _ => rfl)
  | connected | cut | redeclared => exact hsheltered.congr rfl rfl
  | renamed | filled =>
      exact hsheltered.congr rfl (g.draft.map_reviseNode _ fun _ => rfl)
  | resynced =>
      refine hsheltered.congr hsettings ((Draft.map_resyncPorts _ _ fun _ _ => rfl).trans ?_)
      exact g.draft.map_reviseNode _ fun _ => rfl
  | branched | pruned =>
      refine hsheltered.congr hsettings ((Draft.map_refreshPorts _ _ _ fun _ _ => rfl).trans ?_)
      exact g.draft.map_reviseNode _ fun _ => rfl

/-- **Changes in turn**, refused ones among them. -/
theorem ShelteredBut.run (h : g.ShelteredBut none) (hwell : g.WellFormed)
    (changes : List (Edit Rat)) : (g.run changes).ShelteredBut none := by
  unfold Graph.run
  induction changes generalizing g with
  | nil => exact h
  | cons change changes ih =>
      refine ih ?_ (hwell.after change)
      unfold Graph.after
      split
      · rename_i d hok
        exact (applied_edit hok).sheltered h hwell
      · exact h

/-! ## §5. Containers enclose their children. -/

/-- **Containers enclose their children, with the padding on every side**,
whatever the settings and the changes are: a container is of the least size or
larger, its children stand clear of its near sides, and it reaches beyond all
of them, unless it is as it was opened and the least size has no room for its
start. -/
theorem children_enclosed (settings : Settings Rat) (changes : List (Edit Rat))
    {container : Node Rat} (hcontainer : container ∈ ((empty settings).run changes).nodes)
    (hcontains : container.kind.isContainer) :
    let children := ((empty settings).run changes).children container.id
    let pad := settings.containerPadding
    settings.minContainerSize.width ≤ container.size.width
      ∧ settings.minContainerSize.height ≤ container.size.height
      ∧ (∀ child ∈ children, container.position.x + pad ≤ child.position.x
        ∧ container.position.y + settings.containerHeader + pad ≤ child.position.y)
      ∧ ((∀ child ∈ children, child.rect.right + pad ≤ container.rect.right
          ∧ child.rect.bottom + pad ≤ container.rect.bottom)
        ↔ (container.JustOpened settings children → settings.HasRoom)) := by
  intro children pad
  have hsettings : ((empty settings).run changes).settings = settings :=
    settings_of_untouched ((empty settings).untouched_run changes)
  have hempty : (empty settings).ShelteredBut none := fun _ hmem => nomatch hmem
  obtain ⟨hclears, hshelters⟩ :=
    hempty.run (wellFormed_of_nil rfl rfl) changes container hcontainer hcontains
  have hshelters := hshelters nofun
  rw [hsettings] at hclears hshelters
  obtain ⟨hwidth, hheight⟩ := hshelters.least
  refine ⟨hwidth, hheight, hclears, ?_⟩
  have hfar : (∀ child ∈ children, child.rect.right + pad ≤ container.rect.right
      ∧ child.rect.bottom + pad ≤ container.rect.bottom)
        ↔ ∀ child ∈ children, container.Holds settings child :=
    forall₂_congr fun child _ => Node.holds_iff.symm
  rw [hfar]
  constructor
  · exact fun hholds hopened => hopened.holds_iff_hasRoom.1 hholds
  · exact fun hroom => hshelters.holds.elim id fun hopened =>
      hopened.holds_iff_hasRoom.2 (hroom hopened)

/-- Settings whose least size has no room for a start, and a container that
was opened with them, and then got a second node: it has grown for both. -/
theorem children_enclosed_grown :
    let settings : Settings Rat := { Settings.standard with defaultNodeSize := ⟨800, 80⟩ }
    let g := (empty settings).run [.addNode .loop ⟨0, 0⟩, .addNode .llm ⟨300, 100⟩]
    ∃ container ∈ g.nodes, container.kind.isContainer
      ∧ container.rect = ⟨0, 0, 848, 300⟩
      ∧ (g.children container.id).map Node.rect = [⟨24, 72, 800, 80⟩, ⟨24, 100, 800, 80⟩]
      ∧ ∀ child ∈ g.children container.id, child.rect.right + 24 ≤ container.rect.right
        ∧ child.rect.bottom + 24 ≤ container.rect.bottom := by
  intro settings g
  obtain ⟨container, hcontainer, hcontains, hrect, hrects⟩ :
      ∃ container ∈ g.nodes, container.kind.isContainer ∧ container.rect = ⟨0, 0, 848, 300⟩
        ∧ (g.children container.id).map Node.rect
          = [⟨24, 72, 800, 80⟩, ⟨24, 100, 800, 80⟩] := by
    decide +kernel
  have henclosed := (children_enclosed settings _ hcontainer hcontains).2.2.2
  refine ⟨container, hcontainer, hcontains, hrect, hrects, henclosed.2 fun hopened => ?_⟩
  -- There are two children, but one that was just opened has only its start.
  obtain ⟨start, hstart, -⟩ := hopened.start
  have hlength : 2 = 1 :=
    congrArg List.length (hrects.symm.trans (congrArg (List.map Node.rect) hstart))
  exact absurd hlength (by decide)

/-- **A new container that is too small for its start** stays so. -/
theorem not_enclosed_opened :
    let settings : Settings Rat := { Settings.standard with defaultNodeSize := ⟨800, 80⟩ }
    let g := (empty settings).run [.addNode .loop ⟨0, 0⟩]
    ∃ container ∈ g.nodes, container.kind.isContainer
      ∧ ∃ start ∈ g.children container.id,
        ¬ start.rect.right + settings.containerPadding ≤ container.rect.right := by
  decide +kernel

end Graph

end WorkflowEditor
