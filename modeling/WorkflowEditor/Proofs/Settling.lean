/-
  WorkflowEditor.Proofs.Settling
  ──────────────────────────────
  **WHERE LOADING PUTS THE NODES.**

  A container is fitted before its children are moved inside.  So there is
  room for each of them on the far sides, and it is moved away from the near
  sides only, over exact coordinates:

    • `Settings.isGreatest_fit` — a fitted container is as large as it has
      to be,
    • `Graph.landing_of_holds` — so a child is moved to the right and down
      at most,
    • `Draft.unsized_settleContainer` — what settling one container does,
    • `Draft.unsized_foldl_settleContainer` — and all of them in turn: each
      node is moved in its own container,
    • `Graph.toGraph_settled` — what is loaded of a document,
    • `Graph.settled_eq_self` — settling it again moves nothing.
-/
import WorkflowEditor.Proofs.Loading
import Mathlib.Algebra.Order.Ring.Rat
import Mathlib.Order.Bounds.Basic
import Mathlib.Tactic.Linarith

namespace WorkflowEditor

/-! ## §1. Exact coordinates. -/

/-- Over exact coordinates the larger one is the maximum. -/
theorem larger_eq_max (x y : Rat) : Coordinate.larger x y = max x y := by
  show (if x < y then y else x) = max x y
  rcases lt_or_ge x y with h | h
  · rw [if_pos h, max_eq_right h.le]
  · rw [if_neg (not_lt.2 h), max_eq_left h]

theorem smaller_eq_min (x y : Rat) : Coordinate.smaller x y = min x y := by
  show (if y < x then y else x) = min x y
  rcases lt_or_ge y x with h | h
  · rw [if_pos h, min_eq_right h.le]
  · rw [if_neg (not_lt.2 h), min_eq_left h]

namespace Size

theorem same_iff {a b : Size Rat} : a.same b ↔ a = b := by
  show (decide (a.width = b.width) && decide (a.height = b.height)) = true ↔ a = b
  rw [Bool.and_eq_true, decide_eq_true_eq, decide_eq_true_eq, Size.mk.injEq]

/-- Exact sizes that are told apart are different, and no others. -/
theorem fitted_eq (size needed : Size Rat) : size.fitted needed = needed := by
  unfold fitted
  split
  · rename_i hsame
    exact same_iff.1 hsame
  · rfl

/-- A size is as large as another one in each direction. -/
def Reaches (size other : Size Rat) : Prop :=
  other.width ≤ size.width ∧ other.height ≤ size.height

theorem Reaches.trans {a b c : Size Rat} (h : a.Reaches b) (h' : b.Reaches c) : a.Reaches c :=
  ⟨le_trans h'.1 h.1, le_trans h'.2 h.2⟩

theorem width_cover (a b : Size Rat) : (a.cover b).width = max a.width b.width :=
  larger_eq_max a.width b.width

theorem height_cover (a b : Size Rat) : (a.cover b).height = max a.height b.height :=
  larger_eq_max a.height b.height

/-- A size that covers two others reaches as far as each. -/
theorem reaches_cover (a b : Size Rat) : (a.cover b).Reaches a ∧ (a.cover b).Reaches b := by
  unfold Reaches
  rw [width_cover, height_cover]
  exact ⟨⟨le_max_left _ _, le_max_left _ _⟩, le_max_right _ _, le_max_right _ _⟩

/-- **Sizes that are covered in turn**, told along one side. -/
theorem isGreatest_foldl_cover {β : Type} {side : Size Rat → Rat}
    (hside : ∀ a b, side (a.cover b) = max (side a) (side b)) (extent : β → Size Rat)
    (children : List β) (start : Size Rat) :
    IsGreatest {length | length = side start ∨ ∃ child ∈ children, length = side (extent child)}
      (side (children.foldl (fun size child => size.cover (extent child)) start)) := by
  induction children generalizing start with
  | nil =>
      refine ⟨.inl rfl, ?_⟩
      rintro length (rfl | ⟨child, hchild, -⟩)
      · exact le_refl _
      · cases hchild
  | cons child children ih =>
      obtain ⟨hmem, hbound⟩ := ih (start.cover (extent child))
      -- The first child and the start have become one size, the larger of the two.
      have hfirst := hbound (.inl rfl)
      rw [hside, max_le_iff] at hfirst
      rw [List.foldl_cons]
      constructor
      · rcases hmem with hstart | ⟨other, hother, hlength⟩
        · rw [hside] at hstart
          rcases max_choice (side start) (side (extent child)) with hmax | hmax
          · exact .inl (hstart.trans hmax)
          · exact .inr ⟨child, List.mem_cons_self, hstart.trans hmax⟩
        · exact .inr ⟨other, List.mem_cons_of_mem _ hother, hlength⟩
      · rintro length (rfl | ⟨other, hother, rfl⟩)
        · exact hfirst.1
        · rcases List.mem_cons.1 hother with rfl | hother
          · exact hfirst.2
          · exact hbound (.inr ⟨other, hother, rfl⟩)

end Size

/-! ## §2. Room for a child. -/

namespace Settings

/-- What a child needs of its container, measured from the corner of that. -/
def extent (settings : Settings Rat) (corner : Position Rat) (child : Rect Rat) : Size Rat :=
  ⟨child.right - corner.x + settings.containerPadding,
    child.bottom - corner.y + settings.containerPadding⟩

variable {settings : Settings Rat}

/-- **A fitted container is exactly as large as it has to be**, along either
side: the least size or what a child needs, whichever is the largest. -/
theorem isGreatest_fit (settings : Settings Rat) (corner : Position Rat)
    (children : List (Rect Rat)) {side : Size Rat → Rat}
    (hside : ∀ a b, side (a.cover b) = max (side a) (side b)) :
    IsGreatest {length | length = side settings.minContainerSize
        ∨ ∃ child ∈ children, length = side (settings.extent corner child)}
      (side (settings.fit corner children)) :=
  Size.isGreatest_foldl_cover hside (settings.extent corner) children settings.minContainerSize

/-- **A fitted container reaches beyond its children**, and is no smaller
than the least size. -/
theorem reaches_fit (settings : Settings Rat) (corner : Position Rat)
    (children : List (Rect Rat)) :
    (settings.fit corner children).Reaches settings.minContainerSize
      ∧ ∀ child ∈ children,
        (settings.fit corner children).Reaches (settings.extent corner child) := by
  obtain ⟨-, hwidth⟩ := isGreatest_fit settings corner children Size.width_cover
  obtain ⟨-, hheight⟩ := isGreatest_fit settings corner children Size.height_cover
  refine ⟨⟨hwidth (.inl rfl), hheight (.inl rfl)⟩, fun child hchild => ?_⟩
  exact ⟨hwidth (.inr ⟨child, hchild, rfl⟩), hheight (.inr ⟨child, hchild, rfl⟩)⟩

/-- Where a child goes that is moved away from the near sides of a container
at a corner. -/
def pushed (settings : Settings Rat) (corner p : Position Rat) : Position Rat :=
  ⟨max p.x (corner.x + settings.containerPadding),
    max p.y (corner.y + settings.containerHeader + settings.containerPadding)⟩

/-- Within its upper bound a value is only pushed up. -/
theorem clampAxis_of_le {value low high : Rat} (h : value ≤ high) :
    clampAxis value low high = max value low := by
  unfold clampAxis
  rw [larger_eq_max, smaller_eq_min, min_eq_left h]

/-- A child that a container reaches beyond is moved away from the near
sides at most. -/
theorem clamp_of_reaches {corner p : Position Rat} {size child : Size Rat}
    (h : size.Reaches (settings.extent corner (.ofCorner p child))) :
    settings.clamp p child (.ofCorner corner size) = settings.pushed corner p := by
  obtain ⟨hwidth, hheight⟩ := h
  -- What the child needs is there, so the far sides do not move it.
  have hx : p.x ≤ corner.x + size.width - settings.containerPadding - child.width := by
    have : p.x + child.width - corner.x + settings.containerPadding ≤ size.width := hwidth
    linarith
  have hy : p.y ≤ corner.y + size.height - settings.containerPadding - child.height := by
    have : p.y + child.height - corner.y + settings.containerPadding ≤ size.height := hheight
    linarith
  exact congrArg₂ Position.mk (clampAxis_of_le hx) (clampAxis_of_le hy)

/-- A child that was moved away from the near sides stays where it is. -/
theorem pushed_pushed (settings : Settings Rat) (corner p : Position Rat) :
    settings.pushed corner (settings.pushed corner p) = settings.pushed corner p :=
  congrArg₂ Position.mk (max_eq_left (le_max_right _ _)) (max_eq_left (le_max_right _ _))

end Settings

/-! ## §3. One child. -/

namespace Node

/-- A node without its size. -/
def unsized (node : Node Rat) : Node Rat := { node with size := ⟨0, 0⟩ }

/-- A container has room for a child where that stands. -/
def Holds (settings : Settings Rat) (container child : Node Rat) : Prop :=
  container.size.Reaches (settings.extent container.position child.rect)

/-- A node as it is when a container has been settled. -/
def settledIn (settings : Settings Rat) (node container : Node Rat) : Node Rat :=
  if node.cycle = some container.id then
    { node with position := settings.pushed container.position node.position }
  else node

variable {settings : Settings Rat} {container node : Node Rat}

theorem settledIn_of_child (h : node.cycle = some container.id) :
    node.settledIn settings container
      = { node with position := settings.pushed container.position node.position } :=
  if_pos h

/-- A container moves its own children only. -/
theorem settledIn_of_other (h : node.cycle ≠ some container.id) :
    node.settledIn settings container = node :=
  if_neg h

/-- The size of a container does not matter. -/
theorem settledIn_congr {container' : Node Rat} (h : container.unsized = container'.unsized) :
    node.settledIn settings container = node.settledIn settings container' := by
  have hid : container.id = container'.id := (Node.mk.inj h).1
  have hposition : container.position = container'.position := (Node.mk.inj h).2.2.2.1
  unfold settledIn
  rw [hid, hposition]

theorem unsized_settledIn (settings : Settings Rat) (container node : Node Rat) :
    (node.settledIn settings container).unsized = node.unsized.settledIn settings container := by
  have hcycle : node.unsized.cycle = node.cycle := rfl
  unfold settledIn
  rw [hcycle]
  split <;> rfl

/-- Where children go does not depend on how large they are. -/
theorem unsized_foldl_settledIn (settings : Settings Rat) (containers : List (Node Rat))
    (node : Node Rat) :
    (containers.foldl (settledIn settings) node).unsized
      = containers.foldl (settledIn settings) node.unsized := by
  induction containers generalizing node with
  | nil => rfl
  | cons container containers ih =>
      rw [List.foldl_cons, List.foldl_cons, ih, unsized_settledIn]

theorem map_unsized_foldl_settledIn (settings : Settings Rat) (containers nodes : List (Node Rat)) :
    (nodes.map fun node => (containers.foldl (settledIn settings) node).unsized)
      = (nodes.map unsized).map (containers.foldl (settledIn settings)) := by
  rw [List.map_map]
  exact List.map_congr_left fun node _ => unsized_foldl_settledIn settings containers node

theorem map_unsized_settledIn (settings : Settings Rat) (container : Node Rat)
    (nodes : List (Node Rat)) :
    (nodes.map fun node => (node.settledIn settings container).unsized)
      = (nodes.map unsized).map fun node => node.settledIn settings container :=
  map_unsized_foldl_settledIn settings [container] nodes

theorem settledIn_cycle (settings : Settings Rat) (container node : Node Rat) :
    (node.settledIn settings container).cycle = node.cycle := by
  unfold settledIn
  split <;> rfl

theorem foldl_settledIn_of_others {containers : List (Node Rat)}
    (h : ∀ container ∈ containers, node.cycle ≠ some container.id) :
    containers.foldl (settledIn settings) node = node := by
  induction containers with
  | nil => rfl
  | cons container containers ih =>
      rw [List.foldl_cons, settledIn_of_other (h container List.mem_cons_self)]
      exact ih fun other hother => h other (List.mem_cons_of_mem _ hother)

/-- Of containers with distinct ids only that of a node moves it. -/
theorem foldl_settledIn_of_mem {containers : List (Node Rat)}
    (hnodup : (containers.map Node.id).Nodup) (hcontainer : container ∈ containers)
    (hcycle : node.cycle = some container.id) :
    containers.foldl (settledIn settings) node = node.settledIn settings container := by
  induction containers with
  | nil => cases hcontainer
  | cons first containers ih =>
      obtain ⟨hfirst, hrest⟩ := List.nodup_cons.1 hnodup
      rw [List.foldl_cons]
      rcases List.mem_cons.1 hcontainer with rfl | hcontainer
      · refine foldl_settledIn_of_others fun other hother hsame => hfirst ?_
        rw [settledIn_cycle, hcycle] at hsame
        exact Option.some.inj hsame ▸ List.mem_map_of_mem hother
      · rw [settledIn_of_other]
        · exact ih hrest hcontainer
        · intro hsame
          rw [hcycle] at hsame
          exact hfirst (Option.some.inj hsame ▸ List.mem_map_of_mem hcontainer)

theorem settledIn_id (settings : Settings Rat) (container node : Node Rat) :
    (node.settledIn settings container).id = node.id := by
  unfold settledIn
  split <;> rfl

end Node

namespace Graph

/-- A child lands where it stands, or at a near side of its container. -/
theorem landing_of_holds {g : Graph Rat} (hids : (g.nodes.map Node.id).Nodup)
    {container child : Node Rat} (hcontainer : container ∈ g.nodes)
    (hcycle : child.cycle = some container.id) (hholds : container.Holds g.settings child) :
    g.landing child child.position = g.settings.pushed container.position child.position := by
  unfold landing
  rw [(containerOf?_eq_some_iff hids).2 ⟨hcontainer, hcycle⟩]
  exact Settings.clamp_of_reaches hholds

/-- What a graph holds besides its nodes and edges. -/
def aside (g : Graph Rat) : Settings Rat × DocumentInfo × List ConversationVariable :=
  (g.settings, g.info, g.vars)

end Graph

namespace Draft

theorem aside_fitContainer (d : Draft Rat) (id : String) :
    (d.fitContainer id).graph.aside = d.graph.aside := by
  unfold fitContainer
  split
  · rfl
  · dsimp only
    split <;> rfl

theorem aside_settleChild (d : Draft Rat) (id : String) :
    (d.settleChild id).graph.aside = d.graph.aside := by
  unfold settleChild
  split <;> rfl

/-- Steps that keep what is aside keep it one after the other. -/
theorem aside_foldl {step : Draft Rat → String → Draft Rat}
    (hstep : ∀ d id, (step d id).graph.aside = d.graph.aside) (d : Draft Rat)
    (ids : List String) : (ids.foldl step d).graph.aside = d.graph.aside :=
  view_foldl (fun d => d.graph.aside) hstep d ids

/-- Settling a container writes positions and sizes only. -/
theorem aside_settleContainer (d : Draft Rat) (id : String) :
    (d.settleContainer id).graph.aside = d.graph.aside := by
  unfold settleContainer
  rw [aside_fitContainer, aside_foldl aside_settleChild, aside_fitContainer]

variable {d : Draft Rat} {container : Node Rat}

/-- A child that is settled is pushed inside, and all other nodes stay. -/
theorem nodes_settleChild (hids : (d.graph.nodes.map Node.id).Nodup) {child : Node Rat}
    (hcontainer : container ∈ d.graph.nodes) (hchild : child ∈ d.graph.nodes)
    (hcycle : child.cycle = some container.id) (hholds : container.Holds d.graph.settings child) :
    (d.settleChild child.id).graph.nodes
      = d.graph.nodes.map fun node =>
          if node.id = child.id then node.settledIn d.graph.settings container else node := by
  unfold settleChild
  rw [(Graph.node?_eq_some_iff hids).2 ⟨hchild, rfl⟩]
  dsimp only
  rw [Graph.landing_of_holds hids hcontainer hcycle hholds]
  refine List.map_congr_left fun node hnode => ?_
  split
  · rename_i hid
    obtain rfl := Graph.eq_of_id_eq hids hnode hchild hid
    rw [Node.settledIn_of_child hcycle]
  · rfl

/-- **Children are moved one after the other**, each where it stood. -/
theorem nodes_foldl_settleChild (hids : (d.graph.nodes.map Node.id).Nodup)
    (hcontainer : container ∈ d.graph.nodes) (htop : container.cycle = none) {ids : List String}
    (hnodup : ids.Nodup)
    (hchildren : ∀ id ∈ ids, ∃ child ∈ d.graph.nodes, child.id = id
      ∧ child.cycle = some container.id ∧ container.Holds d.graph.settings child) :
    (ids.foldl settleChild d).graph.nodes
      = d.graph.nodes.map fun node =>
          if node.id ∈ ids then node.settledIn d.graph.settings container else node := by
  induction ids generalizing d with
  | nil => simp
  | cons id ids ih =>
      obtain ⟨hfirst, hrest⟩ := List.nodup_cons.1 hnodup
      obtain ⟨child, hchild, rfl, hcycle, hholds⟩ := hchildren id List.mem_cons_self
      have hnodes := nodes_settleChild hids hcontainer hchild hcycle hholds
      have hsettings : (d.settleChild child.id).graph.settings = d.graph.settings :=
        congrArg Prod.fst (d.aside_settleChild child.id)
      have hids' := Graph.nodup_ids_of_unplaced (d.unplaced_settleChild child.id) hids
      -- The other nodes are as they were, the container among them.
      have hkept {node : Node Rat} (hnode : node ∈ d.graph.nodes) (hother : node.id ≠ child.id) :
          node ∈ (d.settleChild child.id).graph.nodes := by
        rw [hnodes]
        exact List.mem_map.2 ⟨node, hnode, if_neg hother⟩
      have hcontainer' : container.id ≠ child.id :=
        (Graph.id_ne_of_child hids hcontainer htop hchild hcycle).symm
      rw [List.foldl_cons, ih hids' (hkept hcontainer hcontainer') hrest ?_, hnodes, List.map_map,
        hsettings]
      · refine List.map_congr_left fun node _ => ?_
        dsimp only [Function.comp_apply]
        by_cases hid : node.id = child.id
        · have hnone : (node.settledIn d.graph.settings container).id ∉ ids := by
            rw [Node.settledIn_id, hid]
            exact hfirst
          rw [if_pos hid, if_neg hnone, if_pos (hid ▸ List.mem_cons_self)]
        · rw [if_neg hid]
          simp only [List.mem_cons, hid, false_or]
      · intro id hid
        obtain ⟨other, hother, rfl, hcycle', hholds'⟩ := hchildren id (List.mem_cons_of_mem _ hid)
        have hne : other.id ≠ child.id := fun heq => hfirst (heq ▸ hid)
        exact ⟨other, hkept hother hne, rfl, hcycle', hsettings ▸ hholds'⟩

/-! ## §4. One container. -/

theorem unsized_fitContainer (d : Draft Rat) (id : String) :
    (d.fitContainer id).graph.nodes.map Node.unsized = d.graph.nodes.map Node.unsized := by
  unfold fitContainer
  split
  · rfl
  · dsimp only
    split
    · rfl
    · exact d.map_reviseNode id fun _ => rfl

/-- A container that is fitted has the size that it needs, whether that is a
change or not. -/
theorem nodes_fitContainer (hids : (d.graph.nodes.map Node.id).Nodup)
    (hcontainer : container ∈ d.graph.nodes) :
    (d.fitContainer container.id).graph.nodes
      = d.graph.nodes.map fun node =>
          if node.id = container.id then { node with size := d.graph.sizeToFit container }
          else node := by
  rw [fitContainer_nodes hids hcontainer, Size.fitted_eq]

/-- **A container that was fitted has room for its children**, which stand
where they stood. -/
theorem holds_fitContainer (hids : (d.graph.nodes.map Node.id).Nodup)
    (hcontainer : container ∈ d.graph.nodes) (htop : container.cycle = none) {child : Node Rat}
    (hchild : child ∈ d.graph.children container.id) :
    child ∈ (d.fitContainer container.id).graph.nodes
      ∧ Node.Holds d.graph.settings { container with size := d.graph.sizeToFit container }
        child := by
  obtain ⟨hmem, hcycle⟩ := Graph.mem_children.1 hchild
  have hother := Graph.id_ne_of_child hids hcontainer htop hmem hcycle
  constructor
  · rw [nodes_fitContainer hids hcontainer]
    exact List.mem_map.2 ⟨child, hmem, if_neg hother⟩
  · exact (d.graph.settings.reaches_fit _ _).2 _ (List.mem_map_of_mem hchild)

/-- Fitting a container keeps what it holds. -/
theorem id_mem_children_fitContainer (hids : (d.graph.nodes.map Node.id).Nodup)
    (hcontainer : container ∈ d.graph.nodes) {node : Node Rat}
    (hnode : node ∈ (d.fitContainer container.id).graph.nodes) :
    node.id ∈ (d.graph.children container.id).map Node.id
      ↔ node.cycle = some container.id := by
  rw [nodes_fitContainer hids hcontainer] at hnode
  obtain ⟨before, hbefore, rfl⟩ := List.mem_map.1 hnode
  have hsame : before.id ∈ (d.graph.children container.id).map Node.id
      ↔ before.cycle = some container.id := Graph.id_mem_children hids hbefore
  split <;> exact hsame

/-- **A container that was fitted has its children moved away from the near
sides**, one after the other. -/
theorem nodes_settleChildren (hids : (d.graph.nodes.map Node.id).Nodup)
    (hcontainer : container ∈ d.graph.nodes) (htop : container.cycle = none) :
    (((d.graph.children container.id).map Node.id).foldl settleChild
        (d.fitContainer container.id)).graph.nodes
      = (d.fitContainer container.id).graph.nodes.map fun node =>
          node.settledIn d.graph.settings container := by
  let fitted := d.fitContainer container.id
  let sized : Node Rat := { container with size := d.graph.sizeToFit container }
  let ids := (d.graph.children container.id).map Node.id
  have hsettings : fitted.graph.settings = d.graph.settings :=
    congrArg Prod.fst (d.aside_fitContainer container.id)
  have hids' : (fitted.graph.nodes.map Node.id).Nodup :=
    Graph.nodup_ids_of_unplaced (d.unplaced_fitContainer container.id) hids
  have hsized : sized ∈ fitted.graph.nodes := by
    show sized ∈ (d.fitContainer container.id).graph.nodes
    rw [nodes_fitContainer hids hcontainer]
    exact List.mem_map.2 ⟨container, hcontainer, if_pos rfl⟩
  have hnodup : ids.Nodup := hids.sublist (List.filter_sublist.map Node.id)
  have hchildren : ∀ id ∈ ids, ∃ child ∈ fitted.graph.nodes, child.id = id
      ∧ child.cycle = some sized.id ∧ sized.Holds fitted.graph.settings child := by
    intro id hid
    obtain ⟨child, hchild, rfl⟩ := List.mem_map.1 hid
    obtain ⟨hmem, hholds⟩ := holds_fitContainer hids hcontainer htop hchild
    exact ⟨child, hmem, rfl, (Graph.mem_children.1 hchild).2, hsettings ▸ hholds⟩
  refine (nodes_foldl_settleChild hids' hsized htop hnodup hchildren).trans ?_
  refine List.map_congr_left fun node hnode => ?_
  rw [hsettings]
  -- What has not been moved is no child, so it would not be moved anyway.
  split
  · rfl
  · rename_i hid
    have hother := (id_mem_children_fitContainer hids hcontainer hnode).not.1 hid
    exact (Node.settledIn_of_other hother).symm

/-- **Settling a container moves its children away from the near sides**, and
no other node. -/
theorem unsized_settleContainer (hids : (d.graph.nodes.map Node.id).Nodup)
    (hcontainer : container ∈ d.graph.nodes) (htop : container.cycle = none) :
    (d.settleContainer container.id).graph.nodes.map Node.unsized
      = d.graph.nodes.map fun node =>
          (node.settledIn d.graph.settings container).unsized := by
  calc (d.settleContainer container.id).graph.nodes.map Node.unsized
      = (((d.graph.children container.id).map Node.id).foldl settleChild
          (d.fitContainer container.id)).graph.nodes.map Node.unsized :=
        unsized_fitContainer _ _
    _ = (d.fitContainer container.id).graph.nodes.map fun node =>
          (node.settledIn d.graph.settings container).unsized := by
        rw [nodes_settleChildren hids hcontainer htop, List.map_map]
        rfl
    _ = d.graph.nodes.map fun node => (node.settledIn d.graph.settings container).unsized := by
        rw [Node.map_unsized_settledIn, Node.map_unsized_settledIn, unsized_fitContainer]

/-! ## §5. All containers. -/

/-- **Settling containers in turn moves each node in those that it is in.** -/
theorem unsized_foldl_settleContainer {containers : List (Node Rat)}
    (hids : (d.graph.nodes.map Node.id).Nodup)
    (hcontainers : ∀ container ∈ containers,
      container.unsized ∈ d.graph.nodes.map Node.unsized ∧ container.cycle = none) :
    ((containers.map Node.id).foldl settleContainer d).graph.nodes.map Node.unsized
      = d.graph.nodes.map fun node =>
          (containers.foldl (Node.settledIn d.graph.settings) node).unsized := by
  induction containers generalizing d with
  | nil => rfl
  | cons container containers ih =>
      obtain ⟨hmem, htop⟩ := hcontainers container List.mem_cons_self
      obtain ⟨found, hfound, heq⟩ := List.mem_map.1 hmem
      have hid : found.id = container.id := (Node.mk.inj heq).1
      have hcycle : found.cycle = none := (congrArg Node.cycle heq).trans htop
      let next := d.settleContainer container.id
      have hsettings : next.graph.settings = d.graph.settings :=
        congrArg Prod.fst (d.aside_settleContainer container.id)
      have hnext : next.graph.nodes.map Node.unsized
          = (d.graph.nodes.map Node.unsized).map fun node =>
              node.settledIn d.graph.settings container := by
        have hstep := unsized_settleContainer hids hfound hcycle
        rw [hid, Node.map_unsized_settledIn] at hstep
        exact hstep.trans (List.map_congr_left fun node _ => Node.settledIn_congr heq)
      have hids' : (next.graph.nodes.map Node.id).Nodup :=
        Graph.nodup_ids_of_unplaced (d.unplaced_settleContainer container.id) hids
      -- The other containers are in none, so this one has not moved them.
      have hcontainers' : ∀ other ∈ containers,
          other.unsized ∈ next.graph.nodes.map Node.unsized ∧ other.cycle = none := by
        intro other hother
        obtain ⟨hmem, htop⟩ := hcontainers other (List.mem_cons_of_mem _ hother)
        refine ⟨?_, htop⟩
        rw [hnext]
        refine List.mem_map.2 ⟨_, hmem, Node.settledIn_of_other ?_⟩
        show other.cycle ≠ _
        rw [htop]
        exact nofun
      rw [List.map_cons, List.foldl_cons, ih hids' hcontainers']
      show (next.graph.nodes.map fun node => _) = _
      rw [hsettings, Node.map_unsized_foldl_settledIn, Node.map_unsized_foldl_settledIn, hnext,
        List.map_map]
      rfl

end Draft

/-! ## §6. Loading. -/

namespace Graph

/-- A node as it is when all containers have been settled. -/
def settled (g : Graph Rat) (node : Node Rat) : Node Rat :=
  match g.containerOf? node with
  | some container => node.settledIn g.settings container
  | none => node

/-- Of the containers that are settled only that of a node moves it. -/
theorem foldl_settledIn {g : Graph Rat} (h : g.WellFormed) {node : Node Rat}
    (hnode : node ∈ g.nodes) :
    (g.nodes.filter fun node => node.kind.isContainer).foldl (Node.settledIn g.settings) node
      = g.settled node := by
  unfold settled containerOf?
  cases hcycle : node.cycle with
  | none =>
      refine Node.foldl_settledIn_of_others fun container _ hsame => ?_
      rw [hcycle] at hsame
      cases hsame
  | some parent =>
      obtain ⟨container, hmem, rfl, hencloses⟩ := h.cycles node hnode parent hcycle
      rw [Option.bind_some, h.node?_of_mem hmem]
      refine Node.foldl_settledIn_of_mem ?_ ?_ hcycle
      · exact h.nodup_ids.sublist (List.filter_sublist.map Node.id)
      · exact List.mem_filter.2 ⟨hmem, hencloses.container⟩

/-- **Loading moves each node away from the near sides of its container** and
keeps all else. -/
theorem unsized_settleAll {g : Graph Rat} (h : g.WellFormed) :
    (((g.nodes.filter fun node => node.kind.isContainer).map Node.id).foldl
        Draft.settleContainer g.draft).graph.nodes.map Node.unsized
      = g.nodes.map fun node => (g.settled node).unsized := by
  have hcontainers : ∀ container ∈ g.nodes.filter fun node => node.kind.isContainer,
      container.unsized ∈ g.draft.graph.nodes.map Node.unsized ∧ container.cycle = none := by
    intro container hcontainer
    obtain ⟨hmem, hkind⟩ := List.mem_filter.1 hcontainer
    exact ⟨List.mem_map_of_mem hmem, h.containers container hmem hkind⟩
  refine (Draft.unsized_foldl_settleContainer (d := g.draft) h.nodup_ids hcontainers).trans ?_
  exact List.map_congr_left fun node hnode => congrArg Node.unsized (foldl_settledIn h hnode)

/-- A node that no container encloses stays where it was stored. -/
theorem settled_of_top {g : Graph Rat} {node : Node Rat} (h : node.cycle = none) :
    g.settled node = node := by
  unfold settled containerOf?
  rw [h]
  rfl

theorem settled_of_child {g : Graph Rat} (hids : (g.nodes.map Node.id).Nodup)
    {node container : Node Rat} (hcontainer : container ∈ g.nodes)
    (hcycle : node.cycle = some container.id) :
    g.settled node = node.settledIn g.settings container := by
  unfold settled
  rw [(containerOf?_eq_some_iff hids).2 ⟨hcontainer, hcycle⟩]

theorem settled_cycle (g : Graph Rat) (node : Node Rat) :
    (g.settled node).cycle = node.cycle := by
  unfold settled
  split
  · exact Node.settledIn_cycle _ _ _
  · rfl

theorem settled_id (g : Graph Rat) (node : Node Rat) : (g.settled node).id = node.id := by
  unfold settled
  split
  · exact Node.settledIn_id _ _ _
  · rfl

section Settled

variable {start g : Graph Rat} {before node : Node Rat}

/-- **Where a node is when all containers have been settled**: where it was,
or moved away from the near sides of its container. -/
theorem position_of_settled (hstart : start.WellFormed) (h : g.WellFormed)
    (hnodes : g.nodes.map Node.unsized = start.nodes.map fun node => (start.settled node).unsized)
    (hnode : node ∈ g.nodes) (heq : (start.settled before).unsized = node.unsized) :
    (node.cycle = none ∧ node.position = before.position)
      ∨ ∃ container ∈ g.nodes, node.cycle = some container.id ∧ container.Encloses
        ∧ node.position = start.settings.pushed container.position before.position := by
  have hkept : (start.settled before).unsized.cycle = node.unsized.cycle :=
    congrArg Node.cycle heq
  have hcycle : before.cycle = node.cycle := (start.settled_cycle before).symm.trans hkept
  have hposition : (start.settled before).position = node.position := (Node.mk.inj heq).2.2.2.1
  cases hparent : node.cycle with
  | none =>
      rw [settled_of_top (hcycle.trans hparent)] at hposition
      exact .inl ⟨rfl, hposition.symm⟩
  | some parent =>
      obtain ⟨container, hcontainer, rfl, hencloses⟩ := h.cycles node hnode parent hparent
      obtain ⟨origin, horigin, hsame⟩ : ∃ origin ∈ start.nodes,
          (start.settled origin).unsized = container.unsized :=
        List.mem_map.1 (hnodes ▸ List.mem_map_of_mem hcontainer)
      -- The container is in none, so it has not been moved.
      have htop : origin.cycle = none := by
        rw [← start.settled_cycle origin]
        exact (congrArg Node.cycle hsame).trans hencloses.top
      rw [settled_of_top htop] at hsame
      have hid : origin.id = container.id := (Node.mk.inj hsame).1
      have hcorner : origin.position = container.position := (Node.mk.inj hsame).2.2.2.1
      have hinside : before.cycle = some origin.id := by rw [hcycle, hparent, hid]
      rw [settled_of_child hstart.nodup_ids horigin hinside,
        Node.settledIn_of_child hinside] at hposition
      exact .inr ⟨container, hcontainer, rfl, hencloses, hcorner ▸ hposition.symm⟩

/-- **What was settled stays where it is** when it is settled again. -/
theorem settled_eq_self (hstart : start.WellFormed) (h : g.WellFormed)
    (hsettings : g.settings = start.settings)
    (hnodes : g.nodes.map Node.unsized = start.nodes.map fun node => (start.settled node).unsized)
    (hnode : node ∈ g.nodes) : g.settled node = node := by
  obtain ⟨before, -, heq⟩ : ∃ before ∈ start.nodes,
      (start.settled before).unsized = node.unsized :=
    List.mem_map.1 (hnodes ▸ List.mem_map_of_mem hnode)
  rcases position_of_settled hstart h hnodes hnode heq with
    ⟨htop, -⟩ | ⟨container, hcontainer, hcycle, -, hposition⟩
  · exact settled_of_top htop
  · rw [settled_of_child h.nodup_ids hcontainer hcycle, Node.settledIn_of_child hcycle,
      hposition, hsettings, Settings.pushed_pushed, ← hposition]

end Settled

/-- Loading edges adds edges, and does nothing else. -/
theorem foldl_addStoredEdge_eq (g : Graph Rat) (edges : List StoredEdge) :
    edges.foldl addStoredEdge g = { g with edges := (edges.foldl addStoredEdge g).edges } := by
  induction edges generalizing g with
  | nil => rfl
  | cons edge edges ih =>
      refine (ih (g.addStoredEdge edge)).trans ?_
      rw [List.foldl_cons]
      unfold addStoredEdge
      split <;> rfl

theorem settings_ofDocument (doc : Document Rat) (settings : Settings Rat)
    (nodes : List (Node Rat)) : (ofDocument doc settings nodes).settings = settings := by
  unfold ofDocument
  rw [foldl_addStoredEdge_eq]
  rfl

theorem nodes_ofDocument (doc : Document Rat) (settings : Settings Rat) (nodes : List (Node Rat)) :
    (ofDocument doc settings nodes).nodes = detachNodes nodes := by
  unfold ofDocument
  rw [foldl_addStoredEdge_eq]

/-- What is loaded of a document: its containers are settled last, in
turn. -/
theorem toGraph_eq {doc : Document Rat} {settings : Settings Rat} {nodes : List (Node Rat)}
    (hnodes : addStored settings [] doc.nodes = .ok nodes) :
    doc.toGraph settings = .ok
      ((((ofDocument doc settings nodes).nodes.filter fun node => node.kind.isContainer).map
        Node.id).foldl Draft.settleContainer (ofDocument doc settings nodes).draft).graph := by
  unfold Document.toGraph
  rw [hnodes]
  rfl

/-- **A document is loaded with its nodes and edges as they stand**, but for
the children that are moved away from the near sides of their containers. -/
theorem toGraph_settled {doc : Document Rat} {settings : Settings Rat} {nodes : List (Node Rat)}
    (hnodes : addStored settings [] doc.nodes = .ok nodes) :
    ∃ g, doc.toGraph settings = .ok g
      ∧ g.unplaced = (ofDocument doc settings nodes).unplaced
      ∧ g.aside = (settings, doc.info, doc.vars)
      ∧ g.nodes.map Node.unsized
        = (ofDocument doc settings nodes).nodes.map fun node =>
            ((ofDocument doc settings nodes).settled node).unsized := by
  obtain ⟨g, hok, hunplaced⟩ := toGraph_of_addStored hnodes
  have hwell : (ofDocument doc settings nodes).WellFormed :=
    (wellFormed_toGraph hok).congr_unplaced hunplaced
  obtain rfl := Except.ok.inj (hok.symm.trans (toGraph_eq hnodes))
  refine ⟨_, hok, hunplaced, ?_, unsized_settleAll hwell⟩
  rw [Draft.aside_foldl Draft.aside_settleContainer]
  unfold ofDocument
  rw [foldl_addStoredEdge_eq]
  rfl

end Graph

end WorkflowEditor
