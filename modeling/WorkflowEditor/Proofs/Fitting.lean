/-
  WorkflowEditor.Proofs.Fitting
  ─────────────────────────────
  **FITTED CONTAINERS, AND WHERE THEIR CHILDREN MAY STAND.**

  Over exact coordinates the rule of the body of a container is four bounds
  for each child, and the size of a fitted container is told without fitting:

    • `Settings.Admits` — a place for a child, away from all four sides,
    • `Node.admits_iff` — the near sides and the far sides apart,
    • `Settings.Admits.clamp_eq` — where a child may stand it stays,
    • `Node.FittedTo` — the least size or what a child needs, whichever is
      the largest,
    • `Node.fittedTo_of_size`, `Draft.fittedTo_fitContainer` — which is the
      size that fitting gives.
-/
import WorkflowEditor.Proofs.Enclosure
import Mathlib.Order.Bounds.Basic

namespace WorkflowEditor

/-! ## §1. Where a child may stand. -/

/-- A child of a size may stand at a point of a container: with the padding
on every side, and below the header. -/
structure Settings.Admits (settings : Settings Rat) (container : Rect Rat) (child : Size Rat)
    (p : Position Rat) : Prop where
  left : container.x + settings.containerPadding ≤ p.x
  right : p.x ≤ container.right - settings.containerPadding - child.width
  top : container.y + settings.containerHeader + settings.containerPadding ≤ p.y
  bottom : p.y ≤ container.bottom - settings.containerPadding - child.height

variable {settings : Settings Rat} {container child : Node Rat} {children : List (Node Rat)}

/-- **What a child is put at, it stays at**, if it may stand there. -/
theorem Settings.Admits.clamp_eq {body : Rect Rat} {size : Size Rat} {p : Position Rat}
    (h : settings.Admits body size p) : settings.clamp p size body = p :=
  congrArg₂ Position.mk ((clampAxis_of_le h.right).trans (max_eq_left h.left))
    ((clampAxis_of_le h.bottom).trans (max_eq_left h.top))

namespace Node

/-- **A child may stand where it stands** if that is clear of the near sides,
and the container reaches beyond it. -/
theorem admits_iff : settings.Admits container.rect child.size child.position
    ↔ container.Clears settings child ∧ container.Holds settings child := by
  -- A bound for where the child begins is one for where it ends, with its size added.
  rw [holds_iff]
  constructor
  · intro h
    have hright : child.rect.right ≤ container.rect.right - settings.containerPadding :=
      le_sub_iff_add_le.1 h.right
    have hbottom : child.rect.bottom ≤ container.rect.bottom - settings.containerPadding :=
      le_sub_iff_add_le.1 h.bottom
    exact ⟨⟨h.left, h.top⟩, le_sub_iff_add_le.1 hright, le_sub_iff_add_le.1 hbottom⟩
  · rintro ⟨⟨hleft, htop⟩, hright, hbottom⟩
    have hright' : child.rect.right ≤ container.rect.right - settings.containerPadding :=
      le_sub_iff_add_le.2 hright
    have hbottom' : child.rect.bottom ≤ container.rect.bottom - settings.containerPadding :=
      le_sub_iff_add_le.2 hbottom
    exact
      { left := hleft
        right := le_sub_iff_add_le.2 hright'
        top := htop
        bottom := le_sub_iff_add_le.2 hbottom' }

/-! ## §2. How large a fitted container is. -/

/-- A container is exactly as large as it has to be: of the least size, or as
large as a child needs, whichever is the largest, along each side. -/
structure FittedTo (settings : Settings Rat) (container : Node Rat) (children : List (Node Rat)) :
    Prop where
  width : IsGreatest {width | width = settings.minContainerSize.width ∨ ∃ child ∈ children,
      width = child.rect.right - container.position.x + settings.containerPadding}
    container.size.width
  height : IsGreatest {height | height = settings.minContainerSize.height ∨ ∃ child ∈ children,
      height = child.rect.bottom - container.position.y + settings.containerPadding}
    container.size.height

/-- **Fitting makes a container fitted.** -/
theorem fittedTo_of_size (h : container.size = settings.fit container.position (children.map rect)) :
    container.FittedTo settings children := by
  -- The two sides are fitted alike.
  have hfit {side : Size Rat → Rat} (hside : ∀ a b, side (a.cover b) = max (side a) (side b)) :
      IsGreatest {length | length = side settings.minContainerSize ∨ ∃ child ∈ children,
        length = side (settings.extent container.position child.rect)} (side container.size) := by
    have hrects := settings.isGreatest_fit container.position (children.map rect) hside
    simp only [List.mem_map, exists_exists_and_eq_and] at hrects
    rwa [h]
  exact ⟨hfit Size.width_cover, hfit Size.height_cover⟩

/-- A fitted container reaches beyond its children. -/
theorem FittedTo.holds (h : container.FittedTo settings children) (hchild : child ∈ children) :
    container.Holds settings child :=
  ⟨h.width.2 (.inr ⟨child, hchild, rfl⟩), h.height.2 (.inr ⟨child, hchild, rfl⟩)⟩

/-- **In a fitted container a child that is clear of the near sides stands
where it may.** -/
theorem FittedTo.admits (h : container.FittedTo settings children) (hchild : child ∈ children)
    (hclears : container.Clears settings child) :
    settings.Admits container.rect child.size child.position :=
  admits_iff.2 ⟨hclears, h.holds hchild⟩

end Node

namespace Draft

variable {d : Draft Rat}

/-- **A container that was fitted** is as large as the children that it now has
ask. -/
theorem fittedTo_fitContainer (hids : (d.graph.nodes.map Node.id).Nodup)
    (hcontainer : container ∈ d.graph.nodes) (htop : container.cycle = none) :
    Node.FittedTo d.graph.settings { container with size := d.graph.sizeToFit container }
      ((d.fitContainer container.id).graph.children container.id) := by
  rw [children_fitContainer hids hcontainer htop]
  exact Node.fittedTo_of_size rfl

end Draft

end WorkflowEditor
