/-
  WorkflowEditor.Geometry
  ───────────────────────
  **POSITIONS, SIZES AND RECTANGLES ON THE CANVAS.**

  The canvas is measured in coordinates of some type `α`.  The editor runs
  on floats; the same definitions over the rationals are exact, which is
  where statements about containment live.

  `larger` and `smaller` are what clamping and fitting rest on.  On floats
  they pass over a NaN, and of two equal values they answer the first.

  No Mathlib.
-/

namespace WorkflowEditor

/-! ## §1. Coordinates. -/

/-- What the canvas needs of its coordinates. -/
class Coordinate (α : Type) extends Add α, Sub α where
  ofNat : Nat → α
  le : α → α → Bool
  same : α → α → Bool
  larger : α → α → α
  smaller : α → α → α

/-- Coordinates as the editor keeps them. -/
instance : Coordinate Float where
  ofNat := Float.ofNat
  le x y := x ≤ y
  same x y := x == y
  larger x y := if x.isNaN then y else if x < y then y else x
  smaller x y := if x.isNaN then y else if y < x then y else x

/-- Exact coordinates. -/
instance : Coordinate Rat where
  ofNat n := n
  le x y := decide (x ≤ y)
  same x y := decide (x = y)
  larger x y := if x < y then y else x
  smaller x y := if y < x then y else x

open Coordinate

variable {α : Type} [Coordinate α]

/-! ## §2. Positions and sizes. -/

/-- A point of the canvas. -/
structure Position (α : Type) where
  x : α
  y : α
  deriving Repr, DecidableEq

/-- The extent of a node. -/
structure Size (α : Type) where
  width : α
  height : α
  deriving Repr, DecidableEq

/-- The point where the canvas begins. -/
def Position.origin : Position α := ⟨ofNat 0, ofNat 0⟩

/-- A point moved by `dx` and `dy`. -/
def Position.offset (p : Position α) (dx dy : α) : Position α :=
  ⟨p.x + dx, p.y + dy⟩

/-- The larger extent in each direction. -/
def Size.cover (a b : Size α) : Size α :=
  ⟨larger a.width b.width, larger a.height b.height⟩

/-- Whether two sizes are equal in both directions. -/
def Size.same (a b : Size α) : Bool :=
  Coordinate.same a.width b.width && Coordinate.same a.height b.height

/-! ## §3. Rectangles. -/

/-- A rectangle with sides along the axes. -/
structure Rect (α : Type) where
  x : α
  y : α
  width : α
  height : α
  deriving Repr, DecidableEq

namespace Rect

/-- The rectangle at a position with a size. -/
def ofCorner (p : Position α) (s : Size α) : Rect α :=
  ⟨p.x, p.y, s.width, s.height⟩

/-- The far end in the first direction. -/
def right (r : Rect α) : α := r.x + r.width

/-- The far end in the second direction. -/
def bottom (r : Rect α) : α := r.y + r.height

/-- Whether a point lies in a rectangle, its border included. -/
def containsPoint (r : Rect α) (p : Position α) : Bool :=
  le r.x p.x && le p.x r.right && le r.y p.y && le p.y r.bottom

/-- Whether the second rectangle lies in the first, borders included. -/
def containsRect (r s : Rect α) : Bool :=
  le r.x s.x && le r.y s.y && le s.right r.right && le s.bottom r.bottom

/-- The smallest rectangle around both. -/
def union (r s : Rect α) : Rect α :=
  let x := smaller r.x s.x
  let y := smaller r.y s.y
  ⟨x, y, larger r.right s.right - x, larger r.bottom s.bottom - y⟩

/-- The rectangle grown on each of its four sides. -/
def inflate (r : Rect α) (left top right bottom : α) : Rect α :=
  ⟨r.x - left, r.y - top, r.width + left + right, r.height + top + bottom⟩

end Rect

end WorkflowEditor
