/-
  WorkflowEditor.Settings
  ───────────────────────
  **THE MEASURES OF THE EDITOR, AND FITTING BY THEM.**

  A container keeps its children below a header and away from its border
  by a padding, and it grows with them.  Two functions say so:

      clamp — where a child may stand inside a container
      fit   — how large a container has to be for its children

  No Mathlib.
-/
import WorkflowEditor.Geometry
import WorkflowEditor.Json.Decode

namespace WorkflowEditor

open Coordinate

/-- The measures by which nodes are placed. -/
structure Settings (α : Type) where
  /-- Gap between the border of a container and its children. -/
  containerPadding : α
  /-- Height of a container's title bar, which no child may overlap. -/
  containerHeader : α
  /-- No container is smaller than this. -/
  minContainerSize : Size α
  /-- Size of a new node that is no container. -/
  defaultNodeSize : Size α
  deriving Repr

variable {α : Type} [Coordinate α]

namespace Settings

/-- The measures used where none are given. -/
def standard : Settings α where
  containerPadding := ofNat 24
  containerHeader := ofNat 48
  minContainerSize := ⟨ofNat 600, ofNat 300⟩
  defaultNodeSize := ⟨ofNat 240, ofNat 80⟩

/-! ## §1. Fitting. -/

/-- A value brought between two bounds; if they cross, the lower one wins. -/
def clampAxis (value low high : α) : α := larger (smaller value high) low

/-- Where a child of a size lands in a container when it is put at
`candidate`: below the header, with the padding on every side.  A child
that is too large stands at the upper left. -/
def clamp (settings : Settings α) (candidate : Position α) (child : Size α)
    (container : Rect α) : Position α :=
  let pad := settings.containerPadding
  ⟨clampAxis candidate.x (container.x + pad) (container.right - pad - child.width),
    clampAxis candidate.y (container.y + settings.containerHeader + pad)
      (container.bottom - pad - child.height)⟩

/-- The size a container at `corner` needs to enclose `children` with the
padding on the far sides, but at least the smallest size. -/
def fit (settings : Settings α) (corner : Position α) (children : List (Rect α)) : Size α :=
  let pad := settings.containerPadding
  children.foldl
    (fun size child =>
      size.cover ⟨child.right - corner.x + pad, child.bottom - corner.y + pad⟩)
    settings.minContainerSize

end Settings

/-! ## §2. The written form. -/

/-- The fields of a position. -/
def Position.record : Record (Position Float) :=
  Position.mk <$> .required "x" .float <*> .required "y" .float

/-- A position as JSON. -/
def Position.toJson (p : Position Float) : Json :=
  .obj [("x", .float p.x), ("y", .float p.y)]

/-- The fields of a size. -/
def Size.record : Record (Size Float) :=
  Size.mk <$> .required "width" .float <*> .required "height" .float

/-- A size as JSON. -/
def Size.toJson (s : Size Float) : Json :=
  .obj [("width", .float s.width), ("height", .float s.height)]

namespace Settings

/-- The fields of the settings; each may be left out. -/
def record : Record (Settings Float) :=
  let d : Settings Float := standard
  Settings.mk
    <$> .defaulted "container_padding" .float d.containerPadding
    <*> .defaulted "container_header" .float d.containerHeader
    <*> .defaulted "min_container_size" Size.record.decoder d.minContainerSize
    <*> .defaulted "default_node_size" Size.record.decoder d.defaultNodeSize

/-- The settings that a text holds. -/
def ofText (text : String) : Except DecodeError (Settings Float) :=
  record.decoder.ofText text

/-- Settings as JSON. -/
def toJson (s : Settings Float) : Json :=
  .obj
    [("container_padding", .float s.containerPadding),
      ("container_header", .float s.containerHeader),
      ("min_container_size", s.minContainerSize.toJson),
      ("default_node_size", s.defaultNodeSize.toJson)]

end Settings

end WorkflowEditor
