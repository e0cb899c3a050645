/-
  WorkflowEditor.Node.Form
  ────────────────────────
  **THE FIELDS OF A PROPERTY FORM.**

  A node's configuration is edited as a form: fields with a name and a
  value, in order.  In its written form each value is wrapped as the
  default of its field.

  No Mathlib.
-/
import WorkflowEditor.Json.Decode

namespace WorkflowEditor

/-- The fields of a form, in order. -/
structure Form where
  fields : Fields
  deriving Inhabited

namespace Form

/-- The form without fields. -/
def empty : Form := ⟨[]⟩

/-- The value of a field. -/
def get? (form : Form) (key : String) : Option Json := form.fields.lookup key

/-- Sets a field; a new one goes last. -/
def set (form : Form) (key : String) (value : Json) : Form :=
  ⟨form.fields.insert key value⟩

/-- Sets a field that exists. -/
def replace (form : Form) (key : String) (value : Json) : Form :=
  if form.fields.has key then form.set key value else form

/-- Drops a field; the others keep their order. -/
def erase (form : Form) (key : String) : Form := ⟨form.fields.erase key⟩

/-- The items of a field that is an array; otherwise none. -/
def items (form : Form) (key : String) : List Json :=
  ((form.get? key).bind Json.arr?).getD []

/-- An item in its place is one of an array that the field holds. -/
theorem getElem?_items_iff {form : Form} {key : String} {i : Nat} {item : Json} :
    (form.items key)[i]? = some item
      ↔ ∃ items, form.get? key = some (.arr items) ∧ items[i]? = some item := by
  unfold items
  cases form.get? key with
  | none => simp
  | some value => cases value <;> simp [Json.arr?]

/-- The text of an entry of a field that is an object. -/
def nestedText? (form : Form) (key entry : String) : Option String :=
  ((form.get? key).bind (Json.field? entry)).bind Json.str?

/-! ## §1. The written form. -/

/-- The name under which a field's value is written. -/
def valueKey : String := "defaultValue"

/-- A form as JSON. -/
def toJson (form : Form) : Json :=
  .obj (form.fields.map fun entry => (entry.1, .obj [(valueKey, entry.2)]))

/-- The value of a written field: an object with the value in it, or an
array of just the value. -/
def fieldValue : Json → Except DecodeError Json
  | .obj entries =>
      match entries.lookup valueKey with
      | some value => .ok value
      | none => .error (.missingField valueKey)
  | .arr [value] => .ok value
  | _ => .error .malformed

/-- Reads a written form. -/
def decoder : Decoder Form := fun room r => do
  let entries ← Decoder.fields room r
  let found ← entries.mapM fun entry => do
    return (entry.1, ← fieldValue entry.2)
  return ⟨found⟩

end Form

end WorkflowEditor
