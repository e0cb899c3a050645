/-
  WorkflowEditor.Scope.VariableType
  ─────────────────────────────────
  **THE TYPES OF VARIABLES.**

  A type is written as a tag; blanks around it do not matter, and a tag
  that is not known stands for a type that could not be determined.

  No Mathlib.
-/
import WorkflowEditor.Text.Blank

namespace WorkflowEditor

/-- The type of a variable. -/
inductive VariableType where
  | string
  | number
  | boolean
  | object
  | file
  | arrayString
  | arrayNumber
  | arrayBoolean
  | arrayObject
  | arrayFile
  | arrayNest
  /-- The type could not be determined. -/
  | any
  deriving Repr, DecidableEq

namespace VariableType

/-- The types that a tag can name. -/
def all : List VariableType :=
  [.string, .number, .boolean, .object, .file, .arrayString, .arrayNumber, .arrayBoolean,
    .arrayObject, .arrayFile, .arrayNest, .any]

/-- The tag of a type. -/
def tag : VariableType → String
  | .string => "string"
  | .number => "number"
  | .boolean => "boolean"
  | .object => "object"
  | .file => "file"
  | .arrayString => "array[string]"
  | .arrayNumber => "array[number]"
  | .arrayBoolean => "array[boolean]"
  | .arrayObject => "array[object]"
  | .arrayFile => "array[file]"
  | .arrayNest => "array_nest"
  | .any => "any"

/-- The type behind a tag. -/
def ofTag (text : String) : VariableType :=
  (all.find? fun type => type.tag == trimmed text).getD .any

/-- Whether values of the type are lists. -/
def isArray : VariableType → Bool
  | .arrayString | .arrayNumber | .arrayBoolean | .arrayObject | .arrayFile | .arrayNest => true
  | _ => false

/-- The type of a list's items. -/
def element : VariableType → VariableType
  | .arrayString => .string
  | .arrayNumber => .number
  | .arrayBoolean => .boolean
  | .arrayObject => .object
  | .arrayFile => .file
  | _ => .any

end VariableType

end WorkflowEditor
