/-
  WorkflowEditor.Json.Basic
  ─────────────────────────
  **JSON VALUES WITH ORDERED OBJECTS.**

  A workflow document, a node's configuration and the payload of a run
  event are all JSON.  An object is the list of its entries in the order
  they were written, so a document that is loaded and saved keeps the
  order its author chose.  A number is an exact integer where the text
  gave one and a binary float otherwise.

  The operations on entries are the three that the editor needs:

      insert     — a known key keeps its place, a new key goes last
      erase      — the other entries keep their order
      eraseSwap  — the last entry moves into the freed place

  No Mathlib.
-/

namespace WorkflowEditor

/-! ## §1. Values. -/

/-- A JSON number: an integer of the text, or the nearest float. -/
inductive Num where
  | int (value : Int)
  | float (value : Float)
  deriving Inhabited

/-- A JSON value. -/
inductive Json where
  | null
  | bool (value : Bool)
  | num (value : Num)
  | str (value : String)
  | arr (items : List Json)
  | obj (entries : List (String × Json))
  deriving Inhabited

/-- The entries of an object, in order. -/
abbrev Fields := List (String × Json)

namespace Json

/-- An integer as a value. -/
def int (n : Int) : Json := .num (.int n)

/-- A float as a value. -/
def float (x : Float) : Json := .num (.float x)

/-- The truth value, if it is one. -/
def bool? : Json → Option Bool
  | .bool b => some b
  | _ => none

/-- The text, if it is one. -/
def str? : Json → Option String
  | .str s => some s
  | _ => none

/-- The items, if it is an array. -/
def arr? : Json → Option (List Json)
  | .arr items => some items
  | _ => none

/-- The entries, if it is an object. -/
def obj? : Json → Option Fields
  | .obj entries => some entries
  | _ => none

/-- The entry of an object under `key`; anything else has none. -/
def field? (key : String) : Json → Option Json
  | .obj entries => entries.lookup key
  | _ => none

/-- Whether the value is `null`. -/
def isNull : Json → Bool
  | .null => true
  | _ => false

end Json

/-! ## §2. Entries of an object. -/

namespace Fields

/-- Whether `key` has an entry. -/
def has (fields : Fields) (key : String) : Bool :=
  fields.any fun entry => entry.1 == key

/-- The keys, in order. -/
def keys (fields : Fields) : List String :=
  fields.map Prod.fst

/-- Sets the entry of `key`: a known key keeps its place, a new one goes last. -/
def insert : Fields → String → Json → Fields
  | [], key, value => [(key, value)]
  | entry :: rest, key, value =>
      if entry.1 = key then (key, value) :: rest
      else entry :: insert rest key value

/-- Drops the entry of `key`; the others keep their order. -/
def erase (fields : Fields) (key : String) : Fields :=
  fields.filter fun entry => entry.1 != key

/-- Drops the entry of `key` and moves the last entry into its place. -/
def eraseSwap (fields : Fields) (key : String) : Fields :=
  match fields.getLast? with
  | none => fields
  | some last =>
      if last.1 = key then fields.dropLast
      else if fields.has key then
        fields.dropLast.map fun entry => if entry.1 = key then last else entry
      else fields

/-- Sets the entries of `new` one after the other. -/
def insertAll (fields new : Fields) : Fields :=
  new.foldl (fun acc entry => insert acc entry.1 entry.2) fields

end Fields

end WorkflowEditor
