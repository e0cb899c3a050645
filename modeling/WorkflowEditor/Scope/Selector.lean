/-
  WorkflowEditor.Scope.Selector
  ─────────────────────────────
  **REFERENCES IN TEMPLATES.**

  A reference names a value by a namespace and a field, with a dot
  between.  In a template it may stand in double braces and among blanks;
  a selector is brought to the bare reference, or is none.

  No Mathlib.
-/
import WorkflowEditor.Text.Blank

namespace WorkflowEditor

namespace Selector

/-- What stands between double braces, if a text begins and ends with
them. -/
def unbraced? : List Char → Option (List Char)
  | '\x7b' :: '\x7b' :: rest =>
      match rest.reverse with
      | '\x7d' :: '\x7d' :: inner => some inner.reverse
      | _ => none
  | _ => none

/-- The parts of a text before and behind its first dot. -/
def splitDot? (cs : List Char) : Option (List Char × List Char) :=
  match cs.dropWhile fun c => c != '.' with
  | _ :: field => some (cs.takeWhile fun c => c != '.', field)
  | [] => none

/-- The reference that the characters of a selector stand for. -/
def normal? (cs : List Char) : Option (List Char) :=
  let outer := trimBlanks cs
  let inner := ((unbraced? outer).map trimBlanks).getD outer
  match splitDot? inner with
  | some (space, field) =>
      if space.isEmpty || field.isEmpty || inner.any isBlank then none else some inner
  | none => none

end Selector

/-- The reference that a selector stands for. -/
def parseSelector? (text : String) : Option String :=
  (Selector.normal? text.toList).map String.ofList

/-- The namespace and the field of a reference. -/
def splitReference? (reference : String) : Option (String × String) :=
  (Selector.splitDot? reference.toList).map fun parts =>
    (String.ofList parts.1, String.ofList parts.2)

end WorkflowEditor
