/-
  WorkflowEditor.Text.Blank
  ─────────────────────────
  **WHITE SPACE.**

  A character is blank when it carries the property `White_Space`.  Type
  tags, selectors and chat inputs are trimmed by this rule, so a
  no-break space around a selector does not matter.

  No Mathlib.
-/

namespace WorkflowEditor

/-- The property `White_Space`: 25 characters in all. -/
def isBlank (c : Char) : Bool :=
  let n := c.toNat
  (9 ≤ n && n ≤ 13) || n == 0x20 || n == 0x85 || n == 0xA0 || n == 0x1680
    || (0x2000 ≤ n && n ≤ 0x200A) || n == 0x2028 || n == 0x2029
    || n == 0x202F || n == 0x205F || n == 0x3000

/-- The characters left when blanks are taken off both ends. -/
def trimBlanks (cs : List Char) : List Char :=
  ((cs.dropWhile isBlank).reverse.dropWhile isBlank).reverse

/-- A text without the blanks at its ends. -/
def trimmed (s : String) : String :=
  String.ofList (trimBlanks s.toList)

end WorkflowEditor
