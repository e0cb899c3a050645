/-
  WorkflowEditor.Json.Printer
  ───────────────────────────
  **TWO WRITTEN FORMS OF A JSON VALUE.**

      compact — no white space at all
      pretty  — two blanks a level, one entry a line, `[]` and `{}` empty

  In a string only the quote, the backslash and the characters below
  U+0020 are escaped.  A float has the fewest digits that read back:
  positional for exponents of -5 to 15, with an exponent part otherwise.
  A float that is not finite is written `null`.

  No Mathlib.
-/
import WorkflowEditor.Json.Basic
import WorkflowEditor.Decimal.Notation

namespace WorkflowEditor

/-- Floats are positional for exponents of -5 to 15. -/
def floatLayout : Decimal.Layout := ⟨-5, 15⟩

/-- The text of a number. -/
def Num.text : Num → String
  | .int n => toString n
  | .float x => (Decimal.natural? floatLayout x).getD "null"

namespace Json

/-! ## §1. Strings. -/

/-- The text of a character inside a string. -/
def escape (c : Char) : String :=
  if c = '"' then "\\\""
  else if c = '\\' then "\\\\"
  else if c = '\x08' then "\\b"
  else if c = '\x0c' then "\\f"
  else if c = '\n' then "\\n"
  else if c = '\r' then "\\r"
  else if c = '\t' then "\\t"
  else if c.toNat < 0x20 then
    "\\u00" ++ String.ofList [Nat.digitChar (c.toNat / 16), Nat.digitChar (c.toNat % 16)]
  else c.toString

/-- A string in quotes. -/
def quote (s : String) : String :=
  "\"" ++ s.toList.foldl (fun acc c => acc ++ escape c) "" ++ "\""

/-! ## §2. The compact form. -/

/-- The compact form. -/
def compact : Json → String
  | .null => "null"
  | .bool b => if b then "true" else "false"
  | .num n => n.text
  | .str s => quote s
  | .arr [] => "[]"
  | .arr (item :: rest) => "[" ++ compact item ++ moreItems rest ++ "]"
  | .obj [] => "\x7b\x7d"
  | .obj ((key, value) :: rest) =>
      "\x7b" ++ quote key ++ ":" ++ compact value ++ moreEntries rest ++ "\x7d"
where
  moreItems : List Json → String
    | [] => ""
    | item :: rest => "," ++ compact item ++ moreItems rest
  moreEntries : List (String × Json) → String
    | [] => ""
    | (key, value) :: rest =>
        "," ++ quote key ++ ":" ++ compact value ++ moreEntries rest

/-! ## §3. The pretty form. -/

/-- The start of a line at a level. -/
def newLine (level : Nat) : String :=
  "\n" ++ String.ofList (List.replicate (2 * level) ' ')

/-- The pretty form of a value that stands at a level. -/
def prettyAt (level : Nat) : Json → String
  | .arr [] => "[]"
  | .arr (item :: rest) =>
      "[" ++ newLine (level + 1) ++ prettyAt (level + 1) item
        ++ moreItems (level + 1) rest ++ newLine level ++ "]"
  | .obj [] => "\x7b\x7d"
  | .obj ((key, value) :: rest) =>
      "\x7b" ++ newLine (level + 1) ++ quote key ++ ": " ++ prettyAt (level + 1) value
        ++ moreEntries (level + 1) rest ++ newLine level ++ "\x7d"
  | .null => "null"
  | .bool b => if b then "true" else "false"
  | .num n => n.text
  | .str s => quote s
where
  moreItems (level : Nat) : List Json → String
    | [] => ""
    | item :: rest => "," ++ newLine level ++ prettyAt level item ++ moreItems level rest
  moreEntries (level : Nat) : List (String × Json) → String
    | [] => ""
    | (key, value) :: rest =>
        "," ++ newLine level ++ quote key ++ ": " ++ prettyAt level value
          ++ moreEntries level rest

/-- The pretty form. -/
def pretty (value : Json) : String := prettyAt 0 value

end Json

end WorkflowEditor
