/-
  WorkflowEditor.Json.Reading
  ───────────────────────────
  **A JSON TEXT AS FAR AS IT CAN BE READ.**

  Whether a text is a workflow document is decided in reading order: the
  first problem met is the one reported, be it a slip of the pen, a value
  of the wrong type or a repeated field.  So a text is first taken apart
  without judging it.  The result keeps every entry in order, repeated
  keys included, marks where the text broke off, and keeps literals whose
  value is out of bounds, since those only matter where they are used.

  What breaks a text off: a character that cannot stand where it stands,
  a control character or an unknown escape in a string, a leading zero or
  a missing digit in a number, a comma with nothing after it.

  No Mathlib.
-/
import WorkflowEditor.Decimal.Literal

namespace WorkflowEditor

/-- A value as it stands in a text. -/
inductive Reading where
  | null
  | bool (value : Bool)
  /-- A number; without a value if that would be infinite. -/
  | num (value : Option Num)
  /-- A string; without a value if it has half of a surrogate pair. -/
  | str (value : Option String)
  /-- An array, and whether its closing bracket was reached. -/
  | arr (items : List Reading) (closed : Bool)
  /-- An object, and whether its closing brace was reached. -/
  | obj (entries : List (Option String × Reading)) (closed : Bool)
  /-- The text breaks off here. -/
  | broken
  deriving Inhabited

namespace Reading

/-- Whether the value was read to its end. -/
def complete : Reading → Bool
  | .arr _ closed => closed
  | .obj _ closed => closed
  | .broken => false
  | _ => true

/-- The reading of a value that is given as such. -/
def ofJson : Json → Reading
  | .null => .null
  | .bool b => .bool b
  | .num n => .num (some n)
  | .str s => .str (some s)
  | .arr items => .arr (ofItems items) true
  | .obj entries => .obj (ofEntries entries) true
where
  ofItems : List Json → List Reading
    | [] => []
    | item :: rest => ofJson item :: ofItems rest
  ofEntries : List (String × Json) → List (Option String × Reading)
    | [] => []
    | (key, value) :: rest => (some key, ofJson value) :: ofEntries rest

/-! ## §1. Strings. -/

/-- The value of a hexadecimal digit. -/
def hexDigit? (c : Char) : Option Nat :=
  if '0' ≤ c ∧ c ≤ '9' then some (c.toNat - '0'.toNat)
  else if 'a' ≤ c ∧ c ≤ 'f' then some (c.toNat - 'a'.toNat + 10)
  else if 'A' ≤ c ∧ c ≤ 'F' then some (c.toNat - 'A'.toNat + 10)
  else none

/-- The value of four hexadecimal digits. -/
def hexUnit? (a b c d : Char) : Option Nat := do
  let a ← hexDigit? a
  let b ← hexDigit? b
  let c ← hexDigit? c
  let d ← hexDigit? d
  return ((a * 16 + b) * 16 + c) * 16 + d

/-- The character behind a one-letter escape. -/
def escaped? : Char → Option Char
  | '"' => some '"'
  | '\\' => some '\\'
  | '/' => some '/'
  | 'b' => some '\x08'
  | 'f' => some '\x0c'
  | 'n' => some '\n'
  | 'r' => some '\r'
  | 't' => some '\t'
  | _ => none

/-- The part of a string read so far, newest character first. -/
structure Written where
  newestFirst : List Char
  /-- The first half of a surrogate pair that awaits its second half. -/
  half : Option Nat
  /-- No half of a pair stood alone so far. -/
  paired : Bool

namespace Written

/-- Nothing read yet. -/
def start : Written := ⟨[], none, true⟩

/-- Adds a character; a half that awaited its partner stays alone. -/
def add (w : Written) (c : Char) : Written :=
  ⟨c :: w.newestFirst, none, w.paired && w.half.isNone⟩

/-- Adds a 16-bit unit written as an escape. -/
def addUnit (w : Written) (unit : Nat) : Written :=
  if 0xD800 ≤ unit ∧ unit < 0xDC00 then
    { w with half := some unit, paired := w.paired && w.half.isNone }
  else if 0xDC00 ≤ unit ∧ unit < 0xE000 then
    match w.half with
    | some high =>
        { w with
          newestFirst :=
            Char.ofNat ((high - 0xD800) * 0x400 + (unit - 0xDC00) + 0x10000)
              :: w.newestFirst
          half := none }
    | none => { w with paired := false }
  else w.add (Char.ofNat unit)

/-- The string, if every half of a pair has its partner. -/
def value? (w : Written) : Option String :=
  if w.paired && w.half.isNone then some (String.ofList w.newestFirst.reverse)
  else none

end Written

/-- Reads a string from behind its opening quote: its value and the rest of
the text, or nothing if the text breaks off. -/
def string? : Written → List Char → Option (Option String × List Char)
  | _, [] => none
  | w, '"' :: rest => some (w.value?, rest)
  | w, '\\' :: 'u' :: a :: b :: c :: d :: rest =>
      match hexUnit? a b c d with
      | some unit => string? (w.addUnit unit) rest
      | none => none
  | w, '\\' :: e :: rest =>
      match escaped? e with
      | some c => string? (w.add c) rest
      | none => none
  | w, c :: rest =>
      if c.toNat < 0x20 ∨ c = '\\' then none else string? (w.add c) rest

/-! ## §2. Numbers. -/

/-- The digits at the head of a text, and the rest. -/
def digits (cs : List Char) : List Nat × List Char :=
  ((cs.takeWhile Char.isDigit).map fun c => c.toNat - '0'.toNat,
    cs.dropWhile Char.isDigit)

/-- Reads the exponent part, if there is one. -/
def exponent? (cs : List Char) : Option (Option (Bool × List Nat) × List Char) :=
  let signed (down : Bool) (cs : List Char) :=
    match digits cs with
    | ([], _) => none
    | (ds, rest) => some (some (down, ds), rest)
  match cs with
  | c :: rest =>
      if c = 'e' ∨ c = 'E' then
        match rest with
        | '-' :: rest => signed true rest
        | '+' :: rest => signed false rest
        | rest => signed false rest
      else some (none, cs)
  | [] => some (none, [])

/-- Reads a number literal. -/
def number? (cs : List Char) : Option (Decimal.Literal × List Char) := do
  let (negative, cs) :=
    match cs with
    | '-' :: rest => (true, rest)
    | cs => (false, cs)
  let (whole, cs) := digits cs
  if whole.isEmpty ∨ (whole.head? = some 0 ∧ 1 < whole.length) then none
  else
    let (fraction, cs) ←
      match cs with
      | '.' :: rest =>
          match digits rest with
          | ([], _) => none
          | (ds, rest) => some (some ds, rest)
      | cs => some (none, cs)
    let (exponent, cs) ← exponent? cs
    return (⟨negative, whole, fraction, exponent⟩, cs)

/-! ## §3. Values. -/

/-- White space between the parts of a text. -/
def isSpace (c : Char) : Bool :=
  c == ' ' || c == '\t' || c == '\n' || c == '\r'

/-- The text from its next part on. -/
def skip (cs : List Char) : List Char := cs.dropWhile isSpace

/-- Reads a value, or the items or entries of a container from behind its
opening bracket, and answers the rest of the text as long as it did not
break off.  The fuel bounds the calls; every second call takes a
character. -/
def value : Nat → List Char → Reading × Option (List Char)
  | 0, _ => (.broken, none)
  | fuel + 1, cs =>
      match skip cs with
      | 'n' :: 'u' :: 'l' :: 'l' :: rest => (.null, some rest)
      | 't' :: 'r' :: 'u' :: 'e' :: rest => (.bool true, some rest)
      | 'f' :: 'a' :: 'l' :: 's' :: 'e' :: rest => (.bool false, some rest)
      | '"' :: rest =>
          match string? .start rest with
          | some (s, rest) => (.str s, some rest)
          | none => (.broken, none)
      | '[' :: rest =>
          match skip rest with
          | ']' :: rest => (.arr [] true, some rest)
          | rest =>
              let (found, rest) := items fuel rest
              (.arr found rest.isSome, rest)
      | '\x7b' :: rest =>
          match skip rest with
          | '\x7d' :: rest => (.obj [] true, some rest)
          | rest =>
              let (found, rest) := entries fuel rest
              (.obj found rest.isSome, rest)
      | cs =>
          match number? cs with
          | some (literal, rest) => (.num literal.value?, some rest)
          | none => (.broken, none)
where
  items : Nat → List Char → List Reading × Option (List Char)
    | 0, _ => ([], none)
    | fuel + 1, cs =>
        match value fuel cs with
        | (item, none) => ([item], none)
        | (item, some rest) =>
            match skip rest with
            | ',' :: rest =>
                let (more, rest) := items fuel rest
                (item :: more, rest)
            | ']' :: rest => ([item], some rest)
            | _ => ([item], none)
  entries : Nat → List Char → List (Option String × Reading) × Option (List Char)
    | 0, _ => ([], none)
    | fuel + 1, cs =>
        match skip cs with
        | '"' :: rest =>
            match string? .start rest with
            | none => ([], none)
            | some (key, rest) =>
                match skip rest with
                | ':' :: rest =>
                    match value fuel rest with
                    | (item, none) => ([(key, item)], none)
                    | (item, some rest) =>
                        match skip rest with
                        | ',' :: rest =>
                            let (more, rest) := entries fuel rest
                            ((key, item) :: more, rest)
                        | '\x7d' :: rest => ([(key, item)], some rest)
                        | _ => ([(key, item)], none)
                | _ => ([(key, .broken)], none)
        | _ => ([], none)

/-- The value a text begins with, and whether nothing but white space
follows it. -/
def ofText (text : String) : Reading × Bool :=
  let cs := text.toList
  match value (2 * cs.length + 2) cs with
  | (reading, some rest) => (reading, (skip rest).isEmpty)
  | (reading, none) => (reading, false)

end Reading

end WorkflowEditor
