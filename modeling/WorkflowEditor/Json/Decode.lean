/-
  WorkflowEditor.Json.Decode
  ──────────────────────────
  **DECODING IN READING ORDER.**

  A decoder turns a reading into a value of a domain type or tells the
  first problem in reading order.  It is given the room that is left: how
  many levels of arrays and objects it may still open.  A text may open
  127 in all, a value that is given as such any number.

  A `Record` describes a structure by its fields in declaration order.
  Its decoder accepts an object with those fields, in any order and beside
  others, or an array of the field values in declaration order.

      object  — a field given twice is refused when its name is met again;
                fields that are missing are refused at the closing brace,
                the first declared one first
      array   — only fields with a default may be left out, and only at
                the end

  Entries that no field claims are skipped without being judged; a record
  with a rest keeps them instead, and is never an array.

  No Mathlib.
-/
import WorkflowEditor.Json.Reading

namespace WorkflowEditor

/-- Why a reading is not the value asked for. -/
inductive DecodeError where
  | missingField (name : String)
  | duplicateField (name : String)
  /-- A slip in the text, a value of the wrong type or out of bounds. -/
  | malformed
  deriving Repr, DecidableEq

namespace DecodeError

/-- The text of a problem that concerns a field. -/
def message? : DecodeError → Option String
  | .missingField name => some ("missing field " ++ quoted name)
  | .duplicateField name => some ("duplicate field " ++ quoted name)
  | .malformed => none
where
  quoted (name : String) : String := "\x60" ++ name ++ "\x60"

end DecodeError

/-- How many levels of arrays and objects may still be opened. -/
inductive Room where
  | unlimited
  | levels (n : Nat)
  deriving Repr, DecidableEq

/-- The room in a level that is opened, if there is room for it. -/
def Room.enter : Room → Option Room
  | .unlimited => some .unlimited
  | .levels 0 => none
  | .levels (n + 1) => some (.levels n)

/-- The room in a text. -/
def Room.ofText : Room := .levels 127

/-- Decodes a reading within the room that is left. -/
abbrev Decoder (β : Type) := Room → Reading → Except DecodeError β

namespace Decoder

/-! ## §1. Scalars. -/

/-- A string. -/
def text : Decoder String
  | _, .str (some s) => .ok s
  | _, _ => .error .malformed

/-- A truth value. -/
def bool : Decoder Bool
  | _, .bool b => .ok b
  | _, _ => .error .malformed

/-- A float; integers are accepted. -/
def float : Decoder Float
  | _, .num (some (.float x)) => .ok x
  | _, .num (some (.int n)) => .ok (Float.ofInt n)
  | _, _ => .error .malformed

/-- An integer between bounds; floats are refused. -/
def intWithin (least greatest : Int) : Decoder Int
  | _, .num (some (.int n)) =>
      if least ≤ n ∧ n ≤ greatest then .ok n else .error .malformed
  | _, _ => .error .malformed

/-- A signed integer of 64 bits. -/
def int64 : Decoder Int := intWithin (-(Nat.pow 2 63)) (Nat.pow 2 63 - 1)

/-- A natural number of 32 bits. -/
def nat32 : Decoder Nat := fun room r =>
  Int.toNat <$> intWithin 0 (Nat.pow 2 32 - 1) room r

/-! ## §2. Containers. -/

/-- `null`, or a value. -/
def optional {β : Type} (d : Decoder β) : Decoder (Option β)
  | _, .null => .ok none
  | room, r => some <$> d room r

/-- An array of values. -/
def list {β : Type} (d : Decoder β) : Decoder (List β) := fun room r =>
  match room.enter, r with
  | some room, .arr items closed => do
      let found ← items.mapM (d room)
      if closed then .ok found else .error .malformed
  | _, _ => .error .malformed

/-- Any value.  Of a repeated key the first place and the last value
count. -/
def json : Decoder Json
  | _, .null => .ok .null
  | _, .bool b => .ok (.bool b)
  | _, .num (some n) => .ok (.num n)
  | _, .str (some s) => .ok (.str s)
  | room, .arr items true =>
      match room.enter with
      | some room => .arr <$> ofItems room items
      | none => .error .malformed
  | room, .obj entries true =>
      match room.enter with
      | some room => .obj <$> ofEntries room [] entries
      | none => .error .malformed
  | _, _ => .error .malformed
where
  ofItems : Room → List Reading → Except DecodeError (List Json)
    | _, [] => .ok []
    | room, item :: rest => do
        let item ← json room item
        let rest ← ofItems room rest
        return item :: rest
  ofEntries : Room → Fields → List (Option String × Reading) → Except DecodeError Fields
    | _, found, [] => .ok found
    | room, found, (some key, value) :: rest => do
        let value ← json room value
        ofEntries room (Fields.insert found key value) rest
    | _, _, (none, _) :: _ => .error .malformed

/-- The entries of an object. -/
def fields : Decoder Fields := fun room r =>
  match r with
  | .obj _ _ => do
      match ← json room r with
      | .obj entries => .ok entries
      | _ => .error .malformed
  | _ => .error .malformed

/-- The problem a decoder finds, if any, without the value. -/
def check {β : Type} (d : Decoder β) : Decoder Unit := fun room r =>
  (fun _ => ()) <$> d room r

end Decoder

/-! ## §3. Records. -/

/-- A structure by its fields: how each is checked when it is met, and how
the structure is built from those that were found. -/
structure Record (β : Type) where
  checks : List (String × Decoder Unit)
  build : Room → (String → Option Reading) → Except DecodeError β

namespace Record

/-- A field that has to be there. -/
def required {β : Type} (name : String) (d : Decoder β) : Record β where
  checks := [(name, d.check)]
  build room find :=
    match find name with
    | some r => d room r
    | none => .error (.missingField name)

/-- A field that takes `default` when it is left out. -/
def defaulted {β : Type} (name : String) (d : Decoder β) (default : β) : Record β where
  checks := [(name, d.check)]
  build room find :=
    match find name with
    | some r => d room r
    | none => .ok default

/-- A field that may be `null` or left out. -/
def optional {β : Type} (name : String) (d : Decoder β) : Record (Option β) :=
  defaulted name d.optional none

instance : Applicative Record where
  pure b := { checks := [], build := fun _ _ => .ok b }
  seq f x :=
    { checks := f.checks ++ (x ()).checks
      build := fun room find => do
        let g ← f.build room find
        let b ← (x ()).build room find
        return g b }

/-- What is done with an entry that no field claims. -/
abbrev Unclaimed := Room → Reading → Except DecodeError (Option Json)

/-- Skips a value without judging more than its spelling. -/
def skipped : Unclaimed := fun _ r =>
  if r.complete then .ok none else .error .malformed

/-- Keeps a value. -/
def kept : Unclaimed := fun room r => some <$> Decoder.json room r

/-- Walks the entries in reading order: the claimed ones that were met, and
the rest that is kept. -/
def claim (checks : List (String × Decoder Unit)) (unclaimed : Unclaimed) (room : Room) :
    List (String × Reading) → Fields → List (Option String × Reading) →
      Except DecodeError (List (String × Reading) × Fields)
  | met, rest, [] => .ok (met, rest)
  | _, _, (none, _) :: _ => .error .malformed
  | met, rest, (some key, r) :: more =>
      match checks.lookup key with
      | some check =>
          if (met.lookup key).isSome then .error (.duplicateField key)
          else do
            check room r
            claim checks unclaimed room (met ++ [(key, r)]) rest more
      | none => do
          match ← unclaimed room r with
          | some value => claim checks unclaimed room met (Fields.insert rest key value) more
          | none => claim checks unclaimed room met rest more

/-- Checks array items against the fields in declaration order. -/
def checkItems (room : Room) : List (String × Decoder Unit) → List Reading →
    Except DecodeError Unit
  | _, [] => .ok ()
  | [], _ :: _ => .error .malformed
  | (_, check) :: checks, r :: rest => do
      check room r
      checkItems room checks rest

/-- The decoder of a structure. -/
def decoder {β : Type} (record : Record β) : Decoder β := fun room r =>
  match room.enter, r with
  | some room, .obj entries closed => do
      let (met, _) ← claim record.checks skipped room [] [] entries
      if closed then record.build room fun name => met.lookup name
      else .error .malformed
  | some room, .arr items closed => do
      checkItems room record.checks items
      if closed then
        let met := (record.checks.map Prod.fst).zip items
        (record.build room fun name => met.lookup name).mapError fun _ => .malformed
      else .error .malformed
  | _, _ => .error .malformed

/-- The decoder of a structure that keeps the entries it does not claim. -/
def decoderWithRest {β : Type} (record : Record (Fields → β)) : Decoder β := fun room r =>
  match room.enter, r with
  | some room, .obj entries closed => do
      let (met, rest) ← claim record.checks kept room [] [] entries
      if closed then do
        let make ← record.build room fun name => met.lookup name
        return make rest
      else .error .malformed
  | _, _ => .error .malformed

end Record

/-! ## §4. Whole texts. -/

/-- Decodes a text that holds one value and nothing else. -/
def Decoder.ofText {β : Type} (d : Decoder β) (text : String) : Except DecodeError β := do
  let (reading, whole) := Reading.ofText text
  let found ← d .ofText reading
  if whole then .ok found else .error .malformed

/-- Decodes a value that is given as such. -/
def Decoder.ofJson {β : Type} (d : Decoder β) (value : Json) : Except DecodeError β :=
  d .unlimited (Reading.ofJson value)

/-- The value a text holds. -/
def Json.ofText? (text : String) : Option Json :=
  (Decoder.json.ofText text).toOption

end WorkflowEditor
