/-
  WorkflowEditor.Text.Base64
  ──────────────────────────
  **BASE64 WITH THE STANDARD ALPHABET.**

  Four digits of six bits make three octets; `=` fills the last group.
  Decoding accepts exactly what encoding writes: full groups, fill at the
  end only, and no bits set behind the last octet.

  No Mathlib.
-/

namespace WorkflowEditor.Base64

/-- The digits, in order of their values. -/
def alphabet : List Char :=
  "ABCDEFGHIJKLMNOPQRSTUVWXYZabcdefghijklmnopqrstuvwxyz0123456789+/".toList

/-- The digit of a value below 64. -/
def digit (n : Nat) : Char := alphabet.getD n 'A'

/-- The value of a digit. -/
def value? (c : Char) : Option Nat := alphabet.idxOf? c

/-- The digits of a byte sequence. -/
def encode : List UInt8 → List Char
  | [] => []
  | [a] =>
      let n := a.toNat * 16
      [digit (n / 64), digit (n % 64), '=', '=']
  | [a, b] =>
      let n := (a.toNat * 256 + b.toNat) * 4
      [digit (n / 4096), digit (n / 64 % 64), digit (n % 64), '=']
  | a :: b :: c :: rest =>
      let n := (a.toNat * 256 + b.toNat) * 256 + c.toNat
      digit (n / 262144) :: digit (n / 4096 % 64) :: digit (n / 64 % 64)
        :: digit (n % 64) :: encode rest

/-- The octets of a last group with fill. -/
def decodeFilled (a b c : Char) : Option (List UInt8) := do
  let x ← value? a
  let y ← value? b
  if c = '=' then
    if y % 16 = 0 then return [UInt8.ofNat (x * 4 + y / 16)] else none
  else
    let z ← value? c
    let n := x * 1024 + y * 16 + z / 4
    if z % 4 = 0 then return [UInt8.ofNat (n / 256), UInt8.ofNat (n % 256)] else none

/-- The byte sequence that a text encodes. -/
def decode? : List Char → Option (List UInt8)
  | [] => some []
  | [a, b, c, '='] => decodeFilled a b c
  | a :: b :: c :: d :: rest => do
      let x ← value? a
      let y ← value? b
      let z ← value? c
      let w ← value? d
      let n := x * 262144 + y * 4096 + z * 64 + w
      let more ← decode? rest
      return UInt8.ofNat (n / 65536) :: UInt8.ofNat (n / 256 % 256)
        :: UInt8.ofNat (n % 256) :: more
  | _ => none

end WorkflowEditor.Base64
