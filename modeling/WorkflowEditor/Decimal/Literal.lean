/-
  WorkflowEditor.Decimal.Literal
  ──────────────────────────────
  **THE VALUE OF A NUMBER LITERAL.**

  A literal without fraction and exponent is an integer as long as it fits
  64 bits (unsigned when positive, signed when negative); `-0` is the
  float of that name.  Every other literal is a float, found in three
  steps:

      1. all digits form one 64-bit significand; once a digit no longer
         fits, it and the later digits of its part are dropped, and a
         dropped digit of the whole part raises the exponent by one;
      2. the significand becomes a float;
      3. that is multiplied or divided by the power of ten, in steps of
         at most `10 ^ 308`.

  The result may differ from the nearest float in its last bits.  A
  literal whose float would be infinite has no value.

  No Mathlib.
-/
import WorkflowEditor.Json.Basic

namespace WorkflowEditor.Decimal

/-- A number literal, taken apart. -/
structure Literal where
  negative : Bool
  whole : List Nat
  fraction : Option (List Nat)
  /-- Sign of the exponent part (`true` for minus) and its digits. -/
  exponent : Option (Bool × List Nat)

/-! ## §1. Digits within a limit. -/

/-- Reads digits onto `value` while the number stays within `limit`, and
counts the digits that remain. -/
def gather (limit : Nat) : Nat → List Nat → Nat × Nat
  | value, [] => (value, 0)
  | value, d :: ds =>
      if limit < value * 10 + d then (value, ds.length + 1)
      else gather limit (value * 10 + d) ds

/-- The greatest significand. -/
def significandLimit : Nat := Nat.pow 2 64 - 1

/-- The greatest exponent that is read exactly. -/
def exponentLimit : Nat := Nat.pow 2 31 - 1

/-! ## §2. Scaling by a power of ten. -/

/-- The float nearest to `10 ^ n`. -/
def powerOfTen (n : Nat) : Float := Float.ofScientific 1 false n

/-- `x / 10 ^ n`, at most 308 places at a time. -/
def scaleDown (x : Float) (n : Nat) : Float :=
  if n ≤ 308 then x / powerOfTen n
  else if x == 0 then x
  else scaleDown (x / powerOfTen 308) (n - 308)
termination_by n
decreasing_by omega

/-- `x · 10 ^ n`, if that is finite. -/
def scaleUp (x : Float) (n : Nat) : Option Float :=
  if n ≤ 308 then
    let y := x * powerOfTen n
    if y.isInf then none else some y
  else if x == 0 then some x
  else none

/-- The float `± significand · 10 ^ exponent`. -/
def scaled (negative : Bool) (significand : Nat) (exponent : Int) : Option Float :=
  let x := Float.ofNat significand
  let y := if 0 ≤ exponent then scaleUp x exponent.toNat
    else some (scaleDown x (-exponent).toNat)
  y.map fun y => if negative then -y else y

/-! ## §3. The value. -/

/-- The float that a literal's parts stand for. -/
def Literal.float? (l : Literal) : Option Float :=
  let (head, dropped) := gather significandLimit 0 l.whole
  let fraction := l.fraction.getD []
  let (significand, unread) := gather significandLimit head fraction
  let shift : Int := (dropped : Int) - ((fraction.length - unread : Nat) : Int)
  match l.exponent with
  | none => scaled l.negative significand shift
  | some (down, digits) =>
      let (e, tooLong) := gather exponentLimit 0 digits
      if tooLong = 0 then
        scaled l.negative significand (if down then shift - (e : Int) else shift + (e : Int))
      else if significand ≠ 0 ∧ !down then none
      else some (if l.negative then -0.0 else 0.0)

/-- The integer that a literal stands for, if it is one that fits. -/
def Literal.int? (l : Literal) : Option Int :=
  match l.fraction, l.exponent with
  | none, none =>
      let n : Nat := l.whole.foldl (fun n d => n * 10 + d) 0
      if l.negative then
        if 0 < n ∧ n ≤ Nat.pow 2 63 then some (-(n : Int)) else none
      else if n < Nat.pow 2 64 then some n else none
  | _, _ => none

/-- The value of a literal. -/
def Literal.value? (l : Literal) : Option Num :=
  match l.int? with
  | some n => some (.int n)
  | none => l.float?.map .float

end WorkflowEditor.Decimal
