/-
  WorkflowEditor.Decimal.Select
  ─────────────────────────────
  **THE FEWEST DIGITS THAT READ BACK.**

  A positive float stands for every real number that rounds to it: an
  interval around its exact value, ends included when the mantissa is
  even.  The decimal chosen for it lies in that interval, has the fewest
  digits possible, and among those is the nearest to the exact value (of
  two equally near ones, the one with an even last digit).

  If a multiple of a power of ten lies in the interval, so does one of the
  two multiples next to the exact value.  The search therefore tries, for
  one digit, two digits and so on up to seventeen, just those two.

  No Mathlib.
-/
import WorkflowEditor.Decimal.Dyadic

namespace WorkflowEditor.Decimal

/-- The decimal `digits · 10 ^ exponent`. -/
structure Scientific where
  digits : Nat
  exponent : Int
  deriving Repr, DecidableEq

/-! ## §1. The rounding interval. -/

/-- A value with the interval that rounds to it, over one denominator. -/
structure Rounding where
  low : Nat
  value : Nat
  high : Nat
  den : Nat
  closed : Bool

/-- The rounding interval of a dyadic number.  The gap below a power of two
is half the gap above it, save at the least normal exponent. -/
def Rounding.ofDyadic (d : Dyadic) : Rounding :=
  let unit := Nat.pow 2 d.exponent.toNat
  let below := if d.mantissa = Nat.pow 2 52 ∧ -1074 < d.exponent then 1 else 2
  { low := (4 * d.mantissa - below) * unit
    value := 4 * d.mantissa * unit
    high := (4 * d.mantissa + 2) * unit
    den := 4 * d.den
    closed := d.mantissa % 2 == 0 }

/-- Whether `c / scale` lies in the interval, all parts brought to one
denominator by `grid`. -/
def Rounding.admits (r : Rounding) (grid : Nat) (c : Nat) : Bool :=
  if r.closed then r.low * grid ≤ c && c ≤ r.high * grid
  else r.low * grid < c && c < r.high * grid

/-! ## §2. The search. -/

/-- The exponent `p` with `10 ^ p ≤ num / den < 10 ^ (p + 1)`. -/
def magnitude (num den : Nat) : Int :=
  if den ≤ num then ((Nat.toDigits 10 (num / den)).length : Int) - 1
  else -((Nat.toDigits 10 ((den + num - 1) / num - 1)).length : Int)

/-- The better of the two multiples of `10 ^ exponent` next to the value,
if one of them reads back. -/
def Rounding.nearestOn (r : Rounding) (exponent : Int) : Option Scientific :=
  let grid := Nat.pow 10 (-exponent).toNat
  let step := r.den * Nat.pow 10 exponent.toNat
  let exact := r.value * grid
  let below := exact / step
  let above := below + 1
  let toBelow := exact - below * step
  let toAbove := above * step - exact
  let pick :=
    match r.admits grid (below * step), r.admits grid (above * step) with
    | true, true =>
        if toBelow < toAbove then some below
        else if toAbove < toBelow then some above
        else some (if below % 2 = 0 then below else above)
    | true, false => some below
    | false, true => some above
    | false, false => none
  pick.map fun digits => ⟨digits, exponent⟩

/-- A decimal without the zeros at its end. -/
def Scientific.trim (fuel : Nat) (s : Scientific) : Scientific :=
  match fuel with
  | 0 => s
  | fuel + 1 =>
      if s.digits ≠ 0 ∧ s.digits % 10 = 0 then
        Scientific.trim fuel ⟨s.digits / 10, s.exponent + 1⟩
      else s

/-- The shortest decimal that reads back to a positive dyadic number. -/
def shortest (d : Dyadic) : Scientific :=
  let r := Rounding.ofDyadic d
  let top := magnitude r.value r.den
  let found := (List.range 17).findSome? fun (n : Nat) => r.nearestOn (top - (n : Int))
  (found.getD ⟨d.mantissa, d.exponent⟩).trim 400

end WorkflowEditor.Decimal
