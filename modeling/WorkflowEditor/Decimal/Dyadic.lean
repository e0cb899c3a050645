/-
  WorkflowEditor.Decimal.Dyadic
  ─────────────────────────────
  **A FLOAT AS AN EXACT NUMBER.**

  A finite float is `± mantissa · 2 ^ exponent` with a natural mantissa.
  Both decimal printers of this folder start from that form and work in
  exact natural arithmetic from there on.

  No Mathlib.
-/

namespace WorkflowEditor.Decimal

/-- The number `± mantissa · 2 ^ exponent`. -/
structure Dyadic where
  negative : Bool
  mantissa : Nat
  exponent : Int
  deriving Repr, DecidableEq

namespace Dyadic

/-- The exact value of a finite float, read off its bits; infinities and
NaN have none. -/
def ofFloat? (x : Float) : Option Dyadic :=
  let bits : Nat := x.toBits.toNat
  let negative := bits / Nat.pow 2 63 == 1
  let biased : Nat := bits / Nat.pow 2 52 % Nat.pow 2 11
  let fraction : Nat := bits % Nat.pow 2 52
  if biased = 2047 then none
  else if biased = 0 then some ⟨negative, fraction, -1074⟩
  else some ⟨negative, fraction + Nat.pow 2 52, (biased : Int) - 1075⟩

/-- Numerator of the absolute value as a fraction. -/
def num (d : Dyadic) : Nat := d.mantissa * Nat.pow 2 d.exponent.toNat

/-- Denominator of the absolute value as a fraction. -/
def den (d : Dyadic) : Nat := Nat.pow 2 (-d.exponent).toNat

end Dyadic

end WorkflowEditor.Decimal
