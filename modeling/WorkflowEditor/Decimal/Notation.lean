/-
  WorkflowEditor.Decimal.Notation
  ───────────────────────────────
  **HOW A DECIMAL IS LAID OUT.**

  Two layouts.  `natural` writes the shortest decimal of a float,
  positionally within a range of exponents and with an exponent part
  outside it.  `places` rounds the exact value to a fixed number of
  places, a tie going to the even neighbour.

  No Mathlib.
-/
import WorkflowEditor.Decimal.Select

namespace WorkflowEditor.Decimal

/-! ## §1. The natural layout. -/

/-- Where positional notation begins and ends, as exponents of the leading
digit. -/
structure Layout where
  least : Int
  greatest : Int

/-- `n` zeros. -/
def zeros (n : Nat) : String := String.ofList (List.replicate n '0')

/-- The layout of a positive decimal.  In positional notation there is at
least one decimal; with an exponent part the sign is always written. -/
def Scientific.text (layout : Layout) (s : Scientific) : String :=
  let ds := Nat.toDigits 10 s.digits
  let lead := s.exponent + ds.length - 1
  if layout.least ≤ lead ∧ lead ≤ layout.greatest then
    if 0 ≤ s.exponent then
      String.ofList ds ++ zeros s.exponent.toNat ++ ".0"
    else if 0 ≤ lead then
      let whole := lead.toNat + 1
      String.ofList (ds.take whole) ++ "." ++ String.ofList (ds.drop whole)
    else
      "0." ++ zeros ((-lead).toNat - 1) ++ String.ofList ds
  else
    let fraction := ds.drop 1
    String.ofList (ds.take 1)
      ++ (if fraction.isEmpty then "" else "." ++ String.ofList fraction)
      ++ "e" ++ (if lead < 0 then "-" else "+") ++ toString lead.natAbs

/-- A finite float in the natural layout; infinities and NaN have none. -/
def natural? (layout : Layout) (x : Float) : Option String :=
  (Dyadic.ofFloat? x).map fun d =>
    let body := if d.mantissa = 0 then "0.0" else (shortest d).text layout
    if d.negative then "-" ++ body else body

/-! ## §2. Fixed places. -/

/-- `num / den` to the nearest natural number, a tie going to the even
one. -/
def roundEven (num den : Nat) : Nat :=
  let q := num / den
  let r := num % den
  if 2 * r < den then q
  else if den < 2 * r then q + 1
  else if q % 2 = 0 then q else q + 1

/-- A finite float with exactly `n` places, the exact value rounded. -/
def places? (n : Nat) (x : Float) : Option String :=
  (Dyadic.ofFloat? x).map fun d =>
    let grid := Nat.pow 10 n
    let scaled := roundEven (d.num * grid) d.den
    let fraction := Nat.toDigits 10 (scaled % grid)
    let body := toString (scaled / grid) ++ "."
      ++ zeros (n - fraction.length) ++ String.ofList fraction
    if d.negative then "-" ++ body else body

end WorkflowEditor.Decimal
