/-
  ShapeEstimator.Binary64.Shortest
  ────────────────────────────────
  **THE FEWEST DIGITS THAT READ BACK.**

  A double is written with the least number of significant digits from which
  reading to nearest recovers it.  The search goes over the grids of 1, 2, …, 17
  digits and tries the two neighbours of the exact value on each; the first grid
  with a neighbour that reads back wins, of two such neighbours the nearer, and
  of two equally near ones the upper.  "Reads back" is `Magnitude.ofDecimal`
  itself, so what is chosen is read as the double it was chosen for.
-/
import ShapeEstimator.Binary64.Magnitude

namespace ShapeEstimator.Binary64

/-- The number `digits · 10 ^ exponent`. -/
structure DecimalDigits where
  /-- The significant digits as one natural number. -/
  digits : Nat
  /-- The power of ten they are scaled by. -/
  exponent : Int
  deriving DecidableEq, Repr

namespace DecimalDigits

/-- Moves trailing zeros of the digits into the exponent, at most `limit` of them. -/
def stripZeros : Nat → DecimalDigits → DecimalDigits
  | 0, d => d
  | limit + 1, d =>
    if d.digits ≠ 0 ∧ d.digits % 10 = 0 then stripZeros limit ⟨d.digits / 10, d.exponent + 1⟩ else d

end DecimalDigits

namespace Magnitude

/-! ## §1. The scale of the leading digit. -/

/-- Whether the magnitude lies below `10 ^ k`. -/
def belowPowerOfTen (x : Magnitude) (k : Int) : Bool :=
  x.numerator * 10 ^ (-k).toNat < 10 ^ k.toNat * x.denominator

/-- The least `k` with `x < 10 ^ k`.  The binary logarithm fixes it up to two places. -/
def decimalScale (x : Magnitude) : Int :=
  let guess := (floorLog2 x.numerator x.denominator) * 301030 / 1000000
  if x.belowPowerOfTen guess then guess
  else if x.belowPowerOfTen (guess + 1) then guess + 1
  else guess + 2

/-! ## §2. The search. -/

/-- The digits of `x` on the grid `10 ^ exponent`, if a neighbour on that grid reads back. -/
def digitsOnGrid? (x : Magnitude) (exponent : Int) : Option DecimalDigits :=
  let unit := 10 ^ exponent.toNat * x.denominator
  let value := x.numerator * 10 ^ (-exponent).toNat
  let below := value / unit
  match decide (ofDecimal below exponent = x), decide (ofDecimal (below + 1) exponent = x) with
  | true, true =>
    if 2 * (value % unit) < unit then some ⟨below, exponent⟩ else some ⟨below + 1, exponent⟩
  | true, false => some ⟨below, exponent⟩
  | false, true => some ⟨below + 1, exponent⟩
  | false, false => none

/-- All digits of `x`: the value itself, without rounding. -/
def exactDigits (x : Magnitude) : DecimalDigits :=
  ⟨x.significand * 2 ^ x.exponent.toNat * 5 ^ (-x.exponent).toNat, min x.exponent 0⟩

/-- The digits of `x` on the coarsest grid that reads back. -/
def shortestDigits (x : Magnitude) : DecimalDigits :=
  if x.significand = 0 then ⟨0, 0⟩
  else
    let scale := x.decimalScale
    match (List.range 17).findSome? (fun n : Nat => x.digitsOnGrid? (scale - (n + 1))) with
    | some d => d.stripZeros 20
    | none => x.exactDigits

end Magnitude

end ShapeEstimator.Binary64
