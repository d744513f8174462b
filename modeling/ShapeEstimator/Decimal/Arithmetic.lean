/-
  ShapeEstimator.Decimal.Arithmetic
  ────────────────────────────────
  **SUMS AND PRODUCTS.**

  An operation forms the exact result over the integers and cuts it to size:

      fit sign m s  =  the decimal nearest to ± m · 10 ^ (-s)

  `fit` drops the fewest digits that bring the coefficient below 2^96 and the
  scale to 28, a tie going to the even neighbour.  It fails when digits before
  the point would have to go.
-/
import ShapeEstimator.Decimal.Constant
import ShapeEstimator.Rounding

namespace ShapeEstimator.Decimal

/-! ## §1. Cutting to size. -/

/-- How many digits `m` has too many for a coefficient. -/
def surplusDigits (m : Nat) : Nat :=
  if _h : m < 2 ^ 96 then 0 else surplusDigits (m / 10) + 1
termination_by m

/-- The number `± m · 10 ^ (-s)`, rounded to the digits there is room for. -/
def fit (negative : Bool) (m s : Nat) : Option Decimal :=
  let k := Nat.max (s - maxScale) (surplusDigits m)
  if s < k then none
  else if dropDigits m k < limit then make? negative (dropDigits m k) (s - k)
  else if s = k then none
  else make? negative (dropDigits (dropDigits m k) 1) (s - k - 1)

/-! ## §2. Sum and difference. -/

/-- The sum.  A zero operand leaves the other one as it is. -/
def add (x y : Decimal) : Option Decimal :=
  if x.isZero then some y
  else if y.isZero then some x
  else
    let s := Nat.max x.scale y.scale
    let total := x.unitsAt s + y.unitsAt s
    (fit (total < 0) total.natAbs s).map clean

/-- The difference.  A zero operand leaves the other one, with its sign turned on the right. -/
def sub (x y : Decimal) : Option Decimal :=
  if x.isZero then some (if y.isZero then y else y.neg)
  else if y.isZero then some x
  else
    let s := Nat.max x.scale y.scale
    let total := x.unitsAt s - y.unitsAt s
    (fit (total < 0) total.natAbs s).map clean

/-! ## §3. Product. -/

/-- The product.  Two coefficients of 32 bits whose scales add to more than 47 give a plain zero;
a larger product that is rounded to zero keeps its sign. -/
def mul (x y : Decimal) : Option Decimal :=
  if x.isZero || y.isZero then some zero
  else
    let negative := x.negative != y.negative
    let product := x.coefficient * y.coefficient
    let s := x.scale + y.scale
    if x.coefficient < 2 ^ 32 ∧ y.coefficient < 2 ^ 32 then
      if 47 < s then some zero else (fit negative product s).map clean
    else fit negative product s

end ShapeEstimator.Decimal
