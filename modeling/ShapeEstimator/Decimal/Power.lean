/-
  ShapeEstimator.Decimal.Power
  ────────────────────────────────
  **POWERS WITH INTEGER EXPONENT.**

  A power is taken by repeated squaring, from the low bit of the exponent up.
  Every product is rounded; from exponent 1024 on the products are wide ones.
-/
import ShapeEstimator.Decimal.Division
import ShapeEstimator.Decimal.Integral
import ShapeEstimator.Decimal.Wide

namespace ShapeEstimator.Decimal

/-! ## §1. Repeated squaring. -/

/-- Multiplies `product` by `power ^ n`, where products may fail.  The power is squared once for
each further bit of `n`. -/
def bySquaring {α : Type} (mul : α → α → Option α) (product power : α) (n : Nat) : Option α :=
  (if n % 2 = 1 then mul product power else some product).bind fun product =>
    if _h : n / 2 = 0 then some product
    else (mul power power).bind fun square => bySquaring mul product square (n / 2)
termination_by n

/-! ## §2. Powers of decimals. -/

/-- The least exponent for which products are wide. -/
def wideExponent : Nat := 1024

/-- The power with a natural number as exponent. -/
def powNat (base : Decimal) (n : Nat) : Option Decimal :=
  if n = 0 then some one
  else if base.isZero then some zero
  else if base.sameValue one then some one
  else if n = 1 then some base
  else if n = 2 then base.mul base
  else if n < wideExponent then (bySquaring mul one base n).map norm
  else
    (bySquaring Wide.mul Wide.one (Wide.ofDecimal base) n).bind fun w => w.toDecimal?.map norm

/-- The power with an integer as exponent: the inverse of the positive power where the exponent is
negative, and nothing where that power is zero. -/
def powInt (base : Decimal) (n : Int) : Option Decimal :=
  if 0 ≤ n then base.powNat n.toNat
  else
    (base.powNat (-n).toNat).bind fun p => if p.isZero then none else one.div p

end ShapeEstimator.Decimal
