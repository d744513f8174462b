/-
  ShapeEstimator.Decimal.Division
  ────────────────────────────────
  **QUOTIENTS.**

  Long division, up to nine digits at a time.  The state is a quotient so far, a
  remainder and a scale.  Digits are taken while there is a remainder and room
  in the coefficient and in the scale; what is left then is rounded, a tie going
  to even.  A quotient that did not come out even at the first digit loses its
  trailing zeros in blocks of 8, 4, 2 and 1, as far as the powers of two in it
  allow.
-/
import ShapeEstimator.Decimal.Arithmetic

namespace ShapeEstimator.Decimal

/-! ## §1. Rounding the last digit. -/

/-- A quotient with the scale it is read at. -/
structure ScaledQuotient where
  /-- The digits of the quotient. -/
  quotient : Nat
  /-- The number of places, negative while digits before the point are missing. -/
  scale : Int
  /-- Whether a remainder was left at some step. -/
  inexact : Bool

namespace ScaledQuotient

/-- Drops the last digit of a quotient that has one digit too many; `sticky` tells that there is
something behind it. -/
def shrink (q : ScaledQuotient) (sticky : Bool) : Option ScaledQuotient :=
  if q.scale < 1 then none
  else
    let digit := q.quotient % 10
    let whole := q.quotient / 10
    let up := 5 < digit || (digit == 5 && (sticky || whole % 2 == 1))
    some { q with quotient := if up then whole + 1 else whole, scale := q.scale - 1 }

/-- Rounds a quotient by the remainder that is left of `divisor`. -/
def roundBy (q : ScaledQuotient) (remainder divisor : Nat) : Option ScaledQuotient :=
  if divisor < 2 * remainder ∨ (2 * remainder = divisor ∧ q.quotient % 2 = 1) then
    if q.quotient + 1 = limit then shrink { q with quotient := limit } true
    else some { q with quotient := q.quotient + 1 }
  else some q

end ScaledQuotient

/-! ## §2. Long division. -/

/-- How many digits the next step may take: at most nine, at most what the scale leaves, and so
few that the quotient stays in range. -/
def nextDigits (quotient : Nat) (scale : Int) : Nat :=
  ((List.range 10).reverse.find? (fun p : Nat =>
    decide ((p : Int) ≤ maxScale - scale) && decide (quotient ≤ (limit - 1) / 10 ^ p))).getD 0

/-- Continues a division by `divisor` from a quotient and a remainder. -/
def longDivision (divisor quotient : Nat) (scale : Int) (inexact : Bool) (remainder : Nat) :
    Option ScaledQuotient :=
  if remainder = 0 then
    if _hs : 0 ≤ scale then some ⟨quotient, scale, inexact⟩
    else
      let p := Nat.min 9 (-scale).toNat
      if limit ≤ quotient * 10 ^ p then none
      else longDivision divisor (quotient * 10 ^ p) (scale + p) inexact 0
  else
    let p := nextDigits quotient scale
    if p < 9 ∧ p + scale < 0 then none
    else if _hp : 28 ≤ scale ∨ p = 0 then
      ScaledQuotient.roundBy ⟨quotient, scale, true⟩ remainder divisor
    else
      let left := remainder * 10 ^ p
      let next := quotient * 10 ^ p + left / divisor
      if limit ≤ next then ScaledQuotient.shrink ⟨next, scale + p, true⟩ (left % divisor != 0)
      else longDivision divisor next (scale + p) true (left % divisor)
termination_by (28 - scale).toNat
decreasing_by
  · have : 1 ≤ p := Nat.le_min.2 ⟨by decide, by omega⟩
    omega
  · omega

/-! ## §3. Trailing zeros. -/

/-- Drops `n` trailing zeros where the quotient has them and the scale allows it; the multiple of
`twos` is a cheap test that comes first. -/
def dropZeros (twos n : Nat) (q : Nat × Nat) : Nat × Nat :=
  if q.1 % twos = 0 ∧ n ≤ q.2 ∧ q.1 % 10 ^ n = 0 then (q.1 / 10 ^ n, q.2 - n) else q

/-- Drops trailing zeros eight at a time, then four, two and one. -/
def stripQuotient (quotient scale : Nat) : Nat × Nat :=
  let eights := dropZeros (2 ^ 32) 8
  dropZeros 2 1 (dropZeros 4 2 (dropZeros 16 4 (eights (eights (eights (quotient, scale))))))

/-- The quotient.  The divisor is not zero. -/
def div (x y : Decimal) : Option Decimal :=
  if x.isZero then some zero
  else
    (longDivision y.coefficient (x.coefficient / y.coefficient) ((x.scale : Int) - y.scale) false
      (x.coefficient % y.coefficient)).bind fun q =>
      let parts := if q.inexact then stripQuotient q.quotient q.scale.toNat
        else (q.quotient, q.scale.toNat)
      (make? (x.negative != y.negative) parts.1 parts.2).map clean

end ShapeEstimator.Decimal
