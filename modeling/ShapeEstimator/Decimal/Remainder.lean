/-
  ShapeEstimator.Decimal.Remainder
  ────────────────────────────────
  **REMAINDERS.**

  Both operands are brought to the larger of their scales; the remainder is that
  of the two integers, with the sign of the dividend.

  A divisor of more than 64 bits is divided by in words of 32 bits.  Its highest
  bit is moved to the top of three words, the dividend goes along, and the words
  of the dividend are taken in one by one.  A quotient digit is one word.  Where
  dividend and divisor have the same leading word the digit may need a bit more,
  and the leading word of the dividend is lost with that bit:

      nextRemainder d r w  =  (r · 2^32 + w) mod d        — leading words differ
                           =  ((r · 2^32 + w) mod 2^96) mod d        — they agree
-/
import ShapeEstimator.Decimal.Constant

namespace ShapeEstimator.Decimal

/-! ## §1. Division in words. -/

/-- The remainder by a divisor of three words after one more word of the dividend, from the
remainder before it. -/
def nextRemainder (divisor remainder word : Nat) : Nat :=
  let part := remainder * 2 ^ 32 + word
  if part / 2 ^ 96 = divisor / 2 ^ 64 then part % 2 ^ 96 % divisor else part % divisor

/-- The remainder of a number whose words are taken in from the highest to the lowest. -/
def wordRemainder (divisor n : Nat) : Nat :=
  if _h : n < 2 ^ 32 then nextRemainder divisor 0 n
  else nextRemainder divisor (wordRemainder divisor (n / 2 ^ 32)) (n % 2 ^ 32)
termination_by n
decreasing_by exact Nat.div_lt_self (by omega) (by decide)

/-! ## §2. Remainders of integers. -/

/-- How far the highest bit of a number is below the top of three words. -/
def headroom (n : Nat) : Nat := 95 - n.log2

/-- The remainder of two integers. -/
def integerRemainder (a b : Nat) : Nat :=
  if b < 2 ^ 64 then a % b
  else wordRemainder (b * 2 ^ headroom b) (a * 2 ^ headroom b) / 2 ^ headroom b

/-! ## §3. Remainders of decimals. -/

/-- The remainder of a division that goes toward zero, with the sign of the dividend.  The divisor
is not zero. -/
def rem (x y : Decimal) : Option Decimal :=
  if x.isZero then some zero
  else
    let s := Nat.max x.scale y.scale
    let a := (x.unitsAt s).natAbs
    let b := (y.unitsAt s).natAbs
    if a = b then some zero
    else if a < b then some x.clean
    else (make? x.negative (integerRemainder a b) s).map clean

end ShapeEstimator.Decimal
