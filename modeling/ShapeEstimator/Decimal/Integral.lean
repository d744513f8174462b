/-
  ShapeEstimator.Decimal.Integral
  ────────────────────────────────
  **WHOLE PARTS AND NORMAL FORM.**

  The whole part goes toward zero and keeps the sign, so the whole part of
  `-0.5` is a zero with a minus sign.  The normal form of a number is its
  shortest one: no trailing zeros behind the point, and no sign on a zero.
-/
import ShapeEstimator.Decimal.Arithmetic

namespace ShapeEstimator.Decimal

/-! ## §1. Whole parts. -/

/-- The part before the point, with the sign of the number. -/
def trunc (x : Decimal) : Decimal where
  negative := x.negative
  coefficient := x.coefficient / 10 ^ x.scale
  scale := 0
  coefficient_lt := Nat.lt_of_le_of_lt (Nat.div_le_self ..) x.coefficient_lt
  scale_le := zero_le_maxScale

/-- Whether there is a non-zero digit behind the point. -/
def hasFraction (x : Decimal) : Bool := x.coefficient % 10 ^ x.scale != 0

/-- A coefficient that lost at least one digit has room for one more unit. -/
theorem div_pow_scale_lt (x : Decimal) (h : x.scale ≠ 0) :
    x.coefficient / 10 ^ x.scale + 1 < 2 ^ 96 := by
  have hc := x.coefficient_lt
  have hp : 10 ≤ 10 ^ x.scale := Nat.le_self_pow h 10
  have : x.coefficient / 10 ^ x.scale ≤ x.coefficient / 10 := Nat.div_le_div_left hp (by decide)
  omega

/-- The integer next to the whole part, away from zero. -/
def awayFromZero (x : Decimal) (h : x.scale ≠ 0) : Decimal where
  negative := x.negative
  coefficient := x.coefficient / 10 ^ x.scale + 1
  scale := 0
  coefficient_lt := x.div_pow_scale_lt h
  scale_le := zero_le_maxScale

/-- The greatest integer that is at most the number; an integer stays as it is. -/
def floor (x : Decimal) : Decimal :=
  if h : x.scale = 0 then x
  else if x.negative && x.hasFraction then x.awayFromZero h
  else x.trunc

/-- The least integer that is at least the number; an integer stays as it is. -/
def ceil (x : Decimal) : Decimal :=
  if h : x.scale = 0 then x
  else if !x.negative && x.hasFraction then x.awayFromZero h
  else x.trunc

/-- The nearest integer, a half going away from zero; an integer stays as it is.  A number that is
rounded to zero loses its sign, a zero keeps it. -/
def round (x : Decimal) : Decimal :=
  if h : x.scale = 0 then x
  else if x.isZero then x.trunc
  else if 10 ^ x.scale ≤ 2 * (x.coefficient % 10 ^ x.scale) then x.awayFromZero h
  else x.trunc.clean

/-- The whole part as an integer, if it has 64 bits with a sign. -/
def toInt64? (x : Decimal) : Option Int :=
  let n := x.trunc.unitsAt 0
  if -2 ^ 63 ≤ n ∧ n < 2 ^ 63 then some n else none

/-! ## §2. Normal form. -/

/-- A coefficient and a scale without trailing zeros behind the point. -/
def trimmed (coefficient : Nat) : Nat → Nat × Nat
  | 0 => (coefficient, 0)
  | scale + 1 =>
    if coefficient % 10 = 0 then trimmed (coefficient / 10) scale else (coefficient, scale + 1)

theorem trimmed_fst_le (coefficient scale : Nat) : (trimmed coefficient scale).1 ≤ coefficient := by
  induction scale generalizing coefficient with
  | zero => exact Nat.le_refl _
  | succ scale ih =>
    unfold trimmed
    split
    · exact Nat.le_trans (ih _) (Nat.div_le_self ..)
    · exact Nat.le_refl _

theorem trimmed_snd_le (coefficient scale : Nat) : (trimmed coefficient scale).2 ≤ scale := by
  induction scale generalizing coefficient with
  | zero => exact Nat.le_refl _
  | succ scale ih =>
    unfold trimmed
    split
    · exact Nat.le_succ_of_le (ih _)
    · exact Nat.le_refl _

/-- The same value with the smallest scale; a zero is the plain one. -/
def norm (x : Decimal) : Decimal :=
  if x.isZero then zero
  else
    { negative := x.negative
      coefficient := (trimmed x.coefficient x.scale).1
      scale := (trimmed x.coefficient x.scale).2
      coefficient_lt := Nat.lt_of_le_of_lt (trimmed_fst_le ..) x.coefficient_lt
      scale_le := Nat.le_trans (trimmed_snd_le ..) x.scale_le }

end ShapeEstimator.Decimal
