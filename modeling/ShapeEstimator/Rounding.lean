/-
  ShapeEstimator.Rounding
  ────────────────────────────────
  **ROUNDING A QUOTIENT OF NATURALS.**

  Decimal coefficients and binary significands are both natural numbers that
  stand for a quotient cut to a grid.  Two tie rules are in use:

      nearestEven a b   — a tie goes to the even neighbour
      nearestUp   a b   — a tie goes to the upper neighbour

  Away from a tie both give the neighbour that is nearer to `a / b`.
-/
import ShapeEstimator.Power

namespace ShapeEstimator

/-! ## §1. The two tie rules. -/

/-- The quotient `a / b` rounded to the nearest natural number, a tie to the even one. -/
def nearestEven (a b : Nat) : Nat :=
  if b < 2 * (a % b) ∨ (2 * (a % b) = b ∧ a / b % 2 = 1) then a / b + 1 else a / b

/-- The quotient `a / b` rounded to the nearest natural number, a tie to the upper one. -/
def nearestUp (a b : Nat) : Nat :=
  if b ≤ 2 * (a % b) then a / b + 1 else a / b

/-! ## §2. Bounds. -/

theorem nearestEven_le_succ (a b : Nat) : nearestEven a b ≤ a / b + 1 := by
  unfold nearestEven; split <;> omega

theorem nearestUp_le_succ (a b : Nat) : nearestUp a b ≤ a / b + 1 := by
  unfold nearestUp; split <;> omega

/-! ## §3. Decimal places. -/

/-- Drops `k` decimal digits of `m`, rounding to nearest with ties to even. -/
def dropDigits (m k : Nat) : Nat :=
  nearestEven m (10 ^ k)

@[simp] theorem dropDigits_zero (m : Nat) : dropDigits m 0 = m := by
  simp [dropDigits, nearestEven, Nat.mod_one]

end ShapeEstimator
