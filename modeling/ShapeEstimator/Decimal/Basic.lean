/-
  ShapeEstimator.Decimal.Basic
  ────────────────────────────────
  **DECIMAL NUMBERS OF BOUNDED SIZE.**

  Formulas are computed in decimal.  A decimal is a sign, a coefficient below
  2^96 and a scale of at most 28 places; its value is

      ± coefficient · 10 ^ (-scale)

  The scale is part of the number: `2.5` and `2.50` are equal in value and are
  written differently.  A zero may carry a minus sign.
-/
import ShapeEstimator.Power

namespace ShapeEstimator

/-! ## §1. The type. -/

/-- The number `± coefficient · 10 ^ (-scale)`. -/
structure Decimal where
  /-- Whether the number carries a minus sign; a zero may. -/
  negative : Bool
  /-- The digits, as one natural number. -/
  coefficient : Nat
  /-- The number of digits behind the point. -/
  scale : Nat
  /-- The coefficient has 96 bits. -/
  coefficient_lt : coefficient < 2 ^ 96 := by decide
  /-- There are at most 28 places. -/
  scale_le : scale ≤ 28 := by decide
  deriving DecidableEq, Repr

namespace Decimal

/-- The least coefficient that is out of range. -/
abbrev limit : Nat := 2 ^ 96

/-- The greatest scale. -/
abbrev maxScale : Nat := 28

/-- An integer has no places. -/
theorem zero_le_maxScale : 0 ≤ 28 := by decide

/-- There is room for a place. -/
theorem one_le_maxScale : 1 ≤ 28 := by decide

/-- The decimal with the given parts, if they are in range. -/
def make? (negative : Bool) (coefficient scale : Nat) : Option Decimal :=
  if h : coefficient < 2 ^ 96 ∧ scale ≤ 28 then
    some { negative, coefficient, scale, coefficient_lt := h.1, scale_le := h.2 }
  else none

/-! ## §2. Signs. -/

/-- Whether the value is zero, whatever the sign and the scale. -/
def isZero (x : Decimal) : Bool := x.coefficient == 0

/-- The number with its sign turned; a zero turns its sign too. -/
def neg (x : Decimal) : Decimal := { x with negative := !x.negative }

/-- The number without its sign. -/
def abs (x : Decimal) : Decimal := { x with negative := false }

/-- A zero loses its minus sign. -/
def clean (x : Decimal) : Decimal := if x.isZero then { x with negative := false } else x

/-! ## §3. Order. -/

/-- The value in units of `10 ^ (-places)`, for `places` at least the scale. -/
def unitsAt (x : Decimal) (places : Nat) : Int :=
  let magnitude : Int := ((x.coefficient * 10 ^ (places - x.scale) : Nat) : Int)
  if x.negative then -magnitude else magnitude

/-- Whether the value of `x` is at most that of `y`. -/
def le (x y : Decimal) : Bool :=
  x.unitsAt (max x.scale y.scale) ≤ y.unitsAt (max x.scale y.scale)

/-- Whether the value of `x` is less than that of `y`. -/
def lt (x y : Decimal) : Bool :=
  x.unitsAt (max x.scale y.scale) < y.unitsAt (max x.scale y.scale)

/-- Whether the values are equal; the scales and the sign of a zero do not matter. -/
def sameValue (x y : Decimal) : Bool :=
  x.unitsAt (max x.scale y.scale) = y.unitsAt (max x.scale y.scale)

/-- The smaller of two numbers, the first of two equal ones. -/
def min (x y : Decimal) : Decimal := if y.lt x then y else x

/-- The greater of two numbers, the first of two equal ones. -/
def max (x y : Decimal) : Decimal := if x.lt y then y else x

end Decimal

end ShapeEstimator
