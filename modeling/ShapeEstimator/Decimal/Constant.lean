/-
  ShapeEstimator.Decimal.Constant
  ────────────────────────────────
  **CONSTANTS.**

  The constants of formulas and of the series behind their functions, each cut
  to the places that a decimal has.
-/
import ShapeEstimator.Decimal.Basic

namespace ShapeEstimator.Decimal

/-! ## §1. Small integers. -/

/-- Zero without places. -/
def zero : Decimal := { negative := false, coefficient := 0, scale := 0 }

/-- One. -/
def one : Decimal := { negative := false, coefficient := 1, scale := 0 }

/-- Two. -/
def two : Decimal := { negative := false, coefficient := 2, scale := 0 }

/-- Three. -/
def three : Decimal := { negative := false, coefficient := 3, scale := 0 }

/-- Ten. -/
def ten : Decimal := { negative := false, coefficient := 10, scale := 0 }

instance : Inhabited Decimal := ⟨zero⟩

/-! ## §2. Exponentials and logarithms. -/

/-- Euler's number to 28 places. -/
def e : Decimal :=
  { negative := false, coefficient := 27182818284590452353602874714, scale := 28 }

/-- The inverse of Euler's number. -/
def inverseE : Decimal :=
  { negative := false, coefficient := 3678794411714423215955237702, scale := 28 }

/-- The natural logarithm of ten. -/
def lnTen : Decimal :=
  { negative := false, coefficient := 2302585092994045684017991454, scale := 27 }

/-- The logarithm of e to base ten. -/
def log10OfE : Decimal :=
  { negative := false, coefficient := 4342944819032518276511289189, scale := 28 }

/-! ## §3. Angles. -/

/-- The degrees of a half turn. -/
def halfTurnDegrees : Decimal := { negative := false, coefficient := 180, scale := 0 }

/-- The number π to 28 places. -/
def pi : Decimal :=
  { negative := false, coefficient := 31415926535897932384626433833, scale := 28 }

/-- The angle 2π. -/
def fullTurn : Decimal :=
  { negative := false, coefficient := 62831853071795864769252867666, scale := 28 }

/-- The angle π/2. -/
def quarterTurn : Decimal :=
  { negative := false, coefficient := 15707963267948966192313216916, scale := 28 }

/-- The angle π/4. -/
def eighthTurn : Decimal :=
  { negative := false, coefficient := 7853981633974483096156608458, scale := 28 }

/-- The angle π/8. -/
def sixteenthTurn : Decimal :=
  { negative := false, coefficient := 3926990816987241548078304229, scale := 28 }

/-- The coefficients of the polynomial `x + x³ / 3 + 2 x⁵ / 15 + …` behind the first, with their
exponents. -/
def tanCoefficients : List (Decimal × Nat) :=
  [ ({ negative := false, coefficient := 3333333333333333333333333333, scale := 28 }, 3)
  , ({ negative := false, coefficient := 1333333333333333333333333333, scale := 28 }, 5)
  , ({ negative := false, coefficient := 53968253968253968253968254, scale := 27 }, 7)
  , ({ negative := false, coefficient := 218694885361552028218694885, scale := 28 }, 9)
  , ({ negative := false, coefficient := 88632355299021965688632355, scale := 28 }, 11)
  , ({ negative := false, coefficient := 35921280365724810169254614, scale := 28 }, 13) ]

end ShapeEstimator.Decimal
