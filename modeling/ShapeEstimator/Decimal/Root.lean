/-
  ShapeEstimator.Decimal.Root
  ────────────────────────────────
  **ROOTS BY NEWTON'S METHOD.**

      sqrt   — the step  x ↦ (x + v / x) / 2  until it changes nothing
      cbrt   — three steps  y ↦ y - (y³ - x) / (3 y²)  from the cube root of a double
-/
import ShapeEstimator.Binary64.CubeRoot
import ShapeEstimator.Decimal.Division
import ShapeEstimator.Decimal.Double

namespace ShapeEstimator.Decimal

/-! ## §1. Square root. -/

/-- Why there is no square root. -/
inductive SquareRootFault where
  /-- The number has a minus sign. -/
  | negative
  /-- The approximations do not come to rest. -/
  | unsettled
  deriving DecidableEq, Repr

/-- The Newton step toward the square root of `v`. -/
def sqrtStep (v x : Decimal) : Option Decimal :=
  if x.isZero then none
  else (v.div x).bind fun q => (x.add q).bind fun s => s.div two

/-- How many approximations a square root may take. -/
def sqrtSteps : Nat := 1000

/-- Newton steps toward the square root of `v`, until one of them changes nothing.  There is no
root if the approximations are used up before. -/
def sqrtFrom (v : Decimal) : Nat → (last x : Decimal) → Option Decimal
  | 0, _, _ => none
  | steps + 1, last, x =>
    if last.sameValue x then some x else (sqrtStep v x).bind fun next => sqrtFrom v steps x next

/-- The first approximation of the square root of `v`: its half, or the number itself where the
half is rounded to zero. -/
def sqrtStart (v : Decimal) : Option Decimal :=
  (v.div two).map fun half => if half.isZero then v else half

/-- The square root; there is none for a number with a minus sign, a zero with one included. -/
def sqrt (v : Decimal) : Except SquareRootFault Decimal :=
  if v.negative then .error .negative
  else if v.isZero then .ok zero
  else
    match (sqrtStart v).bind fun start =>
        (start.add one).bind fun last => sqrtFrom v sqrtSteps last start with
    | some root => .ok root
    | none => .error .unsettled

/-! ## §2. Cube root. -/

/-- Why a cube root was not found. -/
inductive CubeRootFault where
  /-- The first approximation is out of range. -/
  | noApproximation
  /-- The square of an approximation is out of range. -/
  | squareTooBig
  deriving DecidableEq, Repr

/-- The correction of one Newton step for the cube root of `x`, from an approximation and its
square. -/
def cbrtCorrection (x y square : Decimal) : Option Decimal :=
  (square.mul y).bind fun cube =>
    (cube.sub x).bind fun residual =>
      (square.mul three).bind fun slope =>
        if slope.isZero then none else residual.div slope

/-- Newton steps for the cube root of `x`.  An approximation that has no correction stays. -/
def cbrtFrom (x : Decimal) : Nat → Decimal → Except CubeRootFault Decimal
  | 0, y => .ok y
  | steps + 1, y =>
    match y.mul y with
    | none => .error .squareTooBig
    | some square =>
      match (cbrtCorrection x y square).bind y.sub with
      | none => .ok y
      | some next => cbrtFrom x steps next

/-- The cube root. -/
def cbrt (x : Decimal) : Except CubeRootFault Decimal :=
  if x.isZero then .ok zero
  else
    match lift? (Binary64.cubeRoot x.lower) with
    | none => .error .noApproximation
    | some start => cbrtFrom x 3 start

end ShapeEstimator.Decimal
