/-
  ShapeEstimator.Binary64.Greater
  ────────────────────────────────
  **THE GREATER OF TWO DOUBLES.**

  NaN counts as nothing: the greater of NaN and a number is the number.  Of the
  two zeros the positive one is the greater.
-/
import ShapeEstimator.Binary64.Magnitude

namespace ShapeEstimator.Binary64

/-- The greater of two doubles. -/
def greater (x y : Float) : Float :=
  if x.isNaN then y
  else if y.isNaN then x
  else if x < y then y
  else if y < x then x
  else if signBit x then y
  else x

end ShapeEstimator.Binary64
