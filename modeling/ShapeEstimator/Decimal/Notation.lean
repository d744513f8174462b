/-
  ShapeEstimator.Decimal.Notation
  ────────────────────────────────
  **DECIMALS AS TEXT.**

  A decimal is written with exactly as many places as its scale says, so the
  text shows the scale as well as the value:  `2.50`, `0.00`, `-7`.
-/
import ShapeEstimator.Decimal.Integral
import ShapeEstimator.Text.Positional

namespace ShapeEstimator.Decimal

/-- The digits of a number with all places of its scale, and its sign. -/
def text (x : Decimal) : String :=
  String.ofList (Text.signed x.negative (Text.fixedPoint x.coefficient x.scale))

/-- The digits of the normal form of a number. -/
def shortText (x : Decimal) : String := x.norm.text

end ShapeEstimator.Decimal
