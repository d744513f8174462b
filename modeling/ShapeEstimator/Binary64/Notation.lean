/-
  ShapeEstimator.Binary64.Notation
  ────────────────────────────────
  **DOUBLES INSIDE MESSAGES.**

  Messages write a double with its shortest digits and never with an exponent:
  `1000000000000000000000`, `0.0000001`, `-0`.  Where a message fixes the number
  of places, the exact binary value is rounded, a tie going to even, and the
  sign stays even if all digits are zero.
-/
import ShapeEstimator.Binary64.Shortest
import ShapeEstimator.Text.Positional

namespace ShapeEstimator.Binary64

/-- The text of a double that is not finite. -/
def nonFiniteText (x : Float) : String :=
  if x.isNaN then "NaN" else if signBit x then "-inf" else "inf"

/-- The shortest digits of a double, written positionally. -/
def plainText (x : Float) : String :=
  match magnitude? x with
  | none => nonFiniteText x
  | some m =>
    let d := m.shortestDigits
    String.ofList (Text.signed (signBit x) (Text.positional d.digits d.exponent))

/-- A double rounded to the given number of places. -/
def fixedText (places : Nat) (x : Float) : String :=
  match magnitude? x with
  | none => nonFiniteText x
  | some m =>
    String.ofList (Text.signed (signBit x)
      (Text.fixedPoint (nearestEven (m.numerator * 10 ^ places) m.denominator) places))

end ShapeEstimator.Binary64
