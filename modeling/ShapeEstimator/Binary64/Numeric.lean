/-
  ShapeEstimator.Binary64.Numeric
  ────────────────────────────────
  **DOUBLES GIVEN BY HAND.**

  A number that a person types may have a sign, may leave out the digits on one
  side of the point, and may be infinite or NaN.  A number too big for a double
  reads as infinite.
-/
import ShapeEstimator.Decimal.Numeral
import ShapeEstimator.Binary64.Magnitude

namespace ShapeEstimator.Binary64

/-- Not a number. -/
def nan : Float := 0 / 0

/-- Infinity with the given sign. -/
def infinity (negative : Bool) : Float := if negative then -1 / 0 else 1 / 0

/-- The double for a numeral. -/
def ofNumeral (negative : Bool) (n : Numeral) : Float :=
  let power : Int :=
    match n.power with
    | none => 0
    | some p => if p.negative then -(digitsValue p.digits : Int) else digitsValue p.digits
  ofDecimal negative (digitsValue (n.whole ++ n.fraction)) (power - n.fraction.length)

/-- The double of a text without a sign: a word for infinity or NaN in any case, or a numeral with
at least one digit beside its power. -/
def ofUnsigned? (negative : Bool) (cs : List Char) : Option Float :=
  let word := String.ofList (cs.map Char.toLower)
  if word = "inf" ∨ word = "infinity" then some (infinity negative)
  else if word = "nan" then some nan
  else
    let scanned := Numeral.scan cs
    if scanned.2 = [] ∧ scanned.1.whole ++ scanned.1.fraction ≠ [] then
      some (ofNumeral negative scanned.1)
    else none

/-- The double that a text stands for. -/
def ofText? (text : String) : Option Float :=
  let signed := Numeral.scanSign text.toList
  ofUnsigned? signed.1 signed.2

end ShapeEstimator.Binary64
