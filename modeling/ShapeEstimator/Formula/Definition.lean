/-
  ShapeEstimator.Formula.Definition
  ────────────────────────────────
  **FORMULA DEFINITIONS.**

  A formula is an expression with its declared variables and a unit.  It may
  need the density of the material, under the name `density`, and it may state
  the range its result is expected in.  A result outside is reported, not refused.
-/
import ShapeEstimator.Binary64.Notation
import ShapeEstimator.NameMap

namespace ShapeEstimator.Formula

/-! ## §1. Definitions. -/

/-- The name that stands for the density of the material. -/
def densityVariable : String := "density"

/-- The range a result is expected in. -/
structure ExpectedRange where
  /-- The least expected result. -/
  min : Float
  /-- The greatest expected result. -/
  max : Float
  /-- What to say about a result outside, if not the usual message. -/
  warning : Option String
  deriving Repr, DecidableEq

/-- Whether a result is in the range, bounds included. -/
def ExpectedRange.contains (r : ExpectedRange) (value : Float) : Bool :=
  decide (r.min ≤ value) && decide (value ≤ r.max)

/-- A formula. -/
structure Definition where
  /-- The text of the expression. -/
  expression : String
  /-- The declared variables. -/
  declared : List String
  /-- The unit of the result. -/
  unit : String
  /-- What the formula computes. -/
  description : String := ""
  /-- Whether the density of the material must be known. -/
  requiresDensity : Bool := false
  /-- The range the result is expected in. -/
  expectedRange : Option ExpectedRange := none
  deriving Repr, DecidableEq

namespace Definition

/-- The formula with a description. -/
def describe (f : Definition) (description : String) : Definition := { f with description }

/-- The formula with the density required, and declared if it was not. -/
def withDensity (f : Definition) : Definition :=
  { f with
    requiresDensity := true
    declared :=
      if densityVariable ∈ f.declared then f.declared else f.declared ++ [densityVariable] }

/-- The formula with an expected range and its message. -/
def withExpectedRange (f : Definition) (min max : Float) (warning : String) : Definition :=
  { f with expectedRange := some { min, max, warning := some warning } }

end Definition

/-! ## §2. Results. -/

/-- A result outside its expected range. -/
structure RangeWarning where
  /-- The text of the expression. -/
  expression : String
  /-- The result. -/
  value : Float
  /-- The least expected result. -/
  min : Float
  /-- The greatest expected result. -/
  max : Float
  /-- What to say about it. -/
  message : String
  deriving Repr, DecidableEq

/-- The warning as one line of text. -/
def RangeWarning.describe (w : RangeWarning) : String :=
  w.message ++ " (value " ++ Binary64.plainText w.value ++ " outside ["
    ++ Binary64.plainText w.min ++ ", " ++ Binary64.plainText w.max ++ "] for '"
    ++ w.expression ++ "')"

/-- The message about a result whose range has none of its own. -/
def usualRangeMessage : String := "Result outside expected range"

/-- The warning about a result, if it is outside the range of its formula. -/
def Definition.rangeWarning? (f : Definition) (value : Float) : Option RangeWarning :=
  f.expectedRange.bind fun r =>
    if r.contains value then none
    else some
      { expression := f.expression, value, min := r.min, max := r.max
        message := r.warning.getD usualRangeMessage }

/-- The result of a formula. -/
structure EvaluationResult where
  /-- The value. -/
  result : Float
  /-- The unit of the formula. -/
  unit : String
  /-- The text of the expression. -/
  expression : String
  /-- The declared variables and their values. -/
  boundValues : NameMap Float
  /-- The warning about a result outside its range. -/
  rangeWarning : Option RangeWarning
  deriving Repr, DecidableEq

end ShapeEstimator.Formula
