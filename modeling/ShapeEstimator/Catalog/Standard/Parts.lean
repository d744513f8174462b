/-
  ShapeEstimator.Catalog.Standard.Parts
  ────────────────────────────────
  **WHAT STANDARD SHAPES SHARE.**

  Lengths are in millimetres, areas and volumes in their squares and cubes, and
  weights in kilograms: volume times density over 10^9.  The parameter `t` is the
  thickness of the wall, and `a` is the allowance around a blank.
-/
import ShapeEstimator.Catalog.Shape

namespace ShapeEstimator.Standard

/-! ## §1. Formulas. -/

/-- The finished volume. -/
def volume (expression : String) (declared : List String) : Formula.Definition :=
  { expression, declared, unit := "mm³", description := "Finished volume" }

/-- The finished weight, from the expression of the volume. -/
def weight (volume : String) (declared : List String) : Formula.Definition :=
  let f : Formula.Definition :=
    { expression := "(" ++ volume ++ ") * density / 1e9", declared, unit := "kg"
      description := "Finished weight" }
  f.withDensity.withExpectedRange 0.001 500000 "Unusual finished weight"

/-- An area. -/
def area (expression : String) (declared : List String) (description : String) :
    Formula.Definition :=
  { expression, declared, unit := "mm²", description }

/-- A length. -/
def length (expression : String) (declared : List String) (description : String) :
    Formula.Definition :=
  { expression, declared, unit := "mm", description }

/-- The share of a blank that is lost. -/
def scrapShare (expression : String) (declared : List String) : Formula.Definition :=
  { expression, declared, unit := "%", description := "Share of the blank lost as scrap" }

/-! ## §2. Parameters. -/

/-- A required length within bounds. -/
def dimension (name label : String) (lower upper : Float) : Parameter :=
  (Parameter.numeric name label "mm").withRange lower upper

/-- The thickness of the wall. -/
def thickness : Parameter := (dimension "t" "Thickness" 0.5 300).withDefault 10

/-- The allowance around a blank. -/
def allowance : Parameter :=
  ((dimension "a" "Cutting Allowance" 0 100).withDefault 5).optional

/-! ## §3. Blanks. -/

/-- A circular blank. -/
def circularBlank (diameter : String) (declared : List String) (description : String) :
    BlankSpec :=
  { blankShape := .circular
    dimensions := .ofList [("diameter", length diameter declared "Blank diameter")]
    description }

/-- A rectangular blank. -/
def rectangularBlank (blankLength : String) (lengthVariables : List String) (blankWidth : String)
    (widthVariables : List String) (description : String) : BlankSpec :=
  { blankShape := .rectangular
    dimensions := .ofList
      [("length", length blankLength lengthVariables "Blank length"),
        ("width", length blankWidth widthVariables "Blank width")]
    description }

end ShapeEstimator.Standard
