/-
  ShapeEstimator.Estimate.Input
  ────────────────────────────────
  **WHAT AN ESTIMATE IS MADE FROM.**

  A shape, a material, values of parameters and a number of pieces.  Input that
  cannot be computed with is refused:

      quantity  ≺  parameter values, by name  ≺  density  ≺  structure of the shape
-/
import ShapeEstimator.Catalog.Structure
import ShapeEstimator.Pricing.Settings

namespace ShapeEstimator

/-- The input of an estimate. -/
structure EstimateInput where
  /-- The shape. -/
  shape : Shape
  /-- The material. -/
  material : Material
  /-- The values of parameters. -/
  parameterValues : NameMap Float := .empty
  /-- The number of pieces. -/
  quantity : Float := 1
  /-- The rates that are given. -/
  rateOverrides : Option RateOverrides := none
  deriving DecidableEq, Repr

namespace EstimateInput

/-! ## §1. Defaults. -/

/-- The input with the shape's default for each parameter that has no value. -/
def withDefaults (input : EstimateInput) : EstimateInput :=
  { input with
    parameterValues :=
      input.shape.defaultValues.entries.foldl
        (fun m e => if m.contains e.1 then m else m.insert e.1 e.2) input.parameterValues }

/-! ## §2. Checks. -/

/-- The first parameter, by name, whose value is not finite. -/
def badParameter? (input : EstimateInput) : Option (String × Float) :=
  input.parameterValues.entries.find? fun e => !e.2.isFinite

/-- The density of the material, if it is given and out of range. -/
def badDensity? (input : EstimateInput) : Option Float :=
  input.material.density.filter fun d => !Settings.isPositive d

/-- Refuses input that cannot be computed with. -/
def validate (input : EstimateInput) : Except Fault Unit :=
  if !Settings.isPositive input.quantity then
    .error (.invalidInput "quantity" (Binary64.plainText input.quantity)
      "must be a positive number")
  else
    match input.badParameter?, input.badDensity? with
    | some (name, value), _ =>
      .error (.invalidInput ("parameterValues." ++ name) (Binary64.plainText value)
        "must be a finite number")
    | none, some density =>
      .error (.invalidInput "material.density" (Binary64.plainText density)
        "must be a positive number")
    | none, none => input.shape.checkStructure

end EstimateInput

end ShapeEstimator
