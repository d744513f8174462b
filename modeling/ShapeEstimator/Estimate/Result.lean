/-
  ShapeEstimator.Estimate.Result
  ────────────────────────────────
  **WHAT AN ESTIMATE SAYS.**

  The geometry of one piece, its cost item by item, the totals for all pieces,
  and what is worth knowing about them.
-/
import ShapeEstimator.Formula.Definition
import ShapeEstimator.Pricing.Settings

namespace ShapeEstimator

/-! ## §1. Geometry. -/

/-- Volume, areas, lengths and weights of one piece, in millimetres and kilograms. -/
structure Geometry where
  /-- The volume of the material. -/
  volume : Float
  /-- The finished weight. -/
  weight : Float
  /-- The whole surface. -/
  surfaceArea : Option Float := none
  /-- The inside surface. -/
  innerSurfaceArea : Option Float := none
  /-- The outside surface. -/
  outerSurfaceArea : Option Float := none
  /-- The surface in contact with contents. -/
  wettedArea : Option Float := none
  /-- The area of the blank. -/
  blankArea : Option Float := none
  /-- The area of the part in the plane of the blank. -/
  finishedArea : Option Float := none
  /-- The share of the blank that is lost, in percent. -/
  scrapPercentage : Option Float := none
  /-- The length of the edges to prepare. -/
  edgeLength : Option Float := none
  /-- The length of the welds. -/
  weldLength : Option Float := none
  /-- The length of the cuts. -/
  perimeter : Option Float := none
  /-- The weight of the scrap. -/
  scrapWeight : Option Float := none
  /-- The dimensions of the blank. -/
  blankDimensions : NameMap Float := .empty
  /-- The values of formulas for reports, under the names of entry and formula. -/
  customValues : NameMap Float := .empty
  deriving DecidableEq, Repr

/-! ## §2. Costs. -/

/-- The cost of one piece, item by item, and of all pieces. -/
structure Costs where
  /-- The finished weight at the price of the material. -/
  materialCost : Float
  /-- The weight with scrap at the price of the material. -/
  materialCostActual : Float
  /-- The credit for scrap. -/
  scrapRecoveryValue : Float
  /-- The cost of cutting. -/
  cuttingCost : Float
  /-- The cost of preparing edges. -/
  edgePreparationCost : Float
  /-- The cost of welding. -/
  weldingCost : Float
  /-- The cost of treating the surface. -/
  surfaceTreatmentCost : Float
  /-- The fixed cost with that of weight and labour. -/
  baseFabricationCost : Float
  /-- All cost of fabrication. -/
  totalFabricationCost : Float
  /-- The net cost of one piece. -/
  unitTotalCost : Float
  /-- The cost of all pieces. -/
  totalCost : Float
  /-- The net cost of one kilogram. -/
  effectiveCostPerKg : Float
  /-- The currency of all costs. -/
  currency : String
  /-- The rates of fabrication. -/
  fabricationRates : Rates
  /-- The factor of the wall's thickness. -/
  weldingThicknessMultiplier : Float
  deriving DecidableEq, Repr

/-! ## §3. Estimates. -/

/-- A parameter as it was used. -/
structure ParameterEcho where
  /-- The name. -/
  name : String
  /-- The value. -/
  value : Float
  /-- The unit, empty for a name that is no parameter of the shape. -/
  unit : String
  deriving DecidableEq, Repr

/-- An estimate. -/
structure Estimate where
  /-- The key of the shape. -/
  shapeKey : String
  /-- The name of the shape. -/
  shapeName : String
  /-- What identifies the material. -/
  materialId : String
  /-- The name of the material. -/
  materialName : String
  /-- The density that was used. -/
  density : Float
  /-- The given parameters. -/
  parameters : List ParameterEcho
  /-- The geometry of one piece. -/
  calculatedValues : Geometry
  /-- The costs. -/
  costEstimate : Costs
  /-- The number of pieces. -/
  quantity : Float
  /-- The weight of all pieces. -/
  totalWeight : Float
  /-- The cost of all pieces. -/
  totalCost : Float
  /-- What is worth knowing. -/
  warnings : List String := []
  /-- The results outside their expected ranges. -/
  rangeWarnings : List Formula.RangeWarning := []
  deriving DecidableEq, Repr

/-- Whether there is something worth knowing. -/
def Estimate.hasWarnings (e : Estimate) : Bool := !e.warnings.isEmpty

end ShapeEstimator
