/-
  ShapeEstimator.Estimate.Run
  ────────────────────────────────
  **FROM INPUT TO ESTIMATE.**

  Every plain formula of the shape is evaluated by itself.  Only a volume or a
  weight that is defined and has no value stops the estimate; anything else that
  fails is left out, and a rule or a formula that is aborted takes the estimate with
  it.  Scrap is charged by the area that the blank has beyond the part, at the
  thickness of the wall:

      scrap weight  =  max (0, (blank area - finished area) · t · density)
-/
import ShapeEstimator.Estimate.Input
import ShapeEstimator.Estimate.Result
import ShapeEstimator.Measure
import ShapeEstimator.Pricing.Resolution

namespace ShapeEstimator

open Formula (Outcomes RangeWarning)

/-! ## §1. Geometry. -/

namespace Geometry

/-- The geometry that named formulas give. -/
def ofOutcomes (o : Outcomes) : Geometry where
  volume := (o.value? "volume").getD 0
  weight := (o.value? "weight").getD 0
  surfaceArea := o.value? "surfaceArea"
  innerSurfaceArea := o.value? "innerSurfaceArea"
  outerSurfaceArea := o.value? "outerSurfaceArea"
  wettedArea := o.value? "wettedArea"
  blankArea := o.value? "blankArea"
  finishedArea := o.value? "finishedArea"
  scrapPercentage := o.value? "scrapPercentage"
  edgeLength := o.value? "edgeLength"
  weldLength := o.value? "weldLength"
  perimeter := o.value? "perimeter"

/-- A map with further values put in. -/
def putAll (m : NameMap Float) (es : List (String × Float)) : NameMap Float :=
  es.foldl (fun m e => m.insert e.1 e.2) m

/-- The values of formulas with a result. -/
def values (o : Outcomes) : List (String × Float) :=
  o.results.entries.map fun e => (e.1, e.2.result)

/-- The geometry with the values of a composite entry, from the outcomes of its formulas.  Dimensions
of a blank count only if all of them have a value. -/
def addOutcomes (g : Geometry) (entry : String × FormulaEntry) (o : Outcomes) : Geometry :=
  match entry.2 with
  | .formula _ => g
  | .blankDimensions _ =>
    if o.failures.entries.isEmpty then
      { g with blankDimensions := putAll g.blankDimensions (values o) }
    else g
  | .customFormulas _ =>
    { g with
      customValues :=
        putAll g.customValues ((values o).map fun e => (entry.1 ++ "." ++ e.1, e.2)) }

/-- The geometry with the values of one more composite entry. -/
def addComposite (context : NameMap Float) (density : Float) (g : Geometry)
    (entry : String × FormulaEntry) : Except Abort Geometry :=
  (entry.2.outcomes context (some density)).map (g.addOutcomes entry)

/-- The geometry with the values of all composite entries of a shape, one entry after the other. -/
def addComposites (g : Geometry) (s : Shape) (context : NameMap Float) (density : Float) :
    Except Abort Geometry :=
  s.compositeEntries.foldlM (addComposite context density) g

/-! ## §2. Scrap. -/

/-- The weight of the material that the blank has beyond the part, less than nothing for a blank
that is too small. -/
def excessWeight? (g : Geometry) (thickness : Option Float) (density : Float) : Option Float :=
  match g.blankArea, g.finishedArea, thickness with
  | some blank, some finished, some t =>
    let excess := (SquareMillimetres.mk blank).sub ⟨finished⟩
    some ((excess.times ⟨t⟩).toCubicMetres.mass ⟨density⟩).value
  | _, _, _ => none

end Geometry

/-- The warning about a blank that is too small. -/
def smallBlankWarning? (excess : Option Float) : Option String :=
  match excess with
  | some weight =>
    if weight < 0 then
      some ("Blank area is smaller than finished area; scrap weight "
        ++ Binary64.fixedText 3 weight ++ " kg ignored")
    else none
  | none => none

/-! ## §3. Costs. -/

namespace Costs

/-- A length in metres; nothing counts as zero. -/
def metres (length : Option Float) : Float := (Millimetres.mk (length.getD 0)).toMetres.value

/-- The cost of the material of one piece with its scrap. -/
def actualMaterialCost (g : Geometry) (price : Float) : Float :=
  match g.scrapWeight with
  | some scrap => ((Kilograms.mk g.weight).add ⟨scrap⟩).value * price
  | none => g.weight * price

/-- The credit for the scrap of one piece. -/
def scrapCredit (g : Geometry) (price recoveryRate : Float) : Float :=
  match g.scrapWeight with
  | some scrap => scrap * price * recoveryRate
  | none => 0

/-- The costs of pieces of a geometry. -/
def ofGeometry (g : Geometry) (price : Float) (currency : String) (rates : Rates)
    (recoveryRate multiplier quantity : Float) : Costs :=
  let materialCostActual := actualMaterialCost g price
  let scrapRecoveryValue := scrapCredit g price recoveryRate
  let cuttingCost := metres g.perimeter * rates.cuttingPerMeter
  let edgePreparationCost := metres g.edgeLength * rates.edgePreparationPerMeter
  let weldingCost := metres g.weldLength * rates.weldingPerMeter * multiplier
  let surface := (SquareMillimetres.mk (g.surfaceArea.getD 0)).toSquareMetres.value
  let surfaceTreatmentCost := surface * rates.surfaceTreatmentPerSqm
  let baseFabricationCost :=
    rates.baseCost + g.weight * rates.costPerKg + rates.laborHours * rates.laborRatePerHour
  let totalFabricationCost :=
    baseFabricationCost + cuttingCost + edgePreparationCost + weldingCost + surfaceTreatmentCost
  let unitTotalCost := materialCostActual - scrapRecoveryValue + totalFabricationCost
  { materialCost := g.weight * price
    materialCostActual, scrapRecoveryValue, cuttingCost, edgePreparationCost, weldingCost
    surfaceTreatmentCost, baseFabricationCost, totalFabricationCost, unitTotalCost
    totalCost := unitTotalCost * quantity
    effectiveCostPerKg := if 0 < g.weight then unitTotalCost / g.weight else 0
    currency, fabricationRates := rates, weldingThicknessMultiplier := multiplier }

end Costs

/-! ## §4. Estimates. -/

namespace EstimateInput

/-- The formulas without which there is no estimate, where a shape defines them. -/
def requiredFormulas : List String := ["volume", "weight"]

/-- What is worth knowing before anything is computed: values outside their domains, broken rules,
and a material that the shape is not made of. -/
def advice (input : EstimateInput) : Except Abort (List String) := do
  let s := input.shape
  let violations ← s.ruleViolations input.parameterValues
  return (s.parameterIssues input.parameterValues).map ParameterIssue.message
    ++ violations
    ++ if s.allowsMaterial input.material then []
      else
        [input.material.category.displayName ++ " is not an allowed material category for "
          ++ s.name]

/-- The required formulas that a shape defines and that have no value. -/
def failedRequired (s : Shape) (o : Outcomes) : List String :=
  requiredFormulas.filter fun name => s.definesFormula name && o.failures.contains name

/-- The parameters as they are used. -/
def echoes (input : EstimateInput) : List ParameterEcho :=
  input.parameterValues.entries.map fun e =>
    { name := e.1, value := e.2, unit := ((input.shape.parameter? e.1).map (·.unit)).getD "" }

/-- The outcomes of the plain formulas of the shape. -/
def outcomes (input : EstimateInput) (density : Float) : Except Abort Outcomes :=
  Outcomes.ofFormulas input.shape.plainFormulas input.parameterValues (some density)

/-- What the rules and the formulas of a shape come to. -/
structure Findings where
  /-- What is worth knowing before anything is computed. -/
  advice : List String
  /-- The outcomes of the plain formulas. -/
  outcomes : Outcomes
  /-- The geometry of the plain formulas and of the composite entries. -/
  geometry : Geometry

/-- Evaluates the rules and the formulas of the shape: advice first, then all plain formulas, and
the composite entries once nothing required has failed. -/
def findings (input : EstimateInput) (density : Float) : Except (Stop Fault) Findings := do
  let advice ← orAbort input.advice
  let outcomes ← orAbort (input.outcomes density)
  match failedRequired input.shape outcomes with
  | [] =>
    let geometry ← orAbort ((Geometry.ofOutcomes outcomes).addComposites input.shape
      input.parameterValues density)
    return { advice, outcomes, geometry }
  | failed => .error (.failure (.requiredFormulasFailed input.shape.key failed))

/-- The results of plain formulas outside their expected ranges. -/
def rangeWarnings (o : Outcomes) : List RangeWarning :=
  o.results.entries.filterMap fun e => e.2.rangeWarning

/-- The estimate for what the formulas come to, once nothing stands against it. -/
def assemble (input : EstimateInput) (rates : Rates) (settings : Settings) (density : Float)
    (found : Findings) : Estimate :=
  let s := input.shape
  let m := input.material
  let thickness := input.parameterValues.get? settings.thicknessParameter
  let excess := found.geometry.excessWeight? thickness density
  let geometry := { found.geometry with scrapWeight := excess.map fun w => Binary64.greater w 0 }
  let ranges := rangeWarnings found.outcomes
  let costs :=
    Costs.ofGeometry geometry m.pricePerKilogram (m.currency?.getD settings.defaultCurrency) rates
      settings.scrapRecoveryRate (settings.weldMultiplier.multiplier thickness) input.quantity
  { shapeKey := s.key, shapeName := s.name, materialId := m.id, materialName := m.name, density
    parameters := input.echoes, calculatedValues := geometry, costEstimate := costs
    quantity := input.quantity
    totalWeight := ((Kilograms.mk geometry.weight).scale input.quantity).value
    totalCost := costs.totalCost
    warnings :=
      found.advice ++ ranges.map RangeWarning.describe ++ (smallBlankWarning? excess).toList
    rangeWarnings := ranges }

/-- The estimate at given rates. -/
def estimateAt (input : EstimateInput) (rates : Rates) (settings : Settings) :
    Except (Stop Fault) Estimate := do
  orFail input.validate
  let density := input.material.density.getD settings.defaultDensity
  let found ← input.findings density
  return input.assemble rates settings density found

/-- What the rates of an estimate are resolved for. -/
def rateRequest (input : EstimateInput) : RateRequest where
  shapeRates := input.shape.fabricationCost
  shapeCategory := input.shape.category
  materialCategory := input.material.category
  userOverrides := input.rateOverrides

/-- The estimate at the rates that the settings resolve. -/
def estimate (input : EstimateInput) (settings : Settings) : Except (Stop Fault) Estimate :=
  input.estimateAt (input.rateRequest.resolve settings) settings

end EstimateInput

end ShapeEstimator
