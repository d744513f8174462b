/-
  ShapeEstimator.Estimate.Record
  ────────────────────────────────
  **INPUTS, ESTIMATES AND FAULTS AS JSON.**

  What is absent or empty in an estimate is left out.  A fault is its type and
  its details.
-/
import ShapeEstimator.Estimate.Input
import ShapeEstimator.Estimate.Result
import ShapeEstimator.Pricing.Record

namespace ShapeEstimator

open Json (Record)

/-! ## §1. Inputs. -/

namespace EstimateInput

/-- The input as JSON. -/
def toJson (x : EstimateInput) : Json :=
  Json.ofFields
    [("shape", some x.shape.toJson), ("material", some x.material.toJson),
      ("parameterValues", some (Json.ofMap Json.ofFloat x.parameterValues)),
      ("quantity", some (Json.ofFloat x.quantity)),
      ("rateOverrides", x.rateOverrides.map RateOverrides.toJson)]

/-- The input that a value stands for. -/
def ofJson? (j : Json) : Option EstimateInput := do
  let r ← Record.ofJson? ["shape", "material", "parameterValues", "quantity", "rateOverrides"] j
  return {
    shape := ← r.required "shape" Shape.ofJson?
    material := ← r.required "material" Material.ofJson?
    parameterValues := ← r.withDefault "parameterValues" .empty (Json.map? Json.float?)
    quantity := ← r.withDefault "quantity" 1 Json.float?
    rateOverrides := ← r.optional "rateOverrides" RateOverrides.ofJson? }

end EstimateInput

/-! ## §2. Geometry and costs. -/

/-- A map as JSON, absent where it is empty. -/
def mapUnlessEmpty (m : NameMap Float) : Option Json :=
  if m.entries.isEmpty then none else some (Json.ofMap Json.ofFloat m)

namespace Geometry

/-- The geometry as JSON. -/
def toJson (g : Geometry) : Json :=
  Json.ofFields
    [("volume", some (Json.ofFloat g.volume)), ("weight", some (Json.ofFloat g.weight)),
      ("surfaceArea", g.surfaceArea.map Json.ofFloat),
      ("innerSurfaceArea", g.innerSurfaceArea.map Json.ofFloat),
      ("outerSurfaceArea", g.outerSurfaceArea.map Json.ofFloat),
      ("wettedArea", g.wettedArea.map Json.ofFloat),
      ("blankArea", g.blankArea.map Json.ofFloat),
      ("finishedArea", g.finishedArea.map Json.ofFloat),
      ("scrapPercentage", g.scrapPercentage.map Json.ofFloat),
      ("edgeLength", g.edgeLength.map Json.ofFloat),
      ("weldLength", g.weldLength.map Json.ofFloat),
      ("perimeter", g.perimeter.map Json.ofFloat),
      ("scrapWeight", g.scrapWeight.map Json.ofFloat),
      ("blankDimensions", mapUnlessEmpty g.blankDimensions),
      ("customValues", mapUnlessEmpty g.customValues)]

/-- The geometry that a value stands for. -/
def ofJson? (j : Json) : Option Geometry := do
  let r ← Record.ofJson?
    ["volume", "weight", "surfaceArea", "innerSurfaceArea", "outerSurfaceArea", "wettedArea",
      "blankArea", "finishedArea", "scrapPercentage", "edgeLength", "weldLength", "perimeter",
      "scrapWeight", "blankDimensions", "customValues"] j
  return {
    volume := ← r.required "volume" Json.float?
    weight := ← r.required "weight" Json.float?
    surfaceArea := ← r.optional "surfaceArea" Json.float?
    innerSurfaceArea := ← r.optional "innerSurfaceArea" Json.float?
    outerSurfaceArea := ← r.optional "outerSurfaceArea" Json.float?
    wettedArea := ← r.optional "wettedArea" Json.float?
    blankArea := ← r.optional "blankArea" Json.float?
    finishedArea := ← r.optional "finishedArea" Json.float?
    scrapPercentage := ← r.optional "scrapPercentage" Json.float?
    edgeLength := ← r.optional "edgeLength" Json.float?
    weldLength := ← r.optional "weldLength" Json.float?
    perimeter := ← r.optional "perimeter" Json.float?
    scrapWeight := ← r.optional "scrapWeight" Json.float?
    blankDimensions := ← r.withDefault "blankDimensions" .empty (Json.map? Json.float?)
    customValues := ← r.withDefault "customValues" .empty (Json.map? Json.float?) }

end Geometry

namespace Costs

/-- The costs as JSON. -/
def toJson (c : Costs) : Json :=
  .object
    [("materialCost", Json.ofFloat c.materialCost),
      ("materialCostActual", Json.ofFloat c.materialCostActual),
      ("scrapRecoveryValue", Json.ofFloat c.scrapRecoveryValue),
      ("cuttingCost", Json.ofFloat c.cuttingCost),
      ("edgePreparationCost", Json.ofFloat c.edgePreparationCost),
      ("weldingCost", Json.ofFloat c.weldingCost),
      ("surfaceTreatmentCost", Json.ofFloat c.surfaceTreatmentCost),
      ("baseFabricationCost", Json.ofFloat c.baseFabricationCost),
      ("totalFabricationCost", Json.ofFloat c.totalFabricationCost),
      ("unitTotalCost", Json.ofFloat c.unitTotalCost), ("totalCost", Json.ofFloat c.totalCost),
      ("effectiveCostPerKg", Json.ofFloat c.effectiveCostPerKg), ("currency", .string c.currency),
      ("fabricationRates", c.fabricationRates.toJson),
      ("weldingThicknessMultiplier", Json.ofFloat c.weldingThicknessMultiplier)]

/-- The costs that a value stands for. -/
def ofJson? (j : Json) : Option Costs := do
  let r ← Record.ofJson?
    ["materialCost", "materialCostActual", "scrapRecoveryValue", "cuttingCost",
      "edgePreparationCost", "weldingCost", "surfaceTreatmentCost", "baseFabricationCost",
      "totalFabricationCost", "unitTotalCost", "totalCost", "effectiveCostPerKg", "currency",
      "fabricationRates", "weldingThicknessMultiplier"] j
  return {
    materialCost := ← r.required "materialCost" Json.float?
    materialCostActual := ← r.required "materialCostActual" Json.float?
    scrapRecoveryValue := ← r.required "scrapRecoveryValue" Json.float?
    cuttingCost := ← r.required "cuttingCost" Json.float?
    edgePreparationCost := ← r.required "edgePreparationCost" Json.float?
    weldingCost := ← r.required "weldingCost" Json.float?
    surfaceTreatmentCost := ← r.required "surfaceTreatmentCost" Json.float?
    baseFabricationCost := ← r.required "baseFabricationCost" Json.float?
    totalFabricationCost := ← r.required "totalFabricationCost" Json.float?
    unitTotalCost := ← r.required "unitTotalCost" Json.float?
    totalCost := ← r.required "totalCost" Json.float?
    effectiveCostPerKg := ← r.required "effectiveCostPerKg" Json.float?
    currency := ← r.required "currency" Json.string?
    fabricationRates := ← r.required "fabricationRates" Rates.ofJson?
    weldingThicknessMultiplier := ← r.required "weldingThicknessMultiplier" Json.float? }

end Costs

/-! ## §3. Estimates. -/

namespace ParameterEcho

/-- The parameter as JSON. -/
def toJson (p : ParameterEcho) : Json :=
  .object [("name", .string p.name), ("value", Json.ofFloat p.value), ("unit", .string p.unit)]

/-- The parameter that a value stands for. -/
def ofJson? (j : Json) : Option ParameterEcho := do
  let r ← Record.ofJson? ["name", "value", "unit"] j
  return {
    name := ← r.required "name" Json.string?
    value := ← r.required "value" Json.float?
    unit := ← r.required "unit" Json.string? }

end ParameterEcho

/-- A list as JSON, absent where it is empty. -/
def listUnlessEmpty {α : Type} (encode : α → Json) (xs : List α) : Option Json :=
  if xs.isEmpty then none else some (.array (xs.map encode))

namespace Estimate

/-- The estimate as JSON. -/
def toJson (e : Estimate) : Json :=
  Json.ofFields
    [("shapeKey", some (.string e.shapeKey)), ("shapeName", some (.string e.shapeName)),
      ("materialId", some (.string e.materialId)), ("materialName", some (.string e.materialName)),
      ("density", some (Json.ofFloat e.density)),
      ("parameters", some (.array (e.parameters.map ParameterEcho.toJson))),
      ("calculatedValues", some e.calculatedValues.toJson),
      ("costEstimate", some e.costEstimate.toJson), ("quantity", some (Json.ofFloat e.quantity)),
      ("totalWeight", some (Json.ofFloat e.totalWeight)),
      ("totalCost", some (Json.ofFloat e.totalCost)),
      ("warnings", listUnlessEmpty .string e.warnings),
      ("rangeWarnings", listUnlessEmpty Formula.RangeWarning.toJson e.rangeWarnings)]

/-- The estimate that a value stands for. -/
def ofJson? (j : Json) : Option Estimate := do
  let r ← Record.ofJson?
    ["shapeKey", "shapeName", "materialId", "materialName", "density", "parameters",
      "calculatedValues", "costEstimate", "quantity", "totalWeight", "totalCost", "warnings",
      "rangeWarnings"] j
  return {
    shapeKey := ← r.required "shapeKey" Json.string?
    shapeName := ← r.required "shapeName" Json.string?
    materialId := ← r.required "materialId" Json.string?
    materialName := ← r.required "materialName" Json.string?
    density := ← r.required "density" Json.float?
    parameters := ← r.required "parameters" (Json.list? ParameterEcho.ofJson?)
    calculatedValues := ← r.required "calculatedValues" Geometry.ofJson?
    costEstimate := ← r.required "costEstimate" Costs.ofJson?
    quantity := ← r.required "quantity" Json.float?
    totalWeight := ← r.required "totalWeight" Json.float?
    totalCost := ← r.required "totalCost" Json.float?
    warnings := ← r.withDefault "warnings" [] Json.strings?
    rangeWarnings := ← r.withDefault "rangeWarnings" [] (Json.list? Formula.RangeWarning.ofJson?) }

end Estimate

/-! ## §4. Faults. -/

namespace Fault

/-- The kinds of faults. -/
inductive Kind where
  /-- An expression cannot be read. -/
  | malformedExpression
  /-- Variables have no value. -/
  | missingVariables
  /-- An expression has no value. -/
  | evaluation
  /-- An input is out of range. -/
  | invalidInput
  /-- Required formulas failed. -/
  | requiredFormulasFailed
  /-- A shape cannot be used. -/
  | corruptCatalogEntry
  /-- There is no such shape. -/
  | shapeNotFound
  /-- There is no such group. -/
  | unknownCategoryGroup
  /-- A record cannot be read or written. -/
  | serialization
  deriving DecidableEq, Repr

/-- The names of the kinds in records. -/
def kindNames : List (String × Kind) :=
  [("Syntax", .malformedExpression), ("MissingVariables", .missingVariables),
    ("Evaluation", .evaluation), ("InvalidInput", .invalidInput),
    ("RequiredFormulasFailed", .requiredFormulasFailed),
    ("CorruptCatalogEntry", .corruptCatalogEntry), ("ShapeNotFound", .shapeNotFound),
    ("UnknownCategoryGroup", .unknownCategoryGroup), ("SerializationError", .serialization)]

/-- The type and the details of a fault, in a record. -/
def record (type : String) (details : List (String × Json)) : Json :=
  .object [("type", .string type), ("details", .object details)]

/-- The fault as JSON. -/
def toJson : Fault → Json
  | .malformedExpression expression position message =>
    record "Syntax"
      [("expression", .string expression), ("position", Json.ofNat position),
        ("message", .string message)]
  | .missingVariables expression missing =>
    record "MissingVariables"
      [("expression", .string expression), ("missing", Json.ofStrings missing)]
  | .evaluation expression reason =>
    record "Evaluation" [("expression", .string expression), ("reason", .string reason)]
  | .invalidInput field value reason =>
    record "InvalidInput"
      [("field", .string field), ("value", .string value), ("reason", .string reason)]
  | .requiredFormulasFailed shape formulas =>
    record "RequiredFormulasFailed"
      [("shape", .string shape), ("formulas", Json.ofStrings formulas)]
  | .corruptCatalogEntry shape reason =>
    record "CorruptCatalogEntry" [("shape", .string shape), ("reason", .string reason)]
  | .shapeNotFound key => record "ShapeNotFound" [("key", .string key)]
  | .unknownCategoryGroup group => record "UnknownCategoryGroup" [("group", .string group)]
  | .serialization reason => record "SerializationError" [("reason", .string reason)]

/-- The fault of a kind with the given details, which are members of an object. -/
def ofDetails? (kind : Kind) (details : List (String × Json)) : Option Fault := do
  match kind with
  | .malformedExpression =>
    let r ← Record.ofMembers? ["expression", "position", "message"] details
    return .malformedExpression (← r.required "expression" Json.string?)
      (← r.required "position" Json.nat64?) (← r.required "message" Json.string?)
  | .missingVariables =>
    let r ← Record.ofMembers? ["expression", "missing"] details
    return .missingVariables (← r.required "expression" Json.string?)
      (← r.required "missing" Json.strings?)
  | .evaluation =>
    let r ← Record.ofMembers? ["expression", "reason"] details
    return .evaluation (← r.required "expression" Json.string?)
      (← r.required "reason" Json.string?)
  | .invalidInput =>
    let r ← Record.ofMembers? ["field", "value", "reason"] details
    return .invalidInput (← r.required "field" Json.string?) (← r.required "value" Json.string?)
      (← r.required "reason" Json.string?)
  | .requiredFormulasFailed =>
    let r ← Record.ofMembers? ["shape", "formulas"] details
    return .requiredFormulasFailed (← r.required "shape" Json.string?)
      (← r.required "formulas" Json.strings?)
  | .corruptCatalogEntry =>
    let r ← Record.ofMembers? ["shape", "reason"] details
    return .corruptCatalogEntry (← r.required "shape" Json.string?)
      (← r.required "reason" Json.string?)
  | .shapeNotFound =>
    let r ← Record.ofMembers? ["key"] details
    return .shapeNotFound (← r.required "key" Json.string?)
  | .unknownCategoryGroup =>
    let r ← Record.ofMembers? ["group"] details
    return .unknownCategoryGroup (← r.required "group" Json.string?)
  | .serialization =>
    let r ← Record.ofMembers? ["reason"] details
    return .serialization (← r.required "reason" Json.string?)

/-- Whether details that stand before the type can be read as a whole. -/
def readableInOrder (r : Record) : Bool :=
  match r.fields with
  | ("details", details) :: _ => details.isReadable
  | _ => true

/-- The fault that a value stands for. -/
def ofJson? (j : Json) : Option Fault := do
  let r ← Record.ofJson? ["type", "details"] j
  if readableInOrder r then
    let kind ← r.required "type" (Json.choice? kindNames)
    match ← r.required "details" some with
    | .object details => ofDetails? kind details
    | _ => none
  else none

end Fault

end ShapeEstimator
