/-
  ShapeEstimator.Pricing.Record
  ────────────────────────────────
  **RATES AND SETTINGS AS JSON.**

  Every field has a default, so settings name only what they change.
-/
import ShapeEstimator.Catalog.Record
import ShapeEstimator.Json.Reader
import ShapeEstimator.Pricing.Settings

namespace ShapeEstimator

open Json (Record)

/-! ## §1. Rates and factors. -/

namespace Rates

/-- The rates as JSON. -/
def toJson (x : Rates) : Json :=
  .object
    [("cuttingPerMeter", Json.ofFloat x.cuttingPerMeter),
      ("edgePreparationPerMeter", Json.ofFloat x.edgePreparationPerMeter),
      ("weldingPerMeter", Json.ofFloat x.weldingPerMeter),
      ("surfaceTreatmentPerSqm", Json.ofFloat x.surfaceTreatmentPerSqm),
      ("baseCost", Json.ofFloat x.baseCost), ("costPerKg", Json.ofFloat x.costPerKg),
      ("laborHours", Json.ofFloat x.laborHours),
      ("laborRatePerHour", Json.ofFloat x.laborRatePerHour)]

/-- The rates that a value stands for. -/
def ofJson? (j : Json) : Option Rates := do
  let usual : Rates := {}
  let r ← Record.ofJson?
    ["cuttingPerMeter", "edgePreparationPerMeter", "weldingPerMeter", "surfaceTreatmentPerSqm",
      "baseCost", "costPerKg", "laborHours", "laborRatePerHour"] j
  return {
    cuttingPerMeter := ← r.withDefault "cuttingPerMeter" usual.cuttingPerMeter Json.float?
    edgePreparationPerMeter :=
      ← r.withDefault "edgePreparationPerMeter" usual.edgePreparationPerMeter Json.float?
    weldingPerMeter := ← r.withDefault "weldingPerMeter" usual.weldingPerMeter Json.float?
    surfaceTreatmentPerSqm :=
      ← r.withDefault "surfaceTreatmentPerSqm" usual.surfaceTreatmentPerSqm Json.float?
    baseCost := ← r.withDefault "baseCost" usual.baseCost Json.float?
    costPerKg := ← r.withDefault "costPerKg" usual.costPerKg Json.float?
    laborHours := ← r.withDefault "laborHours" usual.laborHours Json.float?
    laborRatePerHour := ← r.withDefault "laborRatePerHour" usual.laborRatePerHour Json.float? }

end Rates

namespace RateFactors

/-- The factors as JSON. -/
def toJson (x : RateFactors) : Json :=
  .object
    [("cutting", Json.ofFloat x.cutting), ("edgePreparation", Json.ofFloat x.edgePreparation),
      ("welding", Json.ofFloat x.welding), ("surfaceTreatment", Json.ofFloat x.surfaceTreatment),
      ("labor", Json.ofFloat x.labor)]

/-- The factors that a value stands for. -/
def ofJson? (j : Json) : Option RateFactors := do
  let r ← Record.ofJson? ["cutting", "edgePreparation", "welding", "surfaceTreatment", "labor"] j
  return {
    cutting := ← r.withDefault "cutting" 1 Json.float?
    edgePreparation := ← r.withDefault "edgePreparation" 1 Json.float?
    welding := ← r.withDefault "welding" 1 Json.float?
    surfaceTreatment := ← r.withDefault "surfaceTreatment" 1 Json.float?
    labor := ← r.withDefault "labor" 1 Json.float? }

end RateFactors

namespace WeldSettings

/-- The settings of welding as JSON. -/
def toJson (x : WeldSettings) : Json :=
  .object
    [("referenceThickness", Json.ofFloat x.referenceThickness),
      ("divisor", Json.ofFloat x.divisor), ("floor", Json.ofFloat x.floor)]

/-- The settings of welding that a value stands for. -/
def ofJson? (j : Json) : Option WeldSettings := do
  let usual : WeldSettings := {}
  let r ← Record.ofJson? ["referenceThickness", "divisor", "floor"] j
  return {
    referenceThickness := ← r.withDefault "referenceThickness" usual.referenceThickness Json.float?
    divisor := ← r.withDefault "divisor" usual.divisor Json.float?
    floor := ← r.withDefault "floor" usual.floor Json.float? }

end WeldSettings

/-! ## §2. Settings. -/

namespace Settings

/-- The settings as JSON. -/
def toJson (s : Settings) : Json :=
  .object
    [("defaultDensity", Json.ofFloat s.defaultDensity),
      ("scrapRecoveryRate", Json.ofFloat s.scrapRecoveryRate),
      ("defaultCurrency", .string s.defaultCurrency),
      ("thicknessParameter", .string s.thicknessParameter),
      ("weldMultiplier", s.weldMultiplier.toJson), ("defaultRates", s.defaultRates.toJson),
      ("materialRateFactors",
        Json.ofTable MaterialCategory.all MaterialCategory.name RateFactors.toJson
          s.materialRateFactors),
      ("categoryLaborHours",
        Json.ofTable Category.all Category.name Json.ofFloat s.categoryLaborHours)]

/-- The settings that a value stands for. -/
def ofJson? (j : Json) : Option Settings := do
  let usual : Settings := {}
  let r ← Record.ofJson?
    ["defaultDensity", "scrapRecoveryRate", "defaultCurrency", "thicknessParameter",
      "weldMultiplier", "defaultRates", "materialRateFactors", "categoryLaborHours"] j
  return {
    defaultDensity := ← r.withDefault "defaultDensity" usual.defaultDensity Json.float?
    scrapRecoveryRate := ← r.withDefault "scrapRecoveryRate" usual.scrapRecoveryRate Json.float?
    defaultCurrency := ← r.withDefault "defaultCurrency" usual.defaultCurrency Json.string?
    thicknessParameter := ← r.withDefault "thicknessParameter" usual.thicknessParameter Json.string?
    weldMultiplier := ← r.withDefault "weldMultiplier" usual.weldMultiplier WeldSettings.ofJson?
    defaultRates := ← r.withDefault "defaultRates" usual.defaultRates Rates.ofJson?
    materialRateFactors :=
      ← r.withDefault "materialRateFactors" usual.materialRateFactors
        (Json.table? (MaterialCategory.all.map fun c => (c.name, c)) RateFactors.ofJson?)
    categoryLaborHours :=
      ← r.withDefault "categoryLaborHours" usual.categoryLaborHours
        (Json.table? (Category.all.map fun c => (c.name, c)) Json.float?) }

/-- The valid settings that a text holds. -/
def ofText (text : String) : Except Fault Settings :=
  match (Json.read? text).bind ofJson? with
  | none => .error (.serialization "not a settings record")
  | some s => do
    s.validate
    return s

end Settings

end ShapeEstimator
