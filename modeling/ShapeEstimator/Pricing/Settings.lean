/-
  ShapeEstimator.Pricing.Settings
  ────────────────────────────────
  **RATES, FACTORS AND SETTINGS.**

  The settings hold the density of a material that names none, the share of scrap
  that is credited, the default rates of fabrication, how a family of materials
  scales them, and the hours of labour that a kind of shape takes.
-/
import ShapeEstimator.Binary64.Notation
import ShapeEstimator.Catalog.Category
import ShapeEstimator.Catalog.Material

namespace ShapeEstimator

/-! ## §1. Rates. -/

/-- Rates of fabrication. -/
structure Rates where
  /-- Cost of cutting a metre. -/
  cuttingPerMeter : Float := 50
  /-- Cost of preparing a metre of edge. -/
  edgePreparationPerMeter : Float := 100
  /-- Cost of welding a metre. -/
  weldingPerMeter : Float := 500
  /-- Cost of treating a square metre of surface. -/
  surfaceTreatmentPerSqm : Float := 50
  /-- Fixed cost of a piece. -/
  baseCost : Float := 0
  /-- Cost per kilogram. -/
  costPerKg : Float := 0
  /-- Hours of labour for a piece. -/
  laborHours : Float := 0
  /-- Cost of an hour of labour. -/
  laborRatePerHour : Float := 500
  deriving DecidableEq, Repr

/-- How a family of materials scales the default rates. -/
structure RateFactors where
  /-- Factor for cutting. -/
  cutting : Float := 1
  /-- Factor for preparing edges. -/
  edgePreparation : Float := 1
  /-- Factor for welding. -/
  welding : Float := 1
  /-- Factor for treating surfaces. -/
  surfaceTreatment : Float := 1
  /-- Factor for the hours of labour. -/
  labor : Float := 1
  deriving DecidableEq, Repr

/-- How the thickness of a wall scales the cost of welding. -/
structure WeldSettings where
  /-- The thickness with factor one, in millimetres. -/
  referenceThickness : Float := 10
  /-- The thickness that raises the factor by one. -/
  divisor : Float := 50
  /-- The least factor. -/
  floor : Float := 0.5
  deriving DecidableEq, Repr

/-! ## §2. Defaults by family and category. -/

/-- The factors of the families that do not take the default rates as they are. -/
def usualFactors : MaterialCategory → Option RateFactors
  | .carbonSteel => none
  | .alloySteel => some ⟨1.2, 1.2, 1.3, 1.0, 1.1⟩
  | .stainlessSteel => some ⟨1.5, 1.3, 1.6, 1.2, 1.2⟩
  | .duplexStainless => some ⟨1.8, 1.5, 2.0, 1.2, 1.3⟩
  | .nickelAlloy => some ⟨2.0, 1.6, 2.5, 1.3, 1.5⟩
  | .aluminium => some ⟨0.8, 0.9, 1.4, 1.1, 1.1⟩
  | .copper => some ⟨1.1, 1.0, 1.5, 1.1, 1.1⟩
  | .titanium => some ⟨2.5, 2.0, 3.0, 1.5, 1.8⟩
  | .other => none

/-- The hours of labour for a piece of a category. -/
def usualLaborHours : Category → Option Float
  | .rectangularPlate => some 0.5
  | .circularPlate => some 0.5
  | .annularPlate => some 0.75
  | .rolledTube => some 2.0
  | .seamlessPipe => some 0.5
  | .nozzle => some 1.0
  | .hemisphericalHead => some 4.0
  | .ellipsoidalHead => some 3.0
  | .conicalSection => some 3.0

/-! ## §3. Settings. -/

/-- The settings of an estimate. -/
structure Settings where
  /-- The density of a material that names none. -/
  defaultDensity : Float := 7850
  /-- The share of the value of scrap that is credited. -/
  scrapRecoveryRate : Float := 0.3
  /-- The currency of a material without a price. -/
  defaultCurrency : String := "INR"
  /-- The parameter that holds the thickness of the wall. -/
  thicknessParameter : String := "t"
  /-- How the thickness scales the cost of welding. -/
  weldMultiplier : WeldSettings := {}
  /-- The rates that nobody gives. -/
  defaultRates : Rates := {}
  /-- The factors of families of materials. -/
  materialRateFactors : MaterialCategory → Option RateFactors := usualFactors
  /-- The hours of labour by category. -/
  categoryLaborHours : Category → Option Float := usualLaborHours

namespace Settings

/-- The factors of a family, one for each that has none. -/
def factorsFor (s : Settings) (c : MaterialCategory) : RateFactors :=
  (s.materialRateFactors c).getD {}

/-- The hours of labour of a category, the default rate's for one that has none. -/
def laborHoursFor (s : Settings) (c : Category) : Float :=
  (s.categoryLaborHours c).getD s.defaultRates.laborHours

/-! ## §4. Validity. -/

/-- Whether a double is finite and positive. -/
def isPositive (x : Float) : Bool := x.isFinite && decide (0 < x)

/-- Refuses settings with a density, a share or a divisor that is out of range, the first of these
in that order. -/
def validate (s : Settings) : Except Fault Unit :=
  let divisor := s.weldMultiplier.divisor
  if !isPositive s.defaultDensity then
    .error (.invalidInput "defaultDensity" (Binary64.plainText s.defaultDensity)
      "must be a positive number")
  else if !(decide (0 ≤ s.scrapRecoveryRate) && decide (s.scrapRecoveryRate ≤ 1)) then
    .error (.invalidInput "scrapRecoveryRate" (Binary64.plainText s.scrapRecoveryRate)
      "must lie between 0 and 1")
  else if divisor == 0 || !divisor.isFinite then
    .error (.invalidInput "weldMultiplier.divisor" (Binary64.plainText divisor)
      "must be a non-zero number")
  else .ok ()

end Settings

end ShapeEstimator
