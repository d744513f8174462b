/-
  ShapeEstimator.Pricing.Resolution
  ────────────────────────────────
  **WHICH RATE COUNTS.**

  Field by field, a rate comes from the first source that gives it:

      the request  ≺  the shape  ≺  the settings

  Only what comes from the settings is scaled by the factors of the material.
  The cost of welding grows with the thickness of the wall:

      max (floor, 1 + (t - reference) / divisor)
-/
import ShapeEstimator.Binary64.Greater
import ShapeEstimator.Pricing.Overrides
import ShapeEstimator.Pricing.Settings

namespace ShapeEstimator

/-! ## §1. Rates. -/

/-- What rates are resolved for. -/
structure RateRequest where
  /-- The rates that the shape gives. -/
  shapeRates : Option RateOverrides
  /-- The kind of shape. -/
  shapeCategory : Category
  /-- The family of the material. -/
  materialCategory : MaterialCategory
  /-- The rates that the request gives. -/
  userOverrides : Option RateOverrides

namespace RateRequest

/-- The first of the given rates for a field, or the fallback. -/
def pick (r : RateRequest) (field : RateOverrides → Option Float) (fallback : Float) : Float :=
  ((r.userOverrides.bind field).or (r.shapeRates.bind field)).getD fallback

/-- The rates for a request. -/
def resolve (r : RateRequest) (s : Settings) : Rates :=
  let defaults := s.defaultRates
  let factors := s.factorsFor r.materialCategory
  { cuttingPerMeter := r.pick (·.cuttingPerMeter) (defaults.cuttingPerMeter * factors.cutting)
    edgePreparationPerMeter :=
      r.pick (·.edgePreparationPerMeter)
        (defaults.edgePreparationPerMeter * factors.edgePreparation)
    weldingPerMeter := r.pick (·.weldingPerMeter) (defaults.weldingPerMeter * factors.welding)
    surfaceTreatmentPerSqm :=
      r.pick (·.surfaceTreatmentPerSqm)
        (defaults.surfaceTreatmentPerSqm * factors.surfaceTreatment)
    baseCost := r.pick (·.baseCost) defaults.baseCost
    costPerKg := r.pick (·.costPerKg) defaults.costPerKg
    laborHours := r.pick (·.laborHours) (s.laborHoursFor r.shapeCategory * factors.labor)
    laborRatePerHour := r.pick (·.laborRatePerHour) defaults.laborRatePerHour }

end RateRequest

/-! ## §2. Welding. -/

namespace WeldSettings

/-- The factor for a thickness in millimetres; one without a thickness. -/
def multiplier (s : WeldSettings) (thickness : Option Float) : Float :=
  match thickness with
  | some t =>
    if t.isFinite then Binary64.greater (1 + (t - s.referenceThickness) / s.divisor) s.floor
    else 1
  | none => 1

end WeldSettings

end ShapeEstimator
