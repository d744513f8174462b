/-
  ShapeEstimator.Pricing.Overrides
  ────────────────────────────────
  **RATES THAT ARE GIVEN.**

  A shape or a request may give some of the fabrication rates; a rate that is
  not given comes from the next source.
-/

namespace ShapeEstimator

/-- Fabrication rates, any of which may be left open. -/
structure RateOverrides where
  /-- Cost of cutting a metre. -/
  cuttingPerMeter : Option Float := none
  /-- Cost of preparing a metre of edge. -/
  edgePreparationPerMeter : Option Float := none
  /-- Cost of welding a metre. -/
  weldingPerMeter : Option Float := none
  /-- Cost of treating a square metre of surface. -/
  surfaceTreatmentPerSqm : Option Float := none
  /-- Fixed cost of a piece. -/
  baseCost : Option Float := none
  /-- Cost per kilogram. -/
  costPerKg : Option Float := none
  /-- Hours of labour for a piece. -/
  laborHours : Option Float := none
  /-- Cost of an hour of labour. -/
  laborRatePerHour : Option Float := none
  deriving DecidableEq, Repr

end ShapeEstimator
