/-
  ShapeEstimator.Proofs.Estimate.Prices
  ────────────────────────────────
  **GEOMETRY DOES NOT DEPEND ON PRICES.**

  An estimate has a part that a drawing decides and a part that money decides.  The
  price of the material, its currency, all rates, the credit for scrap, the welding
  factor and the number of pieces reach the second part only:

      same shape, material, values   →   same density, geometry and advice

  The number of pieces reaches the two totals and nothing else.
-/
import ShapeEstimator.Proofs.Estimate.RangeWarnings

namespace ShapeEstimator

/-! ## §1. The part that a drawing decides. -/

/-- Two estimates say the same apart from prices and totals. -/
structure Estimate.SameGeometry (x y : Estimate) : Prop where
  /-- The density that was used. -/
  density : x.density = y.density
  /-- The given parameters. -/
  parameters : x.parameters = y.parameters
  /-- The geometry of one piece, the weight of the scrap included. -/
  calculatedValues : x.calculatedValues = y.calculatedValues
  /-- What is worth knowing. -/
  warnings : x.warnings = y.warnings
  /-- The results outside their expected ranges. -/
  rangeWarnings : x.rangeWarnings = y.rangeWarnings

/-- Two estimates differ at most in the number of pieces and in the totals. -/
structure Estimate.SamePiece (x y : Estimate) : Prop where
  /-- All but the number of pieces, the totals and the costs. -/
  estimate : y = { x with
    costEstimate := y.costEstimate, quantity := y.quantity, totalWeight := y.totalWeight,
    totalCost := y.totalCost }
  /-- All costs but that of all pieces. -/
  costs : y.costEstimate = { x.costEstimate with totalCost := y.costEstimate.totalCost }

namespace EstimateInput

/-- Two inputs ask for the same piece of the same material; rates and prices may differ. -/
structure SameWork (a b : EstimateInput) : Prop where
  /-- The shape, its own rates aside. -/
  shape : b.shape = { a.shape with fabricationCost := b.shape.fabricationCost }
  /-- The material, its price aside. -/
  material : b.material = { a.material with currentPrice := b.material.currentPrice }
  /-- The values of parameters. -/
  parameterValues : b.parameterValues = a.parameterValues

/-! ## §2. Step by step. -/

variable {a b : EstimateInput} {ra rb : Rates} {sa sb : Settings}

namespace SameWork

theorem outcomes_eq (h : a.SameWork b) (density : Float) :
    a.outcomes density = b.outcomes density := by
  unfold outcomes
  rw [h.parameterValues, h.shape]
  rfl

theorem advice_eq (h : a.SameWork b) : a.advice = b.advice := by
  unfold advice
  rw [h.parameterValues, h.shape, h.material]
  rfl

theorem echoes_eq (h : a.SameWork b) : a.echoes = b.echoes := by
  unfold echoes
  rw [h.parameterValues, h.shape]
  rfl

theorem resolvedDensity_eq (h : a.SameWork b) (hdensity : sa.defaultDensity = sb.defaultDensity) :
    a.resolvedDensity sa = b.resolvedDensity sb := by
  unfold resolvedDensity
  rw [h.material, hdensity]

/-- With a quantity that is accepted, the checks do not read prices. -/
theorem validate_eq (h : a.SameWork b) (ha : Settings.isPositive a.quantity = true)
    (hb : Settings.isPositive b.quantity = true) : a.validate = b.validate := by
  unfold validate badParameter? badDensity?
  rw [ha, hb, h.parameterValues, h.material, h.shape]
  rfl

theorem failedRequired_eq (h : a.SameWork b) (o : Formula.Outcomes) :
    failedRequired a.shape o = failedRequired b.shape o := by
  rw [h.shape]
  rfl

theorem key_eq (h : a.SameWork b) : a.shape.key = b.shape.key := by
  rw [h.shape]

theorem addComposites_eq (h : a.SameWork b) (g : Geometry) (density : Float) :
    g.addComposites a.shape a.parameterValues density
      = g.addComposites b.shape b.parameterValues density := by
  rw [h.parameterValues, h.shape]
  rfl

/-- The rules and the formulas come to the same. -/
theorem findings_eq (h : a.SameWork b) (density : Float) :
    a.findings density = b.findings density := by
  unfold findings
  simp only [h.advice_eq, h.outcomes_eq, h.failedRequired_eq, h.key_eq, h.addComposites_eq]

/-- What is assembled from the same findings has the same geometry. -/
theorem assemble_sameGeometry (h : a.SameWork b)
    (hthickness : sa.thicknessParameter = sb.thicknessParameter) (density : Float)
    (found : Findings) :
    (a.assemble ra sa density found).SameGeometry (b.assemble rb sb density found) := by
  have hvalue : a.parameterValues.get? sa.thicknessParameter
      = b.parameterValues.get? sb.thicknessParameter := by
    rw [h.parameterValues, hthickness]
  refine ⟨rfl, h.echoes_eq, ?_, ?_, rfl⟩
  · unfold assemble
    dsimp only
    rw [hvalue]
  · unfold assemble
    dsimp only
    rw [hvalue]

end SameWork

theorem assemble_samePiece (q : Float) (rates : Rates) (settings : Settings) (density : Float)
    (found : Findings) :
    (a.assemble rates settings density found).SamePiece
      ({ a with quantity := q }.assemble rates settings density found) :=
  ⟨rfl, rfl⟩

/-- An estimate at a given density is refused, or decided by what the formulas come to. -/
theorem estimateAt_cases (input : EstimateInput) (rates : Rates) (settings : Settings) :
    input.estimateAt rates settings =
      match input.validate with
      | .error fault => .error (.failure fault)
      | .ok _ =>
        (input.findings (input.resolvedDensity settings)).map
          (input.assemble rates settings (input.resolvedDensity settings)) := by
  unfold estimateAt
  cases input.validate with
  | error fault => rfl
  | ok u =>
    show (input.findings (input.resolvedDensity settings) >>= _) = _
    cases input.findings (input.resolvedDensity settings) <;> rfl

/-! ## §3. Two runs. -/

/-- **Geometry does not depend on prices.**  Two inputs for the same work, each with a quantity that
is accepted, stop with the same fault or the same abort, or have estimates with the same geometry,
whatever the prices and rates and whatever the settings beside the default density and the name of
the thickness.  Estimates of one input for different numbers of pieces differ in the totals only. -/
theorem estimateAt_price_free (h : a.SameWork b) (ha : Settings.isPositive a.quantity = true)
    (hb : Settings.isPositive b.quantity = true)
    (hdensity : sa.defaultDensity = sb.defaultDensity)
    (hthickness : sa.thicknessParameter = sb.thicknessParameter) :
    ((∃ stop, a.estimateAt ra sa = .error stop ∧ b.estimateAt rb sb = .error stop)
      ∨ ∃ x y, a.estimateAt ra sa = .ok x ∧ b.estimateAt rb sb = .ok y ∧ x.SameGeometry y)
    ∧ (b = { a with quantity := b.quantity } → rb = ra → sb = sa →
        ∀ x y, a.estimateAt ra sa = .ok x → b.estimateAt rb sb = .ok y → x.SamePiece y) := by
  rw [estimateAt_cases a, estimateAt_cases b, ← h.validate_eq ha hb,
    ← h.resolvedDensity_eq hdensity, ← h.findings_eq]
  cases a.validate with
  | error fault => exact ⟨Or.inl ⟨_, rfl, rfl⟩, fun _ _ _ x _ hx => nomatch hx⟩
  | ok u =>
    cases a.findings (a.resolvedDensity sa) with
    | error stop => exact ⟨Or.inl ⟨stop, rfl, rfl⟩, fun _ _ _ x _ hx => nomatch hx⟩
    | ok found =>
      refine ⟨Or.inr ⟨_, _, rfl, rfl, h.assemble_sameGeometry hthickness _ _⟩, ?_⟩
      intro hpieces hrates hsettings x y hx hy
      cases hx
      cases hy
      rw [hpieces, hrates, hsettings]
      exact assemble_samePiece _ _ _ _ _

/-- Four steep cones of a material that has a price. -/
def pricedCones : EstimateInput :=
  { steepCone with
    shape := { steepCone.shape with fabricationCost := some { baseCost := some 750 } }
    material :=
      { steepCone.material with currentPrice := some { amount := 2, currency := "EUR" } }
    quantity := 4 }

theorem steepCone_sameWork : steepCone.SameWork pricedCones := ⟨rfl, rfl, rfl⟩

/-- The steep cone at no price and at a price, and one of them and five of them. -/
theorem steepCone_price_free :
    ((∃ stop, steepCone.estimateAt {} {} = .error stop
        ∧ pricedCones.estimateAt { costPerKg := 3 } { scrapRecoveryRate := 0 } = .error stop)
      ∨ ∃ x y, steepCone.estimateAt {} {} = .ok x
        ∧ pricedCones.estimateAt { costPerKg := 3 } { scrapRecoveryRate := 0 } = .ok y
        ∧ x.SameGeometry y)
    ∧ ∃ x y, steepCone.estimateAt {} {} = .ok x
      ∧ { steepCone with quantity := 5 }.estimateAt {} {} = .ok y ∧ x.SamePiece y := by
  refine ⟨(@estimateAt_price_free _ _ {} { costPerKg := 3 } {} { scrapRecoveryRate := 0 }
    steepCone_sameWork (by decide) (by decide) rfl rfl).1, ?_⟩
  have hwork : steepCone.SameWork { steepCone with quantity := 5 } := ⟨rfl, rfl, rfl⟩
  have htwo := @estimateAt_price_free _ _ {} {} {} {} hwork (by decide) (by decide) rfl rfl
  rcases htwo.1 with ⟨stop, hstop, _⟩ | ⟨x, y, hx, hy, _⟩
  · rw [estimateAt_steepCone] at hstop
    exact nomatch hstop
  · exact ⟨x, y, hx, hy, htwo.2 rfl rfl rfl x y hx hy⟩

end EstimateInput

end ShapeEstimator
