/-
  ShapeEstimator.Proofs.Pricing.WallThickness
  ────────────────────────────────
  **WELDING THICKER WALLS.**

  The factor of a thickness is a chain of operations on doubles, and each of them keeps
  their order, or turns it round:

      t  ↦  t - reference  ↦  1 + (t - reference) / divisor  ↦  at least the floor

  So the factor, and with it the cost of welding, grows with the thickness where the
  divisor is positive.  Settings are valid with a negative divisor too, and then thicker
  walls are the cheaper ones.
-/
import ShapeEstimator.Estimate.Run
import ShapeEstimator.Proofs.Binary64.Order
import ShapeEstimator.Proofs.Estimate.Readable

namespace ShapeEstimator

open Binary64

/-! ## §1. The factor. -/

namespace WeldSettings

variable {w : WeldSettings} {t t₁ t₂ : Float}

theorem multiplier_of_isFinite (w : WeldSettings) (ht : t.isFinite = true) :
    w.multiplier (some t) = greater (1 + (t - w.referenceThickness) / w.divisor) w.floor :=
  if_pos ht

theorem allFinite_iff : AllFinite w.numbers ↔ w.referenceThickness.isFinite = true
    ∧ w.divisor.isFinite = true ∧ w.floor.isFinite = true := by
  simp only [numbers, allFinite_cons, allFinite_nil, and_true]

/-- **With a positive divisor the factor grows with the thickness.** -/
theorem multiplier_mono (hw : AllFinite w.numbers) (hpos : 0 < w.divisor)
    (h₁ : t₁.isFinite = true) (h₂ : t₂.isFinite = true) (h : t₁ ≤ t₂) :
    w.multiplier (some t₁) ≤ w.multiplier (some t₂) := by
  obtain ⟨hreference, hdivisor, hfloor⟩ := allFinite_iff.1 hw
  rw [multiplier_of_isFinite w h₁, multiplier_of_isFinite w h₂]
  apply greater_mono (isNaN_of_isFinite hfloor)
  apply add_mono (by decide)
  exact div_mono hdivisor hpos (sub_mono h₁ h₂ hreference h)

/-- **With a negative divisor it falls.** -/
theorem multiplier_anti (hw : AllFinite w.numbers) (hneg : w.divisor < 0)
    (h₁ : t₁.isFinite = true) (h₂ : t₂.isFinite = true) (h : t₁ ≤ t₂) :
    w.multiplier (some t₂) ≤ w.multiplier (some t₁) := by
  obtain ⟨hreference, hdivisor, hfloor⟩ := allFinite_iff.1 hw
  rw [multiplier_of_isFinite w h₁, multiplier_of_isFinite w h₂]
  apply greater_mono (isNaN_of_isFinite hfloor)
  apply add_mono (by decide)
  exact div_anti hdivisor hneg (sub_mono h₁ h₂ hreference h)

end WeldSettings

namespace Settings

variable {s : Settings} {text : String}

/-- Valid settings have a divisor other than zero. -/
theorem divisor_ne_zero_of_validate (h : s.validate = .ok ()) :
    ¬ (s.weldMultiplier.divisor == 0) = true := by
  intro hzero
  unfold validate at h
  dsimp only at h
  rw [hzero, Bool.true_or, if_pos rfl] at h
  split at h
  · exact nomatch h
  · split at h <;> exact nomatch h

/-- The settings of a text have numbers for welding, and a divisor of one sign or the other. -/
theorem weldMultiplier_of_ofText (h : ofText text = .ok s) :
    AllFinite s.weldMultiplier.numbers
      ∧ (0 < s.weldMultiplier.divisor ∨ s.weldMultiplier.divisor < 0) := by
  obtain ⟨hread, hvalid⟩ := ofText_eq_ok_iff.1 h
  obtain ⟨-, -, hweld, -⟩ := allFinite_numbers_iff.1 (lawful.of_decodeText? hread)
  have hdivisor := (WeldSettings.allFinite_iff.1 hweld).2.1
  refine ⟨hweld, ?_⟩
  cases hsign : sign? s.weldMultiplier.divisor with
  | none =>
    exact absurd (beq_zero_of_sign?_eq_none (isNaN_of_isFinite hdivisor) hsign)
      (divisor_ne_zero_of_validate hvalid)
  | some r =>
    cases r
    · exact Or.inr (lt_zero_iff.2 hsign)
    · exact Or.inl (zero_lt_iff.2 hsign)

end Settings

/-! ## §2. The cost. -/

section Products

variable {x y : Float}

/-- A number that is not below zero is at least zero. -/
theorem le_of_not_lt_zero (hnan : x.isNaN = false) (h : ¬ x < 0) : 0 ≤ x := by
  have hzero : (0 : Float).isNaN = false := by decide
  refine le_iff_extent.2 ⟨⟨hzero, hnan⟩, not_lt.1 fun hlt => h ?_⟩
  exact lt_iff_extent.2 ⟨⟨hnan, hzero⟩, hlt⟩

theorem mul_nonneg_of_isNaN (hx : ¬ x < 0) (hy : ¬ y < 0) (hnan : (x * y).isNaN = false) :
    0 ≤ x * y := by
  refine le_of_not_lt_zero hnan fun hlt => ?_
  rw [lt_zero_iff] at hx hy hlt
  obtain ⟨r, t, hr, ht, hproduct⟩ := sign?_mul hlt
  cases r
  · exact hx hr
  · cases t
    · exact hy ht
    · exact nomatch hproduct

end Products

/-- A length that is not negative is so in metres. -/
theorem Costs.metres_not_lt_zero {length : Option Float} (h : ∀ l ∈ length, 0 ≤ l) :
    ¬ Costs.metres length < 0 := by
  intro hlt
  have hlength : ¬ length.getD 0 < 0 := by
    cases length with
    | none => decide
    | some l => exact not_lt_of_le (h l rfl)
  exact hlength (lt_zero_iff.2 (sign?_div (by decide) (lt_zero_iff.1 hlt)))

namespace Settings

/-- The cost of a weld of a length in a wall of a thickness, at a rate for the metre. -/
def weldingCost (s : Settings) (length : Option Float) (rate t : Float) : Float :=
  Costs.metres length * rate * s.weldMultiplier.multiplier (some t)

variable {s : Settings} {text : String} {length : Option Float} {rate t₁ t₂ : Float}

/-- **A greater factor never makes a weld cheaper**, as far as the costs are numbers. -/
theorem weldingCost_mono (hlength : ∀ l ∈ length, 0 ≤ l) (hrate : 0 ≤ rate)
    (h : s.weldMultiplier.multiplier (some t₁) ≤ s.weldMultiplier.multiplier (some t₂))
    (h₁ : (s.weldingCost length rate t₁).isNaN = false)
    (h₂ : (s.weldingCost length rate t₂).isNaN = false) :
    s.weldingCost length rate t₁ ≤ s.weldingCost length rate t₂ := by
  have hproduct : 0 ≤ Costs.metres length * rate :=
    mul_nonneg_of_isNaN (Costs.metres_not_lt_zero hlength) (not_lt_of_le hrate) (isNaN_mul h₁).1
  exact mul_mono hproduct h h₁ h₂

theorem weldingCost_le_iff (hs : ofText text = .ok s) (h₁ : t₁.isFinite = true)
    (h₂ : t₂.isFinite = true) (h : t₁ ≤ t₂) (hlength : ∀ l ∈ length, 0 ≤ l) (hrate : 0 ≤ rate) :
    s.weldingCost length rate t₁ ≤ s.weldingCost length rate t₂
      ↔ ((s.weldingCost length rate t₁).isNaN = false
          ∧ (s.weldingCost length rate t₂).isNaN = false)
        ∧ (0 < s.weldMultiplier.divisor
          ∨ (s.weldingCost length rate t₁ == s.weldingCost length rate t₂) = true) := by
  obtain ⟨hweld, hsign⟩ := weldMultiplier_of_ofText hs
  constructor
  · intro hle
    obtain ⟨hnan, -⟩ := le_iff_extent.1 hle
    refine ⟨hnan, hsign.imp_right fun hneg => ?_⟩
    exact beq_of_le_of_le hle (weldingCost_mono hlength hrate
      (WeldSettings.multiplier_anti hweld hneg h₁ h₂ h) hnan.2 hnan.1)
  · rintro ⟨hnan, hpos | heq⟩
    · exact weldingCost_mono hlength hrate (WeldSettings.multiplier_mono hweld hpos h₁ h₂ h)
        hnan.1 hnan.2
    · exact le_of_beq heq

theorem multiplier_le_iff (hs : ofText text = .ok s) (h₁ : t₁.isFinite = true)
    (h₂ : t₂.isFinite = true) (h : t₁ ≤ t₂) :
    s.weldMultiplier.multiplier (some t₁) ≤ s.weldMultiplier.multiplier (some t₂)
      ↔ 0 < s.weldMultiplier.divisor
        ∨ (s.weldMultiplier.multiplier (some t₁) == s.weldMultiplier.multiplier (some t₂))
          = true := by
  obtain ⟨hweld, hsign⟩ := weldMultiplier_of_ofText hs
  constructor
  · intro hle
    refine hsign.imp_right fun hneg => ?_
    exact beq_of_le_of_le hle (WeldSettings.multiplier_anti hweld hneg h₁ h₂ h)
  · rintro (hpos | heq)
    · exact WeldSettings.multiplier_mono hweld hpos h₁ h₂ h
    · exact le_of_beq heq

end Settings

/-! ## §3. Estimates. -/

/-- An estimate under given settings, with a weld of a length in a wall of a thickness, at a rate
for the metre. -/
structure Estimate.Welds (e : Estimate) (s : Settings) (length : Option Float) (rate t : Float) :
    Prop where
  /-- It is the estimate of an input with this thickness, at rates with this one. -/
  estimated : ∃ (input : EstimateInput) (rates : Rates), input.estimateAt rates s = .ok e
    ∧ input.parameterValues.get? s.thicknessParameter = some t ∧ rates.weldingPerMeter = rate
  /-- The weld has this length. -/
  weldLength_eq : e.calculatedValues.weldLength = length

/-- The welding of an estimate costs what its length, its rate and its thickness make it cost. -/
theorem Estimate.Welds.weldingCost_eq {e : Estimate} {s : Settings} {length : Option Float}
    {rate t : Float} (h : e.Welds s length rate t) :
    e.costEstimate.weldingCost = s.weldingCost length rate t := by
  obtain ⟨⟨input, rates, hestimate, hthickness, rfl⟩, rfl⟩ := h
  obtain ⟨-, found, -, rfl⟩ := EstimateInput.exists_found_of_estimateAt hestimate
  show _ * s.weldMultiplier.multiplier (input.parameterValues.get? s.thicknessParameter) = _
  rw [hthickness]
  rfl

namespace Settings

variable {s : Settings} {text : String} {t₁ t₂ : Float}

/-- A seam of a metre in a wall of a thickness. -/
def seamIn (t : Float) : EstimateInput where
  shape := (Shape.new "seam" "Seam" .rectangularPlate).withFormula "weldLength"
    { expression := "a", declared := ["a"], unit := "mm" }
  material := { id := "M", name := "M", category := .carbonSteel, density := some 7850 }
  parameterValues := .ofList [("a", 1000), ("t", t)]

/-- The estimate for the seam, at the rates that nobody gives. -/
theorem exists_seam (s : Settings) (t cost : Float)
    (h : ((seamIn t).estimateAt {} s).toOption.any (fun e =>
      decide (e.calculatedValues.weldLength = some 1000 ∧ e.costEstimate.weldingCost = cost))
        = true)
    (hthickness : (seamIn t).parameterValues.get? s.thicknessParameter = some t) :
    ∃ e : Estimate, e.Welds s (some 1000) 500 t ∧ e.costEstimate.weldingCost = cost := by
  cases hestimate : (seamIn t).estimateAt {} s with
  | error fault =>
    rw [hestimate] at h
    exact nomatch h
  | ok e =>
    rw [hestimate] at h
    obtain ⟨hlength, hcost⟩ := of_decide_eq_true h
    exact ⟨e, ⟨⟨seamIn t, {}, hestimate, hthickness, rfl⟩, hlength⟩, hcost⟩

/-- **When thicker walls cost no less to weld.**  Under settings that are read from a text, the
factor of a thicker wall is at least that of a thinner one exactly if the divisor is positive or
the two are equal: with a negative divisor the factor never grows.  So it is with the cost of a weld
whose length and rate are not negative, as far as the two costs are numbers. -/
theorem thicker_costs_no_less_iff (hs : ofText text = .ok s) (h₁ : t₁.isFinite = true)
    (h₂ : t₂.isFinite = true) (h : t₁ ≤ t₂) :
    (s.weldMultiplier.multiplier (some t₁) ≤ s.weldMultiplier.multiplier (some t₂)
      ↔ 0 < s.weldMultiplier.divisor
        ∨ (s.weldMultiplier.multiplier (some t₁) == s.weldMultiplier.multiplier (some t₂)) = true)
    ∧ ∀ (length : Option Float) (rate : Float) (thin thick : Estimate),
      (∀ l ∈ length, 0 ≤ l) → 0 ≤ rate → thin.Welds s length rate t₁ →
      thick.Welds s length rate t₂ →
        (thin.costEstimate.weldingCost ≤ thick.costEstimate.weldingCost
          ↔ (thin.costEstimate.weldingCost.isNaN = false
              ∧ thick.costEstimate.weldingCost.isNaN = false)
            ∧ (0 < s.weldMultiplier.divisor
              ∨ (thin.costEstimate.weldingCost == thick.costEstimate.weldingCost) = true)) := by
  refine ⟨multiplier_le_iff hs h₁ h₂ h, fun length rate thin thick hlength hrate hthin hthick => ?_⟩
  rw [hthin.weldingCost_eq, hthick.weldingCost_eq]
  exact weldingCost_le_iff hs h₁ h₂ h hlength hrate

/-- Under the usual settings the seam costs no less in the thicker wall. -/
theorem usual_thicker_dearer : ∃ thin thick : Estimate,
    thin.Welds {} (some 1000) 500 5 ∧ thin.costEstimate.weldingCost = 450
    ∧ thick.Welds {} (some 1000) 500 20 ∧ thick.costEstimate.weldingCost = 600
    ∧ thin.costEstimate.weldingCost ≤ thick.costEstimate.weldingCost := by
  obtain ⟨thin, hthin, hthinCost⟩ := exists_seam {} 5 450 (by decide +kernel) (by decide +kernel)
  obtain ⟨thick, hthick, hthickCost⟩ := exists_seam {} 20 600 (by decide +kernel)
    (by decide +kernel)
  obtain ⟨-, hcosts⟩ := thicker_costs_no_less_iff (ofText_write allFinite_usual (by decide))
    (show (5 : Float).isFinite = true by decide) (show (20 : Float).isFinite = true by decide)
    (by decide)
  have hiff := hcosts (some 1000) 500 thin thick (by decide) (by decide) hthin hthick
  have hnumbers : thin.costEstimate.weldingCost.isNaN = false
      ∧ thick.costEstimate.weldingCost.isNaN = false := by
    rw [hthinCost, hthickCost]
    decide
  exact ⟨thin, thick, hthin, hthinCost, hthick, hthickCost, hiff.2 ⟨hnumbers, Or.inl (by decide)⟩⟩

/-- Settings that are valid, and by which the effort falls with the thickness. -/
def falling : Settings := { weldMultiplier := { divisor := -50 } }

/-- With a negative divisor the thicker wall has the smaller factor, and the seam costs less. -/
theorem falling_thicker_cheaper :
    ofText (Json.write falling.toJson) = .ok falling
    ∧ (0 : Float) ≤ 20
    ∧ falling.weldMultiplier.multiplier (some 0) = 1.2
    ∧ falling.weldMultiplier.multiplier (some 20) = 0.8
    ∧ ¬ falling.weldMultiplier.multiplier (some 0) ≤ falling.weldMultiplier.multiplier (some 20)
    ∧ ∃ thin thick : Estimate,
      thin.Welds falling (some 1000) 500 0 ∧ thin.costEstimate.weldingCost = 600
      ∧ thick.Welds falling (some 1000) 500 20 ∧ thick.costEstimate.weldingCost = 400
      ∧ ¬ thin.costEstimate.weldingCost ≤ thick.costEstimate.weldingCost := by
  obtain ⟨thin, hthin, hthinCost⟩ := exists_seam falling 0 600 (by decide +kernel)
    (by decide +kernel)
  obtain ⟨thick, hthick, hthickCost⟩ := exists_seam falling 20 400 (by decide +kernel)
    (by decide +kernel)
  have hcheaper : ¬ thin.costEstimate.weldingCost ≤ thick.costEstimate.weldingCost := by
    rw [hthinCost, hthickCost]
    decide
  exact ⟨ofText_write (by decide) (by decide), by decide, by decide +kernel,
    by decide +kernel, by decide +kernel, thin, thick, hthin, hthinCost, hthick, hthickCost,
    hcheaper⟩

end Settings

end ShapeEstimator
