/-
  ShapeEstimator.Proofs.Estimate.Scrap
  ────────────────────────────────
  **WHEN SCRAP IS CHARGED.**

  Scrap is what a blank has beyond the part.  Whether it is charged, and whether a blank
  that is too small is reported, is decided by the sign of one product:

      w  =  (blank - finished) · t / 10⁹ · ρ

  The sign is that of the difference of the areas where thickness and density have one
  sign, and the other one where they have not; and a product that is too small has no
  sign at all.
-/
import ShapeEstimator.Proofs.Binary64.Sign
import ShapeEstimator.Proofs.Estimate.Readable

namespace ShapeEstimator

open Binary64 (greater sign? lt_zero_iff zero_lt_iff)
open Float.Model (UnpackedFloat)
open Formula (Definition RangeWarning)

/-! ## §1. The sign of the excess. -/

/-- Two factors of one sign, neither of them zero. -/
def Aligned (t density : Float) : Prop := 0 < t ∧ 0 < density ∨ t < 0 ∧ density < 0

/-- Two factors of different signs, neither of them zero. -/
def Opposed (t density : Float) : Prop := 0 < t ∧ density < 0 ∨ t < 0 ∧ 0 < density

/-- A product that has lost its sign: it is zero, or not a number. -/
def IsLost (w : Float) : Prop := ¬ w < 0 ∧ ¬ 0 < w

/-- The weight between two areas, as it is computed. -/
def excessWeight (blank finished t density : Float) : Float :=
  (blank - finished) * t / 1e9 * density

instance (t density : Float) : Decidable (Aligned t density) := inferInstanceAs (Decidable (_ ∨ _))

instance (t density : Float) : Decidable (Opposed t density) := inferInstanceAs (Decidable (_ ∨ _))

instance (w : Float) : Decidable (IsLost w) := inferInstanceAs (Decidable (_ ∧ _))

section Excess

variable {b f t density : Float}

/-- Two factors with signs have one sign or different ones, as their product tells. -/
theorem aligned_or_opposed {u v : UnpackedFloat.Sign} (hu : sign? t = some u)
    (hv : sign? density = some v) :
    u * v = .positive ∧ Aligned t density ∨ u * v = .negative ∧ Opposed t density := by
  unfold Aligned Opposed
  rw [zero_lt_iff, zero_lt_iff, lt_zero_iff, lt_zero_iff, hu, hv]
  cases u <;> cases v
  · exact Or.inl ⟨rfl, Or.inr ⟨rfl, rfl⟩⟩
  · exact Or.inr ⟨rfl, Or.inr ⟨rfl, rfl⟩⟩
  · exact Or.inr ⟨rfl, Or.inl ⟨rfl, rfl⟩⟩
  · exact Or.inl ⟨rfl, Or.inl ⟨rfl, rfl⟩⟩

/-- **The sign of the excess**, where it has one, is that of the difference of the areas for a
thickness and a density of one sign, and the other one for different signs. -/
theorem sign?_excessWeight {r : UnpackedFloat.Sign}
    (h : sign? (excessWeight b f t density) = some r) :
    r = .negative ∧ (b < f ∧ Aligned t density ∨ f < b ∧ Opposed t density)
      ∨ r = .positive ∧ (f < b ∧ Aligned t density ∨ b < f ∧ Opposed t density) := by
  have hassoc : ∀ d u v : UnpackedFloat.Sign, d * u * v = d * (u * v) := by
    intro d u v
    cases d <;> cases u <;> cases v <;> rfl
  -- from the last operation to the first: density, 10⁹, thickness, difference
  obtain ⟨w, v, hw, hv, hr⟩ := Binary64.sign?_mul h
  have hvolume := Binary64.sign?_div (by decide +kernel : (0 : Float) < 1e9) hw
  obtain ⟨d, u, hd, hu, rfl⟩ := Binary64.sign?_mul hvolume
  rw [hassoc] at hr
  rcases aligned_or_opposed hu hv with ⟨hfactors, hfactors'⟩ | ⟨hfactors, hfactors'⟩
  · rw [hfactors] at hr
    rcases Binary64.sign?_sub hd with ⟨rfl, hlt⟩ | ⟨rfl, hlt⟩
    · exact Or.inl ⟨hr.symm, Or.inl ⟨hlt, hfactors'⟩⟩
    · exact Or.inr ⟨hr.symm, Or.inl ⟨hlt, hfactors'⟩⟩
  · rw [hfactors] at hr
    rcases Binary64.sign?_sub hd with ⟨rfl, hlt⟩ | ⟨rfl, hlt⟩
    · exact Or.inr ⟨hr.symm, Or.inr ⟨hlt, hfactors'⟩⟩
    · exact Or.inl ⟨hr.symm, Or.inr ⟨hlt, hfactors'⟩⟩

theorem of_excessWeight_neg (h : excessWeight b f t density < 0) :
    b < f ∧ Aligned t density ∨ f < b ∧ Opposed t density := by
  rcases sign?_excessWeight (lt_zero_iff.1 h) with ⟨_, h⟩ | ⟨hr, _⟩
  · exact h
  · exact nomatch hr

theorem of_excessWeight_pos (h : 0 < excessWeight b f t density) :
    f < b ∧ Aligned t density ∨ b < f ∧ Opposed t density := by
  rcases sign?_excessWeight (zero_lt_iff.1 h) with ⟨hr, _⟩ | ⟨_, h⟩
  · exact nomatch hr
  · exact h

theorem Aligned.not_opposed (h : Aligned t density) : ¬ Opposed t density := by
  unfold Aligned at h
  unfold Opposed
  rw [zero_lt_iff, zero_lt_iff, lt_zero_iff, lt_zero_iff] at h ⊢
  rintro (⟨ht, hd⟩ | ⟨ht, hd⟩)
  · rcases h with ⟨_, h⟩ | ⟨h, _⟩
    · exact nomatch h.symm.trans hd
    · exact nomatch h.symm.trans ht
  · rcases h with ⟨h, _⟩ | ⟨_, h⟩
    · exact nomatch h.symm.trans ht
    · exact nomatch h.symm.trans hd

/-- The excess of a blank that is not larger is not positive. -/
theorem not_excessWeight_pos_of_le (hle : b ≤ f) (haligned : b < f → Aligned t density) :
    ¬ 0 < excessWeight b f t density := by
  intro hpos
  rcases of_excessWeight_pos hpos with ⟨hgt, _⟩ | ⟨hlt, hopposed⟩
  · exact Binary64.not_lt_of_le hle hgt
  · exact (haligned hlt).not_opposed hopposed

/-- **When the excess is negative for a smaller blank only.**  Thickness and density have one sign
for a smaller blank, and not different ones for a larger blank, except where the product is lost. -/
theorem excessWeight_neg_iff_lt_iff :
    (excessWeight b f t density < 0 ↔ b < f) ↔
      (b < f → Aligned t density ∧ ¬ IsLost (excessWeight b f t density))
      ∧ (f < b → Opposed t density → IsLost (excessWeight b f t density)) := by
  constructor
  · intro hneg_iff
    refine ⟨fun hlt => ?_, fun hgt hopposed => ⟨fun hneg => ?_, fun hpos => ?_⟩⟩
    · have hneg := hneg_iff.2 hlt
      refine ⟨?_, fun hlost => hlost.1 hneg⟩
      rcases of_excessWeight_neg hneg with ⟨_, haligned⟩ | ⟨hgt, _⟩
      · exact haligned
      · exact absurd hgt (Binary64.not_lt_of_lt hlt)
    · exact Binary64.not_lt_of_lt hgt (hneg_iff.1 hneg)
    · rcases of_excessWeight_pos hpos with ⟨_, haligned⟩ | ⟨hlt, _⟩
      · exact haligned.not_opposed hopposed
      · exact Binary64.not_lt_of_lt hlt hgt
  · rintro ⟨hsmaller, hlarger⟩
    constructor
    · intro hneg
      rcases of_excessWeight_neg hneg with ⟨hlt, _⟩ | ⟨hgt, hopposed⟩
      · exact hlt
      · exact absurd hneg (hlarger hgt hopposed).1
    · intro hlt
      obtain ⟨haligned, hkept⟩ := hsmaller hlt
      by_contra hnot
      -- a product that is not positive either is lost
      refine hkept ⟨hnot, fun hpos => ?_⟩
      rcases of_excessWeight_pos hpos with ⟨hgt, _⟩ | ⟨_, hopposed⟩
      · exact Binary64.not_lt_of_lt hlt hgt
      · exact haligned.not_opposed hopposed

end Excess

/-! ## §2. What an estimate says about scrap. -/

namespace Costs

variable {g : Geometry} {scrap price recoveryRate : Float}

theorem scrapCredit_of_some (h : g.scrapWeight = some scrap) :
    scrapCredit g price recoveryRate = scrap * price * recoveryRate := by
  unfold scrapCredit
  rw [h]

theorem actualMaterialCost_of_some (h : g.scrapWeight = some scrap) :
    actualMaterialCost g price = (g.weight + scrap) * price := by
  unfold actualMaterialCost
  rw [h]
  rfl

end Costs

namespace EstimateInput

variable {input : EstimateInput} {rates : Rates} {settings : Settings} {e : Estimate}
variable {b f t : Float}

/-- The warning about a blank that is too small stands behind all other warnings. -/
def WarnsOfSmallBlank (input : EstimateInput) (e : Estimate) : Prop :=
  ∃ advice weight, input.advice = .ok advice
    ∧ e.warnings = advice ++ e.rangeWarnings.map RangeWarning.describe
      ++ ["Blank area is smaller than finished area; scrap weight " ++ Binary64.fixedText 3 weight
        ++ " kg ignored"]

/-- Scrap is charged for what a blank has beyond the part: nothing for a blank that is not larger,
and a warning for one that is smaller. -/
structure ScrapBeyondPart (input : EstimateInput) (e : Estimate) (blank finished : Float) :
    Prop where
  /-- For a blank that is not larger there is no scrap, and the material costs what the part
  costs. -/
  none_charged : blank ≤ finished → ∃ s, e.calculatedValues.scrapWeight = some s
    ∧ (s == 0) = true ∧ (e.costEstimate.scrapRecoveryValue == 0) = true
    ∧ (e.costEstimate.materialCostActual == e.costEstimate.materialCost) = true
  /-- A blank that is smaller is reported, and no other. -/
  warned_iff : input.WarnsOfSmallBlank e ↔ blank < finished

/-- What an estimate with both areas says, by the excess. -/
structure ChargesFor (input : EstimateInput) (settings : Settings) (e : Estimate) (w : Float) :
    Prop where
  scrapWeight : e.calculatedValues.scrapWeight = some (greater w 0)
  credit : e.costEstimate.scrapRecoveryValue
    = greater w 0 * input.material.pricePerKilogram * settings.scrapRecoveryRate
  cost : ∃ weight : Float, weight.isFinite = true
    ∧ e.costEstimate.materialCost = weight * input.material.pricePerKilogram
    ∧ e.costEstimate.materialCostActual
      = (weight + greater w 0) * input.material.pricePerKilogram
  warnings : ∃ advice, input.advice = .ok advice
    ∧ e.warnings = advice ++ e.rangeWarnings.map RangeWarning.describe
      ++ (smallBlankWarning? (some w)).toList

/-- The weight of a part is finite. -/
theorem isFinite_weight {found : Findings}
    (h : input.Found (input.resolvedDensity settings) found) :
    found.geometry.weight.isFinite = true := by
  have hall := allFinite_geometry h
  simp only [Geometry.numbers, allFinite_cons, allFinite_append] at hall
  exact hall.2.1

theorem chargesFor_excessWeight (h : input.estimateAt rates settings = .ok e)
    (hb : e.calculatedValues.blankArea = some b) (hf : e.calculatedValues.finishedArea = some f)
    (ht : input.parameterValues.get? settings.thicknessParameter = some t) :
    input.ChargesFor settings e (excessWeight b f t e.density) := by
  obtain ⟨-, found, hfound, rfl⟩ := exists_found_of_estimateAt h
  have hexcess : found.geometry.excessWeight?
      (input.parameterValues.get? settings.thicknessParameter) (input.resolvedDensity settings)
        = some (excessWeight b f t (input.resolvedDensity settings)) := by
    have hb : found.geometry.blankArea = some b := hb
    have hf : found.geometry.finishedArea = some f := hf
    unfold Geometry.excessWeight?
    rw [hb, hf, ht]
    rfl
  have hscrap := congrArg (Option.map fun w => greater w 0) hexcess
  refine ⟨hscrap, ?_, ⟨found.geometry.weight, isFinite_weight hfound, rfl, ?_⟩,
    found.advice, hfound.advice, ?_⟩
  · exact Costs.scrapCredit_of_some hscrap
  · exact Costs.actualMaterialCost_of_some hscrap
  · show _ ++ (smallBlankWarning? (found.geometry.excessWeight? _ _)).toList = _
    rw [hexcess]
    rfl

/-! ## §3. When scrap is charged as it should be. -/

namespace ChargesFor

variable {w : Float}

/-- The warning is given where the excess is negative. -/
theorem warns_iff (h : input.ChargesFor settings e w) : input.WarnsOfSmallBlank e ↔ w < 0 := by
  obtain ⟨advice, hadvice, hwarnings⟩ := h.warnings
  unfold WarnsOfSmallBlank
  rw [hwarnings]
  by_cases hw : w < 0
  · refine iff_of_true ⟨advice, w, hadvice, ?_⟩ hw
    show _ ++ (if w < 0 then _ else _ : Option String).toList = _
    rw [if_pos hw]
    rfl
  · refine iff_of_false ?_ hw
    rintro ⟨advice', weight, hadvice', heq⟩
    cases hadvice.symm.trans hadvice'
    have heq : _ ++ (if w < 0 then _ else _ : Option String).toList = _ := heq
    rw [if_neg hw] at heq
    -- one warning is not none
    exact nomatch List.append_cancel_left heq

/-- Nothing is charged where the excess is not positive and the prices are finite. -/
theorem nothing (h : input.ChargesFor settings e w) (hw : ¬ 0 < w)
    (hprice : input.material.pricePerKilogram.isFinite = true)
    (hrate : settings.scrapRecoveryRate.isFinite = true) :
    ∃ s, e.calculatedValues.scrapWeight = some s ∧ (s == 0) = true
      ∧ (e.costEstimate.scrapRecoveryValue == 0) = true
      ∧ (e.costEstimate.materialCostActual == e.costEstimate.materialCost) = true := by
  have hzero : (greater w 0 == 0) = true := Binary64.greater_zero hw
  obtain ⟨weight, hfinite, hcost, hactual⟩ := h.cost
  refine ⟨_, h.scrapWeight, hzero, ?_, ?_⟩
  · rw [h.credit]
    exact (Binary64.zero_mul_mul_beq_zero_iff hzero).2 ⟨hprice, hrate⟩
  · rw [hcost, hactual]
    exact Binary64.add_zero_mul_beq hfinite hzero hprice

/-- A credit of nothing for scrap of nothing has finite prices. -/
theorem isFinite_prices (h : input.ChargesFor settings e w) {s : Float}
    (hs : e.calculatedValues.scrapWeight = some s) (hzero : (s == 0) = true)
    (hcredit : (e.costEstimate.scrapRecoveryValue == 0) = true) :
    input.material.pricePerKilogram.isFinite = true
      ∧ settings.scrapRecoveryRate.isFinite = true := by
  rw [h.scrapWeight] at hs
  cases hs
  rw [h.credit] at hcredit
  exact (Binary64.zero_mul_mul_beq_zero_iff hzero).1 hcredit

end ChargesFor

/-- **When scrap is charged for what the blank has beyond the part.**  For a blank that is not
larger the prices must be finite.  For a smaller one thickness and density must have one sign, for a
larger one they must not have different signs, except where the product is lost. -/
theorem scrapBeyondPart_iff (h : input.estimateAt rates settings = .ok e)
    (hb : e.calculatedValues.blankArea = some b) (hf : e.calculatedValues.finishedArea = some f)
    (ht : input.parameterValues.get? settings.thicknessParameter = some t) :
    input.ScrapBeyondPart e b f ↔
      (b ≤ f → input.material.pricePerKilogram.isFinite = true
        ∧ settings.scrapRecoveryRate.isFinite = true)
      ∧ (b < f → Aligned t e.density ∧ ¬ IsLost (excessWeight b f t e.density))
      ∧ (f < b → Opposed t e.density → IsLost (excessWeight b f t e.density)) := by
  have hcharges := chargesFor_excessWeight h hb hf ht
  constructor
  · rintro ⟨hnone, hwarned⟩
    rw [hcharges.warns_iff, excessWeight_neg_iff_lt_iff] at hwarned
    refine ⟨fun hle => ?_, hwarned⟩
    obtain ⟨s, hs, hzero, hcredit, _⟩ := hnone hle
    exact hcharges.isFinite_prices hs hzero hcredit
  · rintro ⟨hprices, hsmaller, hlarger⟩
    constructor
    · intro hle
      obtain ⟨hprice, hrate⟩ := hprices hle
      have hexcess : ¬ 0 < excessWeight b f t e.density :=
        not_excessWeight_pos_of_le hle fun hlt => (hsmaller hlt).1
      exact hcharges.nothing hexcess hprice hrate
    · rw [hcharges.warns_iff, excessWeight_neg_iff_lt_iff]
      exact ⟨hsmaller, hlarger⟩

/-! ## §4. A plate of negative thickness. -/

/-- A formula that is a parameter. -/
def parameterArea (name : String) : Definition where
  expression := name
  declared := [name]
  unit := "mm²"

/-- A plate of a square metre that is cut from a blank, in a wall of a given thickness. -/
def plateFrom (blank thickness : Float) : EstimateInput where
  shape := ((Shape.new "plate" "Plate" .rectangularPlate).withFormula "blankArea"
    (parameterArea "b")).withFormula "finishedArea" (parameterArea "f")
  material :=
    { id := "M", name := "M", category := .carbonSteel, density := some 7850
      currentPrice := some { amount := 250, currency := "INR" } }
  parameterValues := .ofList [("b", blank), ("f", 1e6), ("t", thickness)]

/-- The estimate of such a plate, by what is asked of it. -/
theorem exists_plate_estimate (blank thickness : Float) (p : Estimate → Bool)
    (hp : ((plateFrom blank thickness).estimateAt {} {}).toOption.any p = true) :
    ∃ e, (plateFrom blank thickness).estimateAt {} {} = .ok e ∧ p e = true := by
  cases h : (plateFrom blank thickness).estimateAt {} {} with
  | ok e =>
    rw [h] at hp
    exact ⟨e, rfl, hp⟩
  | error stop =>
    rw [h] at hp
    exact nomatch hp

/-- At ten millimetres no scrap is charged for a blank that is too small, and it is reported. -/
theorem smallBlank_ignored : ∃ e, (plateFrom 999000 10).estimateAt {} {} = .ok e
    ∧ e.calculatedValues.blankArea = some 999000 ∧ e.calculatedValues.finishedArea = some 1e6
    ∧ (plateFrom 999000 10).ScrapBeyondPart e 999000 1e6 := by
  obtain ⟨e, he, hvalues⟩ := exists_plate_estimate 999000 10
    (fun e => e.calculatedValues.blankArea = some 999000
      ∧ e.calculatedValues.finishedArea = some 1e6 ∧ e.density = 7850) (by decide +kernel)
  obtain ⟨hb, hf, hdensity⟩ := of_decide_eq_true hvalues
  refine ⟨e, he, hb, hf, (scrapBeyondPart_iff he hb hf (t := 10) (by decide +kernel)).2 ?_⟩
  rw [hdensity]
  decide +kernel

/-- At minus ten millimetres a blank that is too small is charged as scrap and not reported, and a
blank that is larger than the part is reported as too small. -/
theorem negativeThickness_charged :
    (∃ e, (plateFrom 999000 (-10)).estimateAt {} {} = .ok e
      ∧ e.calculatedValues.blankArea = some 999000 ∧ e.calculatedValues.finishedArea = some 1e6
      ∧ ¬ (plateFrom 999000 (-10)).ScrapBeyondPart e 999000 1e6)
    ∧ ∃ e, (plateFrom 1001000 (-10)).estimateAt {} {} = .ok e
      ∧ e.calculatedValues.blankArea = some 1001000 ∧ e.calculatedValues.finishedArea = some 1e6
      ∧ (plateFrom 1001000 (-10)).WarnsOfSmallBlank e
      ∧ ¬ (plateFrom 1001000 (-10)).ScrapBeyondPart e 1001000 1e6 := by
  constructor
  · obtain ⟨e, he, hvalues⟩ := exists_plate_estimate 999000 (-10)
      (fun e => e.calculatedValues.blankArea = some 999000
        ∧ e.calculatedValues.finishedArea = some 1e6
        ∧ (e.costEstimate.scrapRecoveryValue == 0) = false) (by decide +kernel)
    obtain ⟨hb, hf, hcredit⟩ := of_decide_eq_true hvalues
    refine ⟨e, he, hb, hf, fun hscrap => ?_⟩
    obtain ⟨_, _, _, hzero, _⟩ := hscrap.none_charged (by decide +kernel)
    rw [hcredit] at hzero
    exact nomatch hzero
  · obtain ⟨e, he, hvalues⟩ := exists_plate_estimate 1001000 (-10)
      (fun e => e.calculatedValues.blankArea = some 1001000
        ∧ e.calculatedValues.finishedArea = some 1e6 ∧ e.density = 7850) (by decide +kernel)
    obtain ⟨hb, hf, hdensity⟩ := of_decide_eq_true hvalues
    have hcharges := chargesFor_excessWeight he hb hf (t := -10) (by decide +kernel)
    rw [hdensity] at hcharges
    have hwarns : (plateFrom 1001000 (-10)).WarnsOfSmallBlank e :=
      hcharges.warns_iff.2 (by decide +kernel)
    refine ⟨e, he, hb, hf, hwarns, fun hscrap => ?_⟩
    exact absurd (hscrap.warned_iff.1 hwarns) (by decide +kernel)

end EstimateInput

end ShapeEstimator
