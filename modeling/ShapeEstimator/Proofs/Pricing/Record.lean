/-
  ShapeEstimator.Proofs.Pricing.Record
  ────────────────────────────────
  **RATES AND SETTINGS SURVIVE BEING WRITTEN.**

  All fields are written, so that no default is used when they are read; the defaults are
  finite, so that settings that were read are.
-/
import ShapeEstimator.Pricing.Record
import ShapeEstimator.Proofs.Catalog.Record

namespace ShapeEstimator

open Json (Lawful float_lawful string_lawful bind_ofJson?_object)

/-! ## §1. Rates and factors. -/

namespace Rates

/-- The numbers of rates. -/
def numbers (x : Rates) : List Float :=
  [x.cuttingPerMeter, x.edgePreparationPerMeter, x.weldingPerMeter, x.surfaceTreatmentPerSqm,
    x.baseCost, x.costPerKg, x.laborHours, x.laborRatePerHour]

/-- The usual rates are finite. -/
theorem allFinite_usual : AllFinite ({} : Rates).numbers := by
  simp only [numbers, allFinite_cons, allFinite_nil, and_true]
  decide

theorem lawful : Lawful (fun x => AllFinite x.numbers) toJson ofJson? where
  reads x hx := by
    simp only [numbers, allFinite_cons, allFinite_nil, and_true] at hx
    obtain ⟨hcutting, hedge, hwelding, hsurface, hbase, hkg, hhours, hrate⟩ := hx
    refine bind_ofJson?_object rfl (by decide) fun r hr => ?_
    rw [float_lawful.withDefault (hr "cuttingPerMeter") hcutting,
      float_lawful.withDefault (hr "edgePreparationPerMeter") hedge,
      float_lawful.withDefault (hr "weldingPerMeter") hwelding,
      float_lawful.withDefault (hr "surfaceTreatmentPerSqm") hsurface,
      float_lawful.withDefault (hr "baseCost") hbase,
      float_lawful.withDefault (hr "costPerKg") hkg,
      float_lawful.withDefault (hr "laborHours") hhours,
      float_lawful.withDefault (hr "laborRatePerHour") hrate]
    rfl
  accepts j x h := by
    unfold ofJson? at h
    simp only [↓Json.bind_eq_some, Json.pure_eq_some] at h
    obtain ⟨r, -, _, hcutting, _, hedge, _, hwelding, _, hsurface, _, hbase, _, hkg, _, hhours, _,
      hrate, rfl⟩ := h
    have husual := allFinite_usual
    simp only [numbers, allFinite_cons, allFinite_nil, and_true] at husual ⊢
    obtain ⟨ucutting, uedge, uwelding, usurface, ubase, ukg, uhours, urate⟩ := husual
    exact ⟨float_lawful.of_withDefault ucutting hcutting, float_lawful.of_withDefault uedge hedge,
      float_lawful.of_withDefault uwelding hwelding,
      float_lawful.of_withDefault usurface hsurface, float_lawful.of_withDefault ubase hbase,
      float_lawful.of_withDefault ukg hkg, float_lawful.of_withDefault uhours hhours,
      float_lawful.of_withDefault urate hrate⟩
  rejects := rfl

@[simp] theorem fits_toJson (levels : Nat) (x : Rates) : x.toJson.Fits (levels + 1) := by
  simp [toJson]

end Rates

namespace RateFactors

/-- The numbers of factors. -/
def numbers (x : RateFactors) : List Float :=
  [x.cutting, x.edgePreparation, x.welding, x.surfaceTreatment, x.labor]

theorem lawful : Lawful (fun x => AllFinite x.numbers) toJson ofJson? where
  reads x hx := by
    simp only [numbers, allFinite_cons, allFinite_nil, and_true] at hx
    obtain ⟨hcutting, hedge, hwelding, hsurface, hlabor⟩ := hx
    refine bind_ofJson?_object rfl (by decide) fun r hr => ?_
    rw [float_lawful.withDefault (hr "cutting") hcutting,
      float_lawful.withDefault (hr "edgePreparation") hedge,
      float_lawful.withDefault (hr "welding") hwelding,
      float_lawful.withDefault (hr "surfaceTreatment") hsurface,
      float_lawful.withDefault (hr "labor") hlabor]
    rfl
  accepts j x h := by
    unfold ofJson? at h
    simp only [↓Json.bind_eq_some, Json.pure_eq_some] at h
    obtain ⟨r, -, _, hcutting, _, hedge, _, hwelding, _, hsurface, _, hlabor, rfl⟩ := h
    have hone : (1 : Float).isFinite = true := by decide
    simp only [numbers, allFinite_cons, allFinite_nil, and_true]
    exact ⟨float_lawful.of_withDefault hone hcutting, float_lawful.of_withDefault hone hedge,
      float_lawful.of_withDefault hone hwelding, float_lawful.of_withDefault hone hsurface,
      float_lawful.of_withDefault hone hlabor⟩
  rejects := rfl

@[simp] theorem fits_toJson (levels : Nat) (x : RateFactors) : x.toJson.Fits (levels + 1) := by
  simp [toJson]

end RateFactors

namespace WeldSettings

/-- The numbers of the settings of welding. -/
def numbers (x : WeldSettings) : List Float := [x.referenceThickness, x.divisor, x.floor]

/-- The usual settings of welding are finite. -/
theorem allFinite_usual : AllFinite ({} : WeldSettings).numbers := by
  simp only [numbers, allFinite_cons, allFinite_nil, and_true]
  decide

theorem lawful : Lawful (fun x => AllFinite x.numbers) toJson ofJson? where
  reads x hx := by
    simp only [numbers, allFinite_cons, allFinite_nil, and_true] at hx
    obtain ⟨hthickness, hdivisor, hfloor⟩ := hx
    refine bind_ofJson?_object rfl (by decide) fun r hr => ?_
    rw [float_lawful.withDefault (hr "referenceThickness") hthickness,
      float_lawful.withDefault (hr "divisor") hdivisor,
      float_lawful.withDefault (hr "floor") hfloor]
    rfl
  accepts j x h := by
    unfold ofJson? at h
    simp only [↓Json.bind_eq_some, Json.pure_eq_some] at h
    obtain ⟨r, -, _, hthickness, _, hdivisor, _, hfloor, rfl⟩ := h
    have husual := allFinite_usual
    simp only [numbers, allFinite_cons, allFinite_nil, and_true] at husual ⊢
    obtain ⟨uthickness, udivisor, ufloor⟩ := husual
    exact ⟨float_lawful.of_withDefault uthickness hthickness,
      float_lawful.of_withDefault udivisor hdivisor, float_lawful.of_withDefault ufloor hfloor⟩
  rejects := rfl

@[simp] theorem fits_toJson (levels : Nat) (x : WeldSettings) : x.toJson.Fits (levels + 1) := by
  simp [toJson]

end WeldSettings

/-! ## §2. Settings. -/

namespace Settings

/-- The numbers of settings. -/
def numbers (s : Settings) : List Float :=
  s.defaultDensity :: s.scrapRecoveryRate :: (s.weldMultiplier.numbers ++ (s.defaultRates.numbers
    ++ (MaterialCategory.all.flatMap (fun c =>
        (s.materialRateFactors c).toList.flatMap RateFactors.numbers)
      ++ Category.all.flatMap fun c => (s.categoryLaborHours c).toList)))

theorem allFinite_numbers_iff {s : Settings} : AllFinite s.numbers ↔
    s.defaultDensity.isFinite = true ∧ s.scrapRecoveryRate.isFinite = true
      ∧ AllFinite s.weldMultiplier.numbers ∧ AllFinite s.defaultRates.numbers
      ∧ (∀ c x, s.materialRateFactors c = some x → AllFinite x.numbers)
      ∧ (∀ c x, s.categoryLaborHours c = some x → x.isFinite = true) := by
  simp only [numbers, allFinite_cons, allFinite_append, allFinite_flatMap, allFinite_toList,
    Option.mem_toList, MaterialCategory.mem_all, Category.mem_all, true_implies]

/-- The usual settings are finite. -/
theorem allFinite_usual : AllFinite ({} : Settings).numbers := by
  refine allFinite_numbers_iff.2
    ⟨by decide, by decide, WeldSettings.allFinite_usual, Rates.allFinite_usual,
      ?_, ?_⟩
  · intro c x hx
    cases c <;> cases hx <;> simp [RateFactors.numbers] <;> decide
  · intro c x hx
    cases c <;> cases hx <;> decide

theorem factors_lawful :
    Lawful (fun t => ∀ c x, t c = some x → AllFinite x.numbers)
      (Json.ofTable MaterialCategory.all MaterialCategory.name RateFactors.toJson)
      (Json.table? (MaterialCategory.all.map fun c => (c.name, c)) RateFactors.ofJson?) :=
  RateFactors.lawful.table MaterialCategory.mem_all fun c => by cases c <;> rfl

theorem hours_lawful :
    Lawful (fun t => ∀ c x, t c = some x → x.isFinite = true)
      (Json.ofTable Category.all Category.name Json.ofFloat)
      (Json.table? (Category.all.map fun c => (c.name, c)) Json.float?) :=
  float_lawful.table Category.mem_all fun c => by cases c <;> rfl

theorem lawful : Lawful (fun s => AllFinite s.numbers) toJson ofJson? where
  reads s hs := by
    obtain ⟨hdensity, hscrap, hweld, hrates, hfactors, hhours⟩ := allFinite_numbers_iff.1 hs
    refine bind_ofJson?_object rfl (by decide) fun r hr => ?_
    rw [float_lawful.withDefault (hr "defaultDensity") hdensity,
      float_lawful.withDefault (hr "scrapRecoveryRate") hscrap,
      string_lawful.withDefault (hr "defaultCurrency") trivial,
      string_lawful.withDefault (hr "thicknessParameter") trivial,
      WeldSettings.lawful.withDefault (hr "weldMultiplier") hweld,
      Rates.lawful.withDefault (hr "defaultRates") hrates,
      factors_lawful.withDefault (hr "materialRateFactors") hfactors,
      hours_lawful.withDefault (hr "categoryLaborHours") hhours]
    rfl
  accepts j s h := by
    unfold ofJson? at h
    simp only [↓Json.bind_eq_some, Json.pure_eq_some] at h
    obtain ⟨r, -, _, hdensity, _, hscrap, _, -, _, -, _, hweld, _, hrates, _, hfactors, _, hhours,
      rfl⟩ := h
    obtain ⟨udensity, uscrap, uweld, urates, ufactors, uhours⟩ :=
      allFinite_numbers_iff.1 allFinite_usual
    exact allFinite_numbers_iff.2 ⟨float_lawful.of_withDefault udensity hdensity,
      float_lawful.of_withDefault uscrap hscrap, WeldSettings.lawful.of_withDefault uweld hweld,
      Rates.lawful.of_withDefault urates hrates, factors_lawful.of_withDefault ufactors hfactors,
      hours_lawful.of_withDefault uhours hhours⟩
  rejects := rfl

@[simp] theorem fits_toJson (levels : Nat) (s : Settings) : s.toJson.Fits (levels + 3) := by
  have hfactors := Json.fits_ofTable MaterialCategory.all MaterialCategory.name
    s.materialRateFactors (RateFactors.fits_toJson levels)
  have hhours := Json.fits_ofTable Category.all Category.name s.categoryLaborHours
    (Json.fits_ofFloat (levels + 1))
  simp [toJson, hfactors, hhours]

end Settings

end ShapeEstimator
