/-
  ShapeEstimator.Proofs.Estimate.Readable
  ────────────────────────────────
  **WHICH ESTIMATES CAN BE READ BACK.**

  What comes from formulas is finite, and so is all that is read from a text.  Costs and
  totals are sums and products of these and may leave the range of doubles.  A sum or a
  product that is finite has finite parts, so that four numbers tell whether all are:

      material cost,  net cost of a kilogram,  total weight,  total cost

  An estimate for which these are finite is read back from its text, and no other is.
-/
import ShapeEstimator.Proofs.Decimal.Double
import ShapeEstimator.Proofs.Estimate.NamedFormulas
import ShapeEstimator.Proofs.Estimate.Record

namespace ShapeEstimator

open Binary64 (isFinite_of_add isFinite_of_sub isFinite_of_mul)
open Formula (Compiled Definition EvaluationResult Outcomes RangeWarning)

/-! ## §1. Results of formulas. -/

/-- The value of an expression is lowered from a decimal. -/
theorem Formula.Compiled.isFinite_of_evaluate {c : Compiled} {values : Formula.Bindings} {x : Float}
    (h : c.evaluate values = .ok x) : x.isFinite = true := by
  unfold evaluate at h
  split at h
  · exact nomatch h
  · split at h
    · rename_i value _
      cases h
      exact value.isFinite_lower
    · exact nomatch h

theorem Formula.Definition.isFinite_of_evaluate {f : Definition} {context : NameMap Float}
    {density : Option Float} {r : EvaluationResult} (h : f.evaluate context density = .ok r) :
    r.result.isFinite = true := by
  obtain ⟨_, _, hvalue, _⟩ := exists_of_evaluate h
  exact Compiled.isFinite_of_evaluate hvalue

/-! ## §2. Geometry. -/

namespace EstimateInput

variable {input : EstimateInput} {settings : Settings} {o : Outcomes} {found : Findings}

theorem isFinite_value? {name : String} {x : Float}
    (ho : input.outcomes (input.resolvedDensity settings) = .ok o)
    (h : o.value? name = some x) : x.isFinite = true := by
  rw [value?_outcomes ho] at h
  obtain ⟨f, _, hvalue⟩ := Option.bind_eq_some_iff.1 h
  obtain ⟨r, hr, rfl⟩ := Definition.value?_eq_some_iff.1 hvalue
  exact Definition.isFinite_of_evaluate hr

/-- All that formulas say about a piece is finite. -/
theorem allFinite_geometry (h : input.Found (input.resolvedDensity settings) found) :
    AllFinite found.geometry.numbers := by
  have hzero : (0 : Float).isFinite = true := by decide
  have hvalue : ∀ name x, found.outcomes.value? name = some x → x.isFinite = true :=
    fun _ _ => isFinite_value? h.outcomes
  have hvalueD : ∀ name, ((found.outcomes.value? name).getD 0).isFinite = true := by
    intro name
    cases hx : found.outcomes.value? name with
    | none => exact hzero
    | some x => exact hvalue name x hx
  have hdimensions : ∀ e ∈ found.geometry.blankDimensions.entries, e.2.isFinite = true := by
    intro e he
    obtain ⟨f, r, ⟨_, _, _, _, _, hr⟩, hv⟩ :=
      (Geometry.blankDimensions_addComposites h.geometry).2 e.2 (NameMap.mem_entries_iff.1 he)
    rw [← hv]
    exact Definition.isFinite_of_evaluate hr
  have hreports : ∀ e ∈ found.geometry.customValues.entries, e.2.isFinite = true := by
    intro e he
    obtain ⟨f, r, ⟨_, _, _, _, hkept, _⟩, hv⟩ :=
      (Geometry.customValues_addComposites h.geometry).2 e.2 (NameMap.mem_entries_iff.1 he)
    rw [← hv]
    exact Definition.isFinite_of_evaluate hkept.evaluate_eq
  have hscrap : ∀ w, (none : Option Float) = some w → w.isFinite = true := by
    intro w hw
    cases hw
  rw [Geometry.eq_of_addComposites h.geometry] at hdimensions hreports ⊢
  simp only [Geometry.numbers, allFinite_cons, allFinite_append, allFinite_toList, allFinite_map]
  exact ⟨hvalueD _, hvalueD _, hvalue _, hvalue _, hvalue _, hvalue _, hvalue _, hvalue _,
    hvalue _, hvalue _, hvalue _, hvalue _, hscrap, hdimensions, hreports⟩

end EstimateInput

theorem Geometry.allFinite_withScrap {g : Geometry} {scrap : Option Float}
    (hg : AllFinite g.numbers) (hscrap : ∀ w, scrap = some w → w.isFinite = true) :
    AllFinite { g with scrapWeight := scrap }.numbers := by
  simp only [numbers, allFinite_cons, allFinite_append, allFinite_toList] at hg ⊢
  obtain ⟨hvolume, hweight, hsurface, hinner, houter, hwetted, hblank, hfinished, hpercentage,
    hedge, hweld, hperimeter, _, hmaps⟩ := hg
  exact ⟨hvolume, hweight, hsurface, hinner, houter, hwetted, hblank, hfinished, hpercentage,
    hedge, hweld, hperimeter, hscrap, hmaps⟩

/-! ## §3. Costs. -/

namespace Costs

variable {g : Geometry} {price recoveryRate multiplier quantity : Float} {currency : String}
variable {rates : Rates}

/-- The numbers of costs that tell whether all of them are finite. -/
structure HeadlinesFinite (c : Costs) : Prop where
  /-- The cost of the material of one piece. -/
  materialCost : c.materialCost.isFinite = true
  /-- The net cost of one kilogram. -/
  effectiveCostPerKg : c.effectiveCostPerKg.isFinite = true
  /-- The cost of all pieces. -/
  totalCost : c.totalCost.isFinite = true

instance (c : Costs) : Decidable c.HeadlinesFinite :=
  decidable_of_iff (c.materialCost.isFinite = true ∧ c.effectiveCostPerKg.isFinite = true
    ∧ c.totalCost.isFinite = true) ⟨fun h => ⟨h.1, h.2.1, h.2.2⟩, fun h => ⟨h.1, h.2, h.3⟩⟩

theorem isFinite_scrapWeight (h : (scrapCredit g price recoveryRate).isFinite = true) :
    ∀ w, g.scrapWeight = some w → w.isFinite = true := by
  intro w hw
  unfold scrapCredit at h
  rw [hw] at h
  exact (isFinite_of_mul (isFinite_of_mul h).1).1

/-- From the total back to the items: each step of the sum is finite, and so are the rates. -/
theorem HeadlinesFinite.allFinite
    (h : (ofGeometry g price currency rates recoveryRate multiplier quantity).HeadlinesFinite) :
    AllFinite (ofGeometry g price currency rates recoveryRate multiplier quantity).numbers
      ∧ ∀ w, g.scrapWeight = some w → w.isFinite = true := by
  obtain ⟨hmaterial, hkg, htotal⟩ := h
  -- the total is the net cost times the number of pieces, and that is a sum of all items
  have hunit := (isFinite_of_mul htotal).1
  obtain ⟨hnet, hfabrication⟩ := isFinite_of_add hunit
  obtain ⟨hactual, hcredit⟩ := isFinite_of_sub hnet
  obtain ⟨hwelded, hsurface⟩ := isFinite_of_add hfabrication
  obtain ⟨hprepared, hwelding⟩ := isFinite_of_add hwelded
  obtain ⟨hcut, hedge⟩ := isFinite_of_add hprepared
  obtain ⟨hbase, hcutting⟩ := isFinite_of_add hcut
  obtain ⟨hweighed, hlabor⟩ := isFinite_of_add hbase
  obtain ⟨hfixed, hweight⟩ := isFinite_of_add hweighed
  obtain ⟨hweldRate, hmultiplier⟩ := isFinite_of_mul hwelding
  refine ⟨?_, isFinite_scrapWeight hcredit⟩
  simp only [numbers, Rates.numbers, allFinite_append, allFinite_cons, allFinite_nil, and_true]
  exact ⟨⟨hmaterial, hactual, hcredit, hcutting, hedge, hwelding, hsurface, hbase, hfabrication,
    hunit, htotal, hkg, hmultiplier⟩, (isFinite_of_mul hcutting).2, (isFinite_of_mul hedge).2,
    (isFinite_of_mul hweldRate).2, (isFinite_of_mul hsurface).2, hfixed,
    (isFinite_of_mul hweight).2, (isFinite_of_mul hlabor).1, (isFinite_of_mul hlabor).2⟩

theorem headlinesFinite_of_allFinite {c : Costs} (h : AllFinite c.numbers) :
    c.HeadlinesFinite where
  materialCost := h _ (by simp [numbers])
  effectiveCostPerKg := h _ (by simp [numbers])
  totalCost := h _ (by simp [numbers])

/-- What is not finite is written as null, where nothing but a number is read. -/
theorem headlinesFinite_of_ofJson? {c c' : Costs} (h : ofJson? c.toJson = some c') :
    c.HeadlinesFinite := by
  unfold ofJson? at h
  simp only [↓Json.bind_eq_some, Json.pure_eq_some] at h
  obtain ⟨r, hr, _, hmaterial, _, -, _, -, _, -, _, -, _, -, _, -, _, -, _, -, _, -, _, htotal, _,
    hkg, _⟩ := h
  unfold toJson at hr
  have hlookup := Json.lookup_of_ofJson?_object (by rfl) (by decide) hr
  unfold Json.Record.required at hmaterial htotal hkg
  rw [hlookup] at hmaterial htotal hkg
  exact ⟨Json.isFinite_of_float? hmaterial, Json.isFinite_of_float? hkg,
    Json.isFinite_of_float? htotal⟩

end Costs

/-! ## §4. Estimates. -/

namespace Estimate

/-- The numbers of an estimate that tell whether all of them are finite. -/
structure HeadlinesFinite (e : Estimate) : Prop where
  /-- The costs. -/
  costs : e.costEstimate.HeadlinesFinite
  /-- The weight of all pieces. -/
  totalWeight : e.totalWeight.isFinite = true

instance (e : Estimate) : Decidable e.HeadlinesFinite :=
  decidable_of_iff (e.costEstimate.HeadlinesFinite ∧ e.totalWeight.isFinite = true)
    ⟨fun h => ⟨h.1, h.2⟩, fun h => ⟨h.1, h.2⟩⟩

theorem headlinesFinite_of_allFinite {e : Estimate} (h : AllFinite e.numbers) :
    e.HeadlinesFinite where
  costs := Costs.headlinesFinite_of_allFinite fun x hx => h x (by simp [numbers, hx])
  totalWeight := h _ (by simp [numbers])

theorem headlinesFinite_of_ofJson? {e e' : Estimate} (h : ofJson? e.toJson = some e') :
    e.HeadlinesFinite := by
  unfold ofJson? at h
  simp only [↓Json.bind_eq_some, Json.pure_eq_some] at h
  obtain ⟨r, hr, _, -, _, -, _, -, _, -, _, -, _, -, _, -, _, hcosts, _, -, _, hweight, _⟩ := h
  unfold toJson at hr
  have hlookup := Json.lookup_of_ofJson? (by rfl) (by decide) hr
  have hcostEstimate : r.fields.lookup "costEstimate" = some e.costEstimate.toJson :=
    hlookup "costEstimate"
  have htotalWeight : r.fields.lookup "totalWeight" = some (Json.ofFloat e.totalWeight) :=
    hlookup "totalWeight"
  rw [Json.Record.required, hcostEstimate, Option.bind_some] at hcosts
  rw [Json.Record.required, htotalWeight, Option.bind_some] at hweight
  exact ⟨Costs.headlinesFinite_of_ofJson? hcosts, Json.isFinite_of_float? hweight⟩

theorem ofJson?_eq_none {e : Estimate} (h : ¬ e.HeadlinesFinite) : ofJson? e.toJson = none := by
  cases hread : ofJson? e.toJson with
  | none => rfl
  | some e' => exact absurd (headlinesFinite_of_ofJson? hread) h

end Estimate

namespace EstimateInput

variable {input : EstimateInput} {rates : Rates} {settings : Settings} {e : Estimate}

theorem allFinite_rangeWarnings {o : Outcomes}
    (ho : input.outcomes (input.resolvedDensity settings) = .ok o)
    (hinput : AllFinite input.numbers) : ∀ w ∈ rangeWarnings o, AllFinite w.numbers := by
  intro w hw
  obtain ⟨f, r, ⟨name, hf, hr⟩, hw⟩ := (mem_rangeWarnings_iff ho).1 hw
  -- the bounds stand in a formula of the shape, which is finite
  simp only [numbers, Shape.numbers, allFinite_cons, allFinite_append, allFinite_flatMap] at hinput
  have hformula := hinput.2.1.2.1 _ (NameMap.mem_entries_iff.2 hf)
  simp only [FormulaEntry.numbers, Definition.numbers, allFinite_flatMap, Option.mem_toList]
    at hformula
  unfold Definition.rangeWarning? at hw
  obtain ⟨range, hrange, hw⟩ := Option.bind_eq_some_iff.1 hw
  have hbounds := hformula range hrange
  split at hw
  · cases hw
  · cases hw
    simp only [Formula.ExpectedRange.numbers, RangeWarning.numbers, allFinite_cons, allFinite_nil,
      and_true] at hbounds ⊢
    exact ⟨Definition.isFinite_of_evaluate hr, hbounds⟩

theorem isFinite_resolvedDensity (hinput : AllFinite input.numbers)
    (hsettings : AllFinite settings.numbers) :
    (input.resolvedDensity settings).isFinite = true := by
  simp only [numbers, Material.numbers, allFinite_cons, allFinite_append, allFinite_toList]
    at hinput
  unfold resolvedDensity
  cases hd : input.material.density with
  | none => exact (Settings.allFinite_numbers_iff.1 hsettings).1
  | some d => exact hinput.2.2.1.1 d hd

/-- **Which estimates are finite throughout.**  For input and settings whose numbers are finite, the
numbers of an estimate are finite exactly when its headlines are. -/
theorem allFinite_estimate_iff (hinput : AllFinite input.numbers)
    (hsettings : AllFinite settings.numbers) (h : input.estimateAt rates settings = .ok e) :
    AllFinite e.numbers ↔ e.HeadlinesFinite := by
  constructor
  · exact Estimate.headlinesFinite_of_allFinite
  · obtain ⟨-, found, hfound, rfl⟩ := exists_found_of_estimateAt h
    rintro ⟨hcosts, hweight⟩
    obtain ⟨hitems, hscrap⟩ := hcosts.allFinite
    have hgeometry := Geometry.allFinite_withScrap (allFinite_geometry hfound) hscrap
    have hwarnings := allFinite_rangeWarnings hfound.outcomes hinput
    have hdensity := isFinite_resolvedDensity hinput hsettings
    simp only [numbers, allFinite_cons, allFinite_append, allFinite_map] at hinput
    obtain ⟨hquantity, _, _, hvalues, _⟩ := hinput
    have hparameters : ∀ p ∈ input.echoes, AllFinite p.numbers := by
      unfold echoes
      intro p hp
      obtain ⟨v, hv, rfl⟩ := List.mem_map.1 hp
      simp only [ParameterEcho.numbers, allFinite_cons, allFinite_nil, and_true]
      exact hvalues v hv
    simp only [Estimate.numbers, allFinite_append, allFinite_cons, allFinite_flatMap,
      allFinite_nil, and_true]
    exact ⟨⟨hdensity, hquantity, hweight, hcosts.totalCost⟩, hparameters, hgeometry, hitems,
      hwarnings⟩

end EstimateInput

/-! ## §5. Texts. -/

/-- The settings of a text are the valid ones that are read from it. -/
theorem Settings.ofText_eq_ok_iff {text : String} {s : Settings} :
    ofText text = .ok s ↔ Json.decodeText? ofJson? text = some s ∧ s.validate = .ok () := by
  unfold ofText Json.decodeText?
  cases (Json.read? text).bind ofJson? with
  | none => simp
  | some t =>
    show (t.validate >>= fun _ => .ok t) = .ok s ↔ _
    cases hvalid : t.validate with
    | error fault =>
      refine iff_of_false nofun ?_
      rintro ⟨h, hs⟩
      cases h
      exact nomatch hvalid.symm.trans hs
    | ok u =>
      constructor
      · intro h
        cases h
        exact ⟨rfl, hvalid⟩
      · rintro ⟨h, _⟩
        cases h
        rfl

/-- Valid settings are read from their own text. -/
theorem Settings.ofText_write {s : Settings} (hs : AllFinite s.numbers)
    (hvalid : s.validate = .ok ()) : ofText (Json.write s.toJson) = .ok s := by
  have hwrite : Json.write ∈ [Json.write, Json.pretty] := List.mem_cons_self
  refine ofText_eq_ok_iff.2 ⟨?_, hvalid⟩
  rw [Json.decodeText?_of_mem_writers hwrite (s.fits_toJson _)]
  exact lawful.reads s hs

namespace EstimateInput

variable {input : EstimateInput} {settings : Settings} {e : Estimate}
variable {inputText settingsText : String}

/-- **Which estimates can be read back.**  For input and settings that were read from texts, all
numbers of an estimate are finite exactly when its headlines are; then the estimate is read back
from its own text, and otherwise nothing is. -/
theorem estimate_readable_iff (hinput : Json.decodeText? ofJson? inputText = some input)
    (hsettings : Settings.ofText settingsText = .ok settings)
    (h : input.estimate settings = .ok e) :
    (AllFinite e.numbers ↔ e.HeadlinesFinite)
    ∧ ∀ w ∈ [Json.write, Json.pretty],
      (Json.decodeText? Estimate.ofJson? (w e.toJson) = some e ↔ e.HeadlinesFinite)
      ∧ (Json.decodeText? Estimate.ofJson? (w e.toJson) = none ↔ ¬ e.HeadlinesFinite) := by
  have hfinite : AllFinite e.numbers ↔ e.HeadlinesFinite :=
    allFinite_estimate_iff (lawful.of_decodeText? hinput)
      (Settings.lawful.of_decodeText? (Settings.ofText_eq_ok_iff.1 hsettings).1) h
  refine ⟨hfinite, fun w hw => ?_⟩
  rw [Json.decodeText?_of_mem_writers hw (e.fits_toJson _)]
  by_cases hheadlines : e.HeadlinesFinite
  · have hread := Estimate.lawful.reads e (hfinite.2 hheadlines)
    rw [hread]
    exact ⟨iff_of_true rfl hheadlines, iff_of_false nofun (not_not.2 hheadlines)⟩
  · rw [Estimate.ofJson?_eq_none hheadlines]
    exact ⟨iff_of_false nofun hheadlines, iff_of_true rfl hheadlines⟩

/-! ## §6. A dear seam. -/

/-- The length of a seam. -/
def seamLength : Definition := { expression := "a", declared := ["a"], unit := "mm" }

/-- A seam of two metres in a wall of five millimetres, at a rate for welding. -/
def seamAt (rate : Float) : EstimateInput where
  shape := (Shape.new "seam" "Seam" .rectangularPlate).withFormula "weldLength" seamLength
  material := { id := "M", name := "M", category := .carbonSteel, density := some 7850 }
  parameterValues := .ofList [("a", 2000), ("t", 5)]
  rateOverrides := some { weldingPerMeter := some rate }

/-- Settings by which a wall of five millimetres takes half of the usual effort. -/
def thinWalls : Settings := { weldMultiplier := { divisor := 10 } }

/-- The seam and the settings as they are read from their texts, and the estimate. -/
theorem exists_seam_estimate (rate : Float) (p : Estimate → Bool)
    (hrate : AllFinite (seamAt rate).numbers)
    (hp : ((seamAt rate).estimate thinWalls).toOption.any p = true) :
    Json.decodeText? ofJson? (Json.write (seamAt rate).toJson) = some (seamAt rate)
      ∧ Settings.ofText (Json.write thinWalls.toJson) = .ok thinWalls
      ∧ ∃ e, (seamAt rate).estimate thinWalls = .ok e ∧ p e = true := by
  have hwrite : Json.write ∈ [Json.write, Json.pretty] := List.mem_cons_self
  refine ⟨?_, Settings.ofText_write (by decide) (by decide), ?_⟩
  · rw [Json.decodeText?_of_mem_writers hwrite ((seamAt rate).fits_toJson _)]
    exact lawful.reads _ hrate
  · cases h : (seamAt rate).estimate thinWalls with
    | ok e =>
      rw [h] at hp
      exact ⟨e, rfl, hp⟩
    | error fault =>
      rw [h] at hp
      exact nomatch hp

/-- At an ordinary rate the estimate of the seam is read back. -/
theorem seam_readable : ∃ e, (seamAt 40).estimate thinWalls = .ok e ∧ AllFinite e.numbers
    ∧ Json.decodeText? Estimate.ofJson? (Json.write e.toJson) = some e := by
  obtain ⟨hinput, hsettings, e, he, hfinite⟩ := exists_seam_estimate 40
    (fun e => decide e.HeadlinesFinite) (by decide +kernel) (by decide +kernel)
  obtain ⟨hiff, htexts⟩ := estimate_readable_iff hinput hsettings he
  have hheadlines := of_decide_eq_true hfinite
  have hwritten := (htexts Json.write List.mem_cons_self).1
  exact ⟨e, he, hiff.2 hheadlines, hwritten.2 hheadlines⟩

/-- At `1e308` a metre the whole seam would cost `1e308`, but two metres at that rate are out of
range before the factor of one half is applied, and the estimate cannot be read back. -/
theorem seam_unreadable :
    Json.decodeText? ofJson? (Json.write (seamAt 1e308).toJson) = some (seamAt 1e308)
    ∧ Settings.ofText (Json.write thinWalls.toJson) = .ok thinWalls
    ∧ ∃ e, (seamAt 1e308).estimate thinWalls = .ok e
      ∧ e.costEstimate.weldingCost.isFinite = false ∧ ¬ AllFinite e.numbers
      ∧ Json.decodeText? Estimate.ofJson? (Json.write e.toJson) = none
      ∧ Json.decodeText? Estimate.ofJson? (Json.pretty e.toJson) = none := by
  obtain ⟨hinput, hsettings, e, he, hcosts⟩ := exists_seam_estimate 1e308
    (fun e => !e.costEstimate.weldingCost.isFinite && !decide e.HeadlinesFinite)
    (by decide +kernel) (by decide +kernel)
  rw [Bool.and_eq_true, Bool.not_eq_true', Bool.not_eq_true', decide_eq_false_iff_not] at hcosts
  obtain ⟨hwelding, hheadlines⟩ := hcosts
  have hnumbers : ¬ AllFinite e.numbers := fun hall =>
    hheadlines (Estimate.headlinesFinite_of_allFinite hall)
  have hnone : ∀ w ∈ [Json.write, Json.pretty],
      Json.decodeText? Estimate.ofJson? (w e.toJson) = none := by
    intro w hw
    rw [Json.decodeText?_of_mem_writers hw (e.fits_toJson _)]
    exact Estimate.ofJson?_eq_none hheadlines
  exact ⟨hinput, hsettings, e, he, hwelding, hnumbers, hnone _ (by simp), hnone _ (by simp)⟩

end EstimateInput

end ShapeEstimator
