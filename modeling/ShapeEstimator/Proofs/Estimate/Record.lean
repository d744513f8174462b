/-
  ShapeEstimator.Proofs.Estimate.Record
  ────────────────────────────────
  **INPUTS, ESTIMATES AND FAULTS SURVIVE BEING WRITTEN.**

  With the inputs, the estimates and the faults the laws of all records are there, and
  every record is read back from its text, written in either way:

      finite x   →   decode (read? (write (encode x)))  =  x
-/
import ShapeEstimator.Estimate.Record
import ShapeEstimator.Proofs.Pricing.Record

namespace ShapeEstimator

open Json (Lawful RoundTrips float_lawful string_lawful strings_lawful nat64_lawful
  bind_ofJson?_ofFields bind_ofJson?_object bind_ofMembers?)

/-! ## §1. Inputs. -/

namespace EstimateInput

/-- The numbers of an input. -/
def numbers (x : EstimateInput) : List Float :=
  x.quantity :: (x.shape.numbers ++ (x.material.numbers
    ++ (x.parameterValues.entries.map (·.2)
      ++ x.rateOverrides.toList.flatMap RateOverrides.numbers)))

theorem lawful : Lawful (fun x => AllFinite x.numbers) toJson ofJson? where
  reads x hx := by
    simp only [numbers, allFinite_cons, allFinite_append, allFinite_map, allFinite_flatMap,
      Option.mem_toList] at hx
    obtain ⟨hquantity, hshape, hmaterial, hvalues, hrates⟩ := hx
    refine bind_ofJson?_ofFields rfl (by decide) fun r hr => ?_
    rw [Shape.lawful.required (hr "shape") hshape,
      Material.lawful.required (hr "material") hmaterial,
      float_lawful.map.withDefault (hr "parameterValues") hvalues,
      float_lawful.withDefault (hr "quantity") hquantity,
      RateOverrides.lawful.optional (hr "rateOverrides") hrates]
    rfl
  accepts j x h := by
    unfold ofJson? at h
    simp only [↓Json.bind_eq_some, Json.pure_eq_some] at h
    obtain ⟨r, -, _, hshape, _, hmaterial, _, hvalues, _, hquantity, _, hrates, rfl⟩ := h
    have hone : (1 : Float).isFinite = true := by decide
    simp only [numbers, allFinite_cons, allFinite_append, allFinite_map, allFinite_flatMap,
      Option.mem_toList]
    exact ⟨float_lawful.of_withDefault hone hquantity,
      Shape.lawful.of_required hshape, Material.lawful.of_required hmaterial,
      float_lawful.map.of_withDefault allFinite_empty hvalues, RateOverrides.lawful.of_optional hrates⟩
  rejects := rfl

@[simp] theorem fits_toJson (levels : Nat) (x : EstimateInput) : x.toJson.Fits (levels + 8) := by
  simp [toJson]

end EstimateInput

/-! ## §2. Geometry and costs. -/

namespace Geometry

/-- The numbers of a geometry. -/
def numbers (g : Geometry) : List Float :=
  g.volume :: g.weight :: (g.surfaceArea.toList ++ (g.innerSurfaceArea.toList
    ++ (g.outerSurfaceArea.toList ++ (g.wettedArea.toList ++ (g.blankArea.toList
      ++ (g.finishedArea.toList ++ (g.scrapPercentage.toList ++ (g.edgeLength.toList
        ++ (g.weldLength.toList ++ (g.perimeter.toList ++ (g.scrapWeight.toList
          ++ (g.blankDimensions.entries.map (·.2) ++ g.customValues.entries.map (·.2)))))))))))))

theorem lawful : Lawful (fun g => AllFinite g.numbers) toJson ofJson? where
  reads g hg := by
    simp only [numbers, allFinite_cons, allFinite_append, allFinite_toList, allFinite_map] at hg
    obtain ⟨hvolume, hweight, hsurface, hinner, houter, hwetted, hblank, hfinished, hscrap, hedge,
      hweld, hperimeter, hscrapWeight, hdimensions, hcustom⟩ := hg
    refine bind_ofJson?_ofFields rfl (by decide) fun r hr => ?_
    rw [float_lawful.required (hr "volume") hvolume, float_lawful.required (hr "weight") hweight,
      float_lawful.optional (hr "surfaceArea") hsurface,
      float_lawful.optional (hr "innerSurfaceArea") hinner,
      float_lawful.optional (hr "outerSurfaceArea") houter,
      float_lawful.optional (hr "wettedArea") hwetted,
      float_lawful.optional (hr "blankArea") hblank,
      float_lawful.optional (hr "finishedArea") hfinished,
      float_lawful.optional (hr "scrapPercentage") hscrap,
      float_lawful.optional (hr "edgeLength") hedge,
      float_lawful.optional (hr "weldLength") hweld,
      float_lawful.optional (hr "perimeter") hperimeter,
      float_lawful.optional (hr "scrapWeight") hscrapWeight,
      float_lawful.map.withDefault_unless (hr "blankDimensions") NameMap.eq_empty_of_isEmpty
        hdimensions,
      float_lawful.map.withDefault_unless (hr "customValues") NameMap.eq_empty_of_isEmpty hcustom]
    rfl
  accepts j g h := by
    unfold ofJson? at h
    simp only [↓Json.bind_eq_some, Json.pure_eq_some] at h
    obtain ⟨r, -, _, hvolume, _, hweight, _, hsurface, _, hinner, _, houter, _, hwetted, _, hblank,
      _, hfinished, _, hscrap, _, hedge, _, hweld, _, hperimeter, _, hscrapWeight, _, hdimensions,
      _, hcustom, rfl⟩ := h
    simp only [numbers, allFinite_cons, allFinite_append, allFinite_toList, allFinite_map]
    exact ⟨float_lawful.of_required hvolume, float_lawful.of_required hweight,
      float_lawful.of_optional hsurface, float_lawful.of_optional hinner,
      float_lawful.of_optional houter, float_lawful.of_optional hwetted,
      float_lawful.of_optional hblank, float_lawful.of_optional hfinished,
      float_lawful.of_optional hscrap, float_lawful.of_optional hedge,
      float_lawful.of_optional hweld, float_lawful.of_optional hperimeter,
      float_lawful.of_optional hscrapWeight, float_lawful.map.of_withDefault allFinite_empty hdimensions,
      float_lawful.map.of_withDefault allFinite_empty hcustom⟩
  rejects := rfl

@[simp] theorem fits_toJson (levels : Nat) (g : Geometry) : g.toJson.Fits (levels + 2) := by
  simp [toJson, mapUnlessEmpty]

end Geometry

namespace Costs

/-- The numbers of costs. -/
def numbers (c : Costs) : List Float :=
  [c.materialCost, c.materialCostActual, c.scrapRecoveryValue, c.cuttingCost,
    c.edgePreparationCost, c.weldingCost, c.surfaceTreatmentCost, c.baseFabricationCost,
    c.totalFabricationCost, c.unitTotalCost, c.totalCost, c.effectiveCostPerKg,
    c.weldingThicknessMultiplier] ++ c.fabricationRates.numbers

theorem lawful : Lawful (fun c => AllFinite c.numbers) toJson ofJson? where
  reads c hc := by
    simp only [numbers, allFinite_append, allFinite_cons, allFinite_nil, and_true] at hc
    obtain ⟨⟨hmaterial, hactual, hscrap, hcutting, hedge, hwelding, hsurface, hbase, hfabrication,
      hunit, htotal, hkg, hmultiplier⟩, hrates⟩ := hc
    refine bind_ofJson?_object rfl (by decide) fun r hr => ?_
    rw [float_lawful.required (hr "materialCost") hmaterial,
      float_lawful.required (hr "materialCostActual") hactual,
      float_lawful.required (hr "scrapRecoveryValue") hscrap,
      float_lawful.required (hr "cuttingCost") hcutting,
      float_lawful.required (hr "edgePreparationCost") hedge,
      float_lawful.required (hr "weldingCost") hwelding,
      float_lawful.required (hr "surfaceTreatmentCost") hsurface,
      float_lawful.required (hr "baseFabricationCost") hbase,
      float_lawful.required (hr "totalFabricationCost") hfabrication,
      float_lawful.required (hr "unitTotalCost") hunit,
      float_lawful.required (hr "totalCost") htotal,
      float_lawful.required (hr "effectiveCostPerKg") hkg,
      string_lawful.required (hr "currency") trivial,
      Rates.lawful.required (hr "fabricationRates") hrates,
      float_lawful.required (hr "weldingThicknessMultiplier") hmultiplier]
    rfl
  accepts j c h := by
    unfold ofJson? at h
    simp only [↓Json.bind_eq_some, Json.pure_eq_some] at h
    obtain ⟨r, -, _, hmaterial, _, hactual, _, hscrap, _, hcutting, _, hedge, _, hwelding, _,
      hsurface, _, hbase, _, hfabrication, _, hunit, _, htotal, _, hkg, _, -, _, hrates, _,
      hmultiplier, rfl⟩ := h
    simp only [numbers, allFinite_append, allFinite_cons, allFinite_nil, and_true]
    exact ⟨⟨float_lawful.of_required hmaterial, float_lawful.of_required hactual,
      float_lawful.of_required hscrap, float_lawful.of_required hcutting,
      float_lawful.of_required hedge, float_lawful.of_required hwelding,
      float_lawful.of_required hsurface, float_lawful.of_required hbase,
      float_lawful.of_required hfabrication, float_lawful.of_required hunit,
      float_lawful.of_required htotal, float_lawful.of_required hkg,
      float_lawful.of_required hmultiplier⟩, Rates.lawful.of_required hrates⟩
  rejects := rfl

@[simp] theorem fits_toJson (levels : Nat) (c : Costs) : c.toJson.Fits (levels + 2) := by
  simp [toJson]

end Costs

/-! ## §3. Estimates. -/

namespace ParameterEcho

/-- The numbers of a parameter as it was used. -/
def numbers (p : ParameterEcho) : List Float := [p.value]

theorem lawful : Lawful (fun p => AllFinite p.numbers) toJson ofJson? where
  reads p hp := by
    simp only [numbers, allFinite_cons, allFinite_nil, and_true] at hp
    refine bind_ofJson?_object rfl (by decide) fun r hr => ?_
    rw [string_lawful.required (hr "name") trivial, float_lawful.required (hr "value") hp,
      string_lawful.required (hr "unit") trivial]
    rfl
  accepts j p h := by
    unfold ofJson? at h
    simp only [↓Json.bind_eq_some, Json.pure_eq_some] at h
    obtain ⟨r, -, _, -, value, hvalue, _, -, rfl⟩ := h
    simp [numbers, float_lawful.of_required hvalue]
  rejects := rfl

@[simp] theorem fits_toJson (levels : Nat) (p : ParameterEcho) : p.toJson.Fits (levels + 1) := by
  simp [toJson]

end ParameterEcho

namespace Estimate

/-- The numbers of an estimate. -/
def numbers (e : Estimate) : List Float :=
  [e.density, e.quantity, e.totalWeight, e.totalCost] ++ (e.parameters.flatMap ParameterEcho.numbers
    ++ (e.calculatedValues.numbers ++ (e.costEstimate.numbers
      ++ e.rangeWarnings.flatMap Formula.RangeWarning.numbers)))

theorem lawful : Lawful (fun e => AllFinite e.numbers) toJson ofJson? where
  reads e he := by
    simp only [numbers, allFinite_append, allFinite_cons, allFinite_nil, and_true,
      allFinite_flatMap] at he
    obtain ⟨⟨hdensity, hquantity, hweight, hcost⟩, hparameters, hgeometry, hcosts, hwarnings⟩ := he
    refine bind_ofJson?_ofFields rfl (by decide) fun r hr => ?_
    rw [string_lawful.required (hr "shapeKey") trivial,
      string_lawful.required (hr "shapeName") trivial,
      string_lawful.required (hr "materialId") trivial,
      string_lawful.required (hr "materialName") trivial,
      float_lawful.required (hr "density") hdensity,
      ParameterEcho.lawful.list.required (hr "parameters") hparameters,
      Geometry.lawful.required (hr "calculatedValues") hgeometry,
      Costs.lawful.required (hr "costEstimate") hcosts,
      float_lawful.required (hr "quantity") hquantity,
      float_lawful.required (hr "totalWeight") hweight,
      float_lawful.required (hr "totalCost") hcost,
      strings_lawful.withDefault_unless (hr "warnings") List.isEmpty_iff.1 trivial,
      Formula.RangeWarning.lawful.list.withDefault_unless (hr "rangeWarnings") List.isEmpty_iff.1
        hwarnings]
    rfl
  accepts j e h := by
    unfold ofJson? at h
    simp only [↓Json.bind_eq_some, Json.pure_eq_some] at h
    obtain ⟨r, -, _, -, _, -, _, -, _, -, _, hdensity, _, hparameters, _, hgeometry, _, hcosts, _,
      hquantity, _, hweight, _, hcost, _, -, _, hwarnings, rfl⟩ := h
    have hnone : ∀ w ∈ ([] : List Formula.RangeWarning), AllFinite w.numbers :=
      fun _ hw => absurd hw List.not_mem_nil
    simp only [numbers, allFinite_append, allFinite_cons, allFinite_nil, and_true,
      allFinite_flatMap]
    exact ⟨⟨float_lawful.of_required hdensity, float_lawful.of_required hquantity,
      float_lawful.of_required hweight, float_lawful.of_required hcost⟩,
      ParameterEcho.lawful.list.of_required hparameters, Geometry.lawful.of_required hgeometry,
      Costs.lawful.of_required hcosts,
      Formula.RangeWarning.lawful.list.of_withDefault hnone hwarnings⟩
  rejects := rfl

@[simp] theorem fits_toJson (levels : Nat) (e : Estimate) : e.toJson.Fits (levels + 3) := by
  simp [toJson, listUnlessEmpty]

end Estimate

/-! ## §4. Faults. -/

namespace Fault

/-- The position in an expression has 64 bits. -/
def PositionFits : Fault → Prop
  | .malformedExpression _ position _ => position < 2 ^ 64
  | _ => True

/-- The type stands in front of the details, so the details need not be readable as a whole. -/
theorem ofJson?_record (type : String) (kind : Kind) (details : List (String × Json))
    (h : kindNames.lookup type = some kind) :
    ofJson? (record type details) = ofDetails? kind details := by
  have hrecord : Json.Record.ofJson? ["type", "details"] (record type details)
      = some ⟨[("type", .string type), ("details", .object details)]⟩ := rfl
  unfold ofJson?
  rw [hrecord]
  show ((kindNames.lookup type).bind fun kind => ofDetails? kind details) = _
  rw [h]
  rfl

theorem positionFits_of_ofDetails? {kind : Kind} {details : List (String × Json)} {fault : Fault}
    (h : ofDetails? kind details = some fault) : fault.PositionFits := by
  cases kind with
  | malformedExpression =>
    rw [ofDetails?] at h
    simp only [↓Json.bind_eq_some, Json.pure_eq_some] at h
    obtain ⟨r, -, _, -, position, hposition, _, -, rfl⟩ := h
    exact nat64_lawful.of_required hposition
  | invalidInput =>
    rw [ofDetails?] at h
    simp only [↓Json.bind_eq_some, Json.pure_eq_some] at h
    obtain ⟨r, -, _, -, _, -, _, -, rfl⟩ := h
    trivial
  | missingVariables | evaluation | requiredFormulasFailed | corruptCatalogEntry =>
    rw [ofDetails?] at h
    simp only [↓Json.bind_eq_some, Json.pure_eq_some] at h
    obtain ⟨r, -, _, -, _, -, rfl⟩ := h
    trivial
  | shapeNotFound | unknownCategoryGroup | serialization =>
    rw [ofDetails?] at h
    simp only [↓Json.bind_eq_some, Json.pure_eq_some] at h
    obtain ⟨r, -, _, -, rfl⟩ := h
    trivial

theorem lawful : Lawful PositionFits toJson ofJson? where
  reads fault hfault := by
    cases fault with
    | malformedExpression expression position message =>
      rw [toJson, ofJson?_record "Syntax" .malformedExpression _ rfl, ofDetails?]
      refine bind_ofMembers? rfl (by decide) fun r hr => ?_
      rw [string_lawful.required (hr "expression") trivial,
        nat64_lawful.required (hr "position") hfault,
        string_lawful.required (hr "message") trivial]
      rfl
    | missingVariables expression missing =>
      rw [toJson, ofJson?_record "MissingVariables" .missingVariables _ rfl, ofDetails?]
      refine bind_ofMembers? rfl (by decide) fun r hr => ?_
      rw [string_lawful.required (hr "expression") trivial,
        strings_lawful.required (hr "missing") trivial]
      rfl
    | evaluation expression reason =>
      rw [toJson, ofJson?_record "Evaluation" .evaluation _ rfl, ofDetails?]
      refine bind_ofMembers? rfl (by decide) fun r hr => ?_
      rw [string_lawful.required (hr "expression") trivial,
        string_lawful.required (hr "reason") trivial]
      rfl
    | invalidInput field value reason =>
      rw [toJson, ofJson?_record "InvalidInput" .invalidInput _ rfl, ofDetails?]
      refine bind_ofMembers? rfl (by decide) fun r hr => ?_
      rw [string_lawful.required (hr "field") trivial, string_lawful.required (hr "value") trivial,
        string_lawful.required (hr "reason") trivial]
      rfl
    | requiredFormulasFailed shape formulas =>
      rw [toJson, ofJson?_record "RequiredFormulasFailed" .requiredFormulasFailed _ rfl, ofDetails?]
      refine bind_ofMembers? rfl (by decide) fun r hr => ?_
      rw [string_lawful.required (hr "shape") trivial,
        strings_lawful.required (hr "formulas") trivial]
      rfl
    | corruptCatalogEntry shape reason =>
      rw [toJson, ofJson?_record "CorruptCatalogEntry" .corruptCatalogEntry _ rfl, ofDetails?]
      refine bind_ofMembers? rfl (by decide) fun r hr => ?_
      rw [string_lawful.required (hr "shape") trivial,
        string_lawful.required (hr "reason") trivial]
      rfl
    | shapeNotFound key =>
      rw [toJson, ofJson?_record "ShapeNotFound" .shapeNotFound _ rfl, ofDetails?]
      refine bind_ofMembers? rfl (by decide) fun r hr => ?_
      rw [string_lawful.required (hr "key") trivial]
      rfl
    | unknownCategoryGroup group =>
      rw [toJson, ofJson?_record "UnknownCategoryGroup" .unknownCategoryGroup _ rfl, ofDetails?]
      refine bind_ofMembers? rfl (by decide) fun r hr => ?_
      rw [string_lawful.required (hr "group") trivial]
      rfl
    | serialization reason =>
      rw [toJson, ofJson?_record "SerializationError" .serialization _ rfl, ofDetails?]
      refine bind_ofMembers? rfl (by decide) fun r hr => ?_
      rw [string_lawful.required (hr "reason") trivial]
      rfl
  accepts j fault h := by
    unfold ofJson? at h
    simp only [↓Json.bind_eq_some] at h
    obtain ⟨r, -, h⟩ := h
    split at h
    · simp only [↓Json.bind_eq_some] at h
      obtain ⟨kind, -, details, -, h⟩ := h
      split at h
      · exact positionFits_of_ofDetails? h
      · cases h
    · cases h
  rejects := rfl

@[simp] theorem fits_toJson (levels : Nat) (fault : Fault) : fault.toJson.Fits (levels + 3) := by
  cases fault <;> simp [toJson, record]

end Fault

/-! ## §5. All records. -/

/-- Every record survives being written and read: as far as its numbers are finite, and in a
position of 64 bits, it is read back from either of its two texts, and the text that is written for
an accepted text is written for itself. -/
structure RecordsRoundTrip : Prop where
  /-- Numbers on their own. -/
  number : RoundTrips (fun x : Float => x.isFinite = true) Json.ofFloat Json.float?
  /-- Shapes. -/
  shape : RoundTrips (fun x : Shape => AllFinite x.numbers) Shape.toJson Shape.ofJson?
  /-- Categories of shapes. -/
  category : RoundTrips (fun _ : Category => True) Category.toJson Category.ofJson?
  /-- Groups of categories. -/
  group : RoundTrips (fun _ : Group => True) Group.toJson Group.ofJson?
  /-- Identifiers. -/
  identifier : RoundTrips (fun _ : Identifier => True) Identifier.toJson Identifier.ofJson?
  /-- Parameters. -/
  parameter : RoundTrips (fun x : Parameter => AllFinite x.numbers)
    Parameter.toJson Parameter.ofJson?
  /-- The domains of parameters. -/
  parameterDomain : RoundTrips (fun x : ParameterDomain => AllFinite x.numbers)
    ParameterDomain.toJson ParameterDomain.ofJson?
  /-- The options of a domain. -/
  parameterOption : RoundTrips (fun x : ParameterOption => AllFinite x.numbers)
    ParameterOption.toJson ParameterOption.ofJson?
  /-- The entries of a shape. -/
  formulaEntry : RoundTrips (fun x : FormulaEntry => AllFinite x.numbers)
    FormulaEntry.toJson FormulaEntry.ofJson?
  /-- The formulas for a blank. -/
  blankSpec : RoundTrips (fun x : BlankSpec => AllFinite x.numbers)
    BlankSpec.toJson BlankSpec.ofJson?
  /-- The outlines of blanks. -/
  blankShape : RoundTrips (fun _ : BlankShape => True) BlankShape.toJson BlankShape.ofJson?
  /-- Formulas with names. -/
  namedFormula : RoundTrips (fun x : NamedFormula => AllFinite x.numbers)
    NamedFormula.toJson NamedFormula.ofJson?
  /-- Formulas. -/
  formula : RoundTrips (fun x : Formula.Definition => AllFinite x.numbers)
    Formula.Definition.toJson Formula.Definition.ofJson?
  /-- Expected ranges. -/
  expectedRange : RoundTrips (fun x : Formula.ExpectedRange => AllFinite x.numbers)
    Formula.ExpectedRange.toJson Formula.ExpectedRange.ofJson?
  /-- Rules for dimensions. -/
  validationRule : RoundTrips (fun _ : ValidationRule => True)
    ValidationRule.toJson ValidationRule.ofJson?
  /-- The rates of a shape or an input. -/
  rateOverrides : RoundTrips (fun x : RateOverrides => AllFinite x.numbers)
    RateOverrides.toJson RateOverrides.ofJson?
  /-- Materials. -/
  material : RoundTrips (fun x : Material => AllFinite x.numbers) Material.toJson Material.ofJson?
  /-- Families of materials. -/
  materialCategory : RoundTrips (fun _ : MaterialCategory => True)
    MaterialCategory.toJson MaterialCategory.ofJson?
  /-- Prices. -/
  price : RoundTrips (fun x : Price => AllFinite x.numbers) Price.toJson Price.ofJson?
  /-- Inputs. -/
  input : RoundTrips (fun x : EstimateInput => AllFinite x.numbers)
    EstimateInput.toJson EstimateInput.ofJson?
  /-- Settings. -/
  settings : RoundTrips (fun x : Settings => AllFinite x.numbers) Settings.toJson Settings.ofJson?
  /-- Rates. -/
  rates : RoundTrips (fun x : Rates => AllFinite x.numbers) Rates.toJson Rates.ofJson?
  /-- The factors of a family. -/
  rateFactors : RoundTrips (fun x : RateFactors => AllFinite x.numbers)
    RateFactors.toJson RateFactors.ofJson?
  /-- The settings of welding. -/
  weldSettings : RoundTrips (fun x : WeldSettings => AllFinite x.numbers)
    WeldSettings.toJson WeldSettings.ofJson?
  /-- The results of formulas. -/
  evaluationResult : RoundTrips (fun x : Formula.EvaluationResult => AllFinite x.numbers)
    Formula.EvaluationResult.toJson Formula.EvaluationResult.ofJson?
  /-- Warnings of results out of range. -/
  rangeWarning : RoundTrips (fun x : Formula.RangeWarning => AllFinite x.numbers)
    Formula.RangeWarning.toJson Formula.RangeWarning.ofJson?
  /-- Estimates. -/
  estimate : RoundTrips (fun x : Estimate => AllFinite x.numbers) Estimate.toJson Estimate.ofJson?
  /-- The geometry of a piece. -/
  geometry : RoundTrips (fun x : Geometry => AllFinite x.numbers) Geometry.toJson Geometry.ofJson?
  /-- Costs. -/
  costs : RoundTrips (fun x : Costs => AllFinite x.numbers) Costs.toJson Costs.ofJson?
  /-- Parameters as they were used. -/
  parameterEcho : RoundTrips (fun x : ParameterEcho => AllFinite x.numbers)
    ParameterEcho.toJson ParameterEcho.ofJson?
  /-- Findings about values. -/
  parameterIssue : RoundTrips (fun x : ParameterIssue => AllFinite x.numbers)
    ParameterIssue.toJson ParameterIssue.ofJson?
  /-- Findings about shapes. -/
  consistencyIssue : RoundTrips (fun _ : ConsistencyIssue => True)
    ConsistencyIssue.toJson ConsistencyIssue.ofJson?
  /-- Checks of variables. -/
  variableCheck : RoundTrips (fun _ : Formula.VariableCheck => True)
    Formula.VariableCheck.toJson Formula.VariableCheck.ofJson?
  /-- Faults. -/
  fault : RoundTrips Fault.PositionFits Fault.toJson Fault.ofJson?

/-- **Every record is read back from what is written for it.** -/
theorem records_roundTrip : RecordsRoundTrip where
  number := float_lawful.roundTrips (Json.fits_ofFloat _)
  shape := Shape.lawful.roundTrips (Shape.fits_toJson _)
  category := Category.lawful.roundTrips (Category.fits_toJson _)
  group := Group.lawful.roundTrips (Group.fits_toJson _)
  identifier := Identifier.lawful.roundTrips (Identifier.fits_toJson _)
  parameter := Parameter.lawful.roundTrips (Parameter.fits_toJson _)
  parameterDomain := ParameterDomain.lawful.roundTrips (ParameterDomain.fits_toJson _)
  parameterOption := ParameterOption.lawful.roundTrips (ParameterOption.fits_toJson _)
  formulaEntry := FormulaEntry.lawful.roundTrips (FormulaEntry.fits_toJson _)
  blankSpec := BlankSpec.lawful.roundTrips (BlankSpec.fits_toJson _)
  blankShape := BlankShape.lawful.roundTrips (BlankShape.fits_toJson _)
  namedFormula := NamedFormula.lawful.roundTrips (NamedFormula.fits_toJson _)
  formula := Formula.Definition.lawful.roundTrips (Formula.Definition.fits_toJson _)
  expectedRange := Formula.ExpectedRange.lawful.roundTrips (Formula.ExpectedRange.fits_toJson _)
  validationRule := ValidationRule.lawful.roundTrips (ValidationRule.fits_toJson _)
  rateOverrides := RateOverrides.lawful.roundTrips (RateOverrides.fits_toJson _)
  material := Material.lawful.roundTrips (Material.fits_toJson _)
  materialCategory := MaterialCategory.lawful.roundTrips (MaterialCategory.fits_toJson _)
  price := Price.lawful.roundTrips (Price.fits_toJson _)
  input := EstimateInput.lawful.roundTrips (EstimateInput.fits_toJson _)
  settings := Settings.lawful.roundTrips (Settings.fits_toJson _)
  rates := Rates.lawful.roundTrips (Rates.fits_toJson _)
  rateFactors := RateFactors.lawful.roundTrips (RateFactors.fits_toJson _)
  weldSettings := WeldSettings.lawful.roundTrips (WeldSettings.fits_toJson _)
  evaluationResult :=
    Formula.EvaluationResult.lawful.roundTrips (Formula.EvaluationResult.fits_toJson _)
  rangeWarning := Formula.RangeWarning.lawful.roundTrips (Formula.RangeWarning.fits_toJson _)
  estimate := Estimate.lawful.roundTrips (Estimate.fits_toJson _)
  geometry := Geometry.lawful.roundTrips (Geometry.fits_toJson _)
  costs := Costs.lawful.roundTrips (Costs.fits_toJson _)
  parameterEcho := ParameterEcho.lawful.roundTrips (ParameterEcho.fits_toJson _)
  parameterIssue := ParameterIssue.lawful.roundTrips (ParameterIssue.fits_toJson _)
  consistencyIssue := ConsistencyIssue.lawful.roundTrips (ConsistencyIssue.fits_toJson _)
  variableCheck := Formula.VariableCheck.lawful.roundTrips (Formula.VariableCheck.fits_toJson _)
  fault := Fault.lawful.roundTrips (Fault.fits_toJson _)

end ShapeEstimator
