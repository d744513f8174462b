/-
  ShapeEstimator.Proofs.Estimate.NamedFormulas
  ────────────────────────────────
  **TWELVE NAMES DRIVE THE NUMBERS.**

  A shape says a lot: domains, rules, materials, expected ranges, any number of formulas
  and reports.  Of all this the numbers of an estimate read the category, the rates, and
  the plain formulas of twelve names, and of such a formula what it computes:

      s, t agree on twelve names   →   same density, primitives, scrap, costs and totals

  Whatever else two shapes differ in shows in texts, units, the dimensions of a blank and
  the values for reports, or in that one of them is aborted: any rule and any formula of
  a shape can do that.
-/
import ShapeEstimator.Proofs.Estimate.RangeWarnings

namespace ShapeEstimator

open Formula (Bindings Compiled Definition Outcomes)

/-! ## §1. What a formula computes. -/

namespace Formula.Definition

/-- Two formulas compute the same: units, descriptions and expected ranges may differ. -/
structure SameComputation (f g : Definition) : Prop where
  /-- The text of the expression. -/
  expression : f.expression = g.expression
  /-- The declared variables. -/
  declared : f.declared = g.declared
  /-- Whether the density must be known. -/
  requiresDensity : f.requiresDensity = g.requiresDensity

/-- The value of a formula in a context, if it has one. -/
def value? (f : Definition) (context : NameMap Float) (density : Option Float) : Option Float :=
  match f.evaluate context density with
  | .ok r => some r.result
  | .error _ => none

variable {f g : Definition} {context : NameMap Float} {density : Option Float} {v : Float}

theorem value?_eq_some_iff :
    f.value? context density = some v ↔ ∃ r, f.evaluate context density = .ok r ∧ r.result = v := by
  unfold value?
  cases f.evaluate context density with
  | ok r => simp
  | error fault => simp

/-- Up to the result, evaluation reads expression, declared variables and the need of a density. -/
theorem SameComputation.evaluate_result (h : f.SameComputation g) (context : NameMap Float)
    (density : Option Float) :
    (f.evaluate context density).map (·.result) = (g.evaluate context density).map (·.result) := by
  have hmissing : f.missing (resolve context density) = g.missing (resolve context density) := by
    unfold missing
    rw [h.declared, h.requiresDensity]
  unfold evaluate outcome
  rw [hmissing, h.expression]
  cases g.missing (resolve context density) with
  | cons name more => rfl
  | nil =>
    cases Compiled.ofSource g.expression with
    | error fault => rfl
    | ok compiled =>
      dsimp only
      cases compiled.evaluate (resolve context density) with
      | error stop => rfl
      | ok value => rfl

theorem SameComputation.value?_eq (h : f.SameComputation g) (context : NameMap Float)
    (density : Option Float) : f.value? context density = g.value? context density := by
  have hresult := h.evaluate_result context density
  unfold value?
  cases hf : f.evaluate context density <;> cases hg : g.evaluate context density
    <;> simp_all [Except.map]

theorem SameComputation.evaluate_eq_error_iff (h : f.SameComputation g) {stop : Stop Fault} :
    f.evaluate context density = .error stop ↔ g.evaluate context density = .error stop := by
  have hresult := h.evaluate_result context density
  cases hf : f.evaluate context density <;> cases hg : g.evaluate context density
    <;> simp_all [Except.map]

end Formula.Definition

/-! ## §2. The twelve names. -/

/-- The names of the formulas that the numbers of an estimate are made from. -/
def primitiveNames : List String :=
  ["volume", "weight", "surfaceArea", "innerSurfaceArea", "outerSurfaceArea", "wettedArea",
    "blankArea", "finishedArea", "scrapPercentage", "edgeLength", "weldLength", "perimeter"]

namespace Shape

/-- The formula of a name that stands for one formula. -/
def plainFormula? (s : Shape) (name : String) : Option Definition :=
  (s.formulas.get? name).bind FormulaEntry.formula?

theorem plainFormula?_eq_some_iff {s : Shape} {name : String} {f : Definition} :
    s.plainFormula? name = some f ↔ s.formulas.get? name = some (.formula f) := by
  unfold plainFormula?
  rw [Option.bind_eq_some_iff]
  constructor
  · rintro ⟨entry, hentry, h⟩
    cases entry with
    | formula g =>
      cases h
      exact hentry
    | blankDimensions spec => exact nomatch h
    | customFormulas formulas => exact nomatch h
  · intro h
    exact ⟨.formula f, h, rfl⟩

/-- A name is a plain formula of both shapes that computes the same, or of neither. -/
def AgreeOn (s t : Shape) (name : String) : Prop :=
  Option.Rel Definition.SameComputation (s.plainFormula? name) (t.plainFormula? name)

/-- Two shapes agree in all that the numbers of an estimate are made from. -/
structure SamePrimitives (s t : Shape) : Prop where
  /-- The category, which decides the rates. -/
  category : s.category = t.category
  /-- The rates of the shape itself. -/
  fabricationCost : s.fabricationCost = t.fabricationCost
  /-- The formulas of the twelve names. -/
  formulas : ∀ name ∈ primitiveNames, s.AgreeOn t name

end Shape

/-- Two estimates have the same numbers: identity, texts, units, the dimensions of the blank and the
values for reports may differ. -/
structure Estimate.SameNumbers (x y : Estimate) : Prop where
  /-- All but what may differ. -/
  estimate : y = { x with
    shapeKey := y.shapeKey, shapeName := y.shapeName, parameters := y.parameters,
    calculatedValues := y.calculatedValues, warnings := y.warnings,
    rangeWarnings := y.rangeWarnings }
  /-- The geometry with the weight of the scrap, the two maps aside. -/
  geometry : y.calculatedValues = { x.calculatedValues with
    blankDimensions := y.calculatedValues.blankDimensions,
    customValues := y.calculatedValues.customValues }
  /-- The parameters, their units aside. -/
  parameters : y.parameters.map (fun p => (p.name, p.value))
    = x.parameters.map fun p => (p.name, p.value)

namespace EstimateInput

/-- The input with another shape in place of its own. -/
def withShape (input : EstimateInput) (t : Shape) : EstimateInput := { input with shape := t }

variable {input : EstimateInput} {t : Shape} {rates : Rates} {settings : Settings}

/-! ## §3. Values under a name. -/

/-- The value that a batch has under a name is that of the plain formula of this name. -/
theorem value?_outcomes {o : Outcomes}
    (ho : input.outcomes (input.resolvedDensity settings) = .ok o) (name : String) :
    o.value? name =
      (input.shape.plainFormula? name).bind fun f =>
        f.value? input.parameterValues (some (input.resolvedDensity settings)) := by
  apply Option.ext
  intro v
  unfold Outcomes.value?
  rw [Option.map_eq_some_iff, Option.bind_eq_some_iff]
  constructor
  · rintro ⟨r, hr, hv⟩
    obtain ⟨f, hf, hresult⟩ := (mem_results_iff ho).1 (NameMap.mem_entries_iff.2 hr)
    exact ⟨f, Shape.plainFormula?_eq_some_iff.2 hf,
      Definition.value?_eq_some_iff.2 ⟨r, hresult, hv⟩⟩
  · rintro ⟨f, hf, hvalue⟩
    obtain ⟨r, hresult, hv⟩ := Definition.value?_eq_some_iff.1 hvalue
    have hmem := (mem_results_iff ho).2 ⟨f, Shape.plainFormula?_eq_some_iff.1 hf, hresult⟩
    exact ⟨r, NameMap.mem_entries_iff.1 hmem, hv⟩

theorem plainFails_iff {name : String} :
    input.PlainFails settings name ↔ ∃ f fault, input.shape.plainFormula? name = some f
      ∧ f.evaluate input.parameterValues (some (input.resolvedDensity settings))
        = .error (.failure fault) := by
  unfold PlainFails
  simp only [Shape.plainFormula?_eq_some_iff]

/-- Where two shapes agree on a name, it has the same value, or none, in both. -/
theorem value?_outcomes_withShape {name : String} {o o' : Outcomes}
    (h : input.shape.AgreeOn t name)
    (ho : input.outcomes (input.resolvedDensity settings) = .ok o)
    (ho' : (input.withShape t).outcomes ((input.withShape t).resolvedDensity settings) = .ok o') :
    o'.value? name = o.value? name := by
  rw [value?_outcomes ho, value?_outcomes ho']
  show (t.plainFormula? name).bind _ = (input.shape.plainFormula? name).bind _
  unfold Shape.AgreeOn at h
  generalize input.shape.plainFormula? name = x at h ⊢
  generalize t.plainFormula? name = y at h ⊢
  cases h with
  | none => rfl
  | some hsame => exact (hsame.value?_eq _ _).symm

theorem plainFails_withShape {name : String} (h : input.shape.AgreeOn t name) :
    (input.withShape t).PlainFails settings name ↔ input.PlainFails settings name := by
  rw [plainFails_iff, plainFails_iff]
  show (∃ f fault, t.plainFormula? name = some f ∧ _) ↔ _
  unfold Shape.AgreeOn at h
  generalize input.shape.plainFormula? name = x at h ⊢
  generalize t.plainFormula? name = y at h ⊢
  cases h with
  | none => simp
  | some hsame => simp [hsame.evaluate_eq_error_iff, withShape, resolvedDensity]

/-! ## §4. Stage by stage. -/

/-- Outcomes with the same values under the twelve names give the same geometry. -/
theorem ofOutcomes_congr {o o' : Outcomes}
    (h : ∀ name ∈ primitiveNames, o'.value? name = o.value? name) :
    Geometry.ofOutcomes o' = Geometry.ofOutcomes o := by
  unfold primitiveNames at h
  simp only [List.forall_mem_cons] at h
  obtain ⟨hvolume, hweight, hsurface, hinner, houter, hwetted, hblank, hfinished, hscrap, hedge,
    hweld, hperimeter, _⟩ := h
  unfold Geometry.ofOutcomes
  rw [hvolume, hweight, hsurface, hinner, houter, hwetted, hblank, hfinished, hscrap, hedge, hweld,
    hperimeter]

/-- What is found of the two shapes has the same geometry, the two maps aside: composite entries
reach these and nothing else. -/
theorem geometry_withShape {found found' : Findings} (h : input.shape.SamePrimitives t)
    (hfound : input.Found (input.resolvedDensity settings) found)
    (hfound' : (input.withShape t).Found ((input.withShape t).resolvedDensity settings) found') :
    ∃ dimensions reports, found'.geometry =
      { found.geometry with blankDimensions := dimensions, customValues := reports } := by
  have hprimitives : Geometry.ofOutcomes found'.outcomes = Geometry.ofOutcomes found.outcomes := by
    apply ofOutcomes_congr
    intro name hname
    exact value?_outcomes_withShape (h.formulas name hname) hfound.outcomes hfound'.outcomes
  rw [Geometry.eq_of_addComposites hfound.geometry, Geometry.eq_of_addComposites hfound'.geometry,
    hprimitives]
  exact ⟨_, _, rfl⟩

theorem echoes_withShape :
    (input.withShape t).echoes.map (fun p => (p.name, p.value))
      = input.echoes.map fun p => (p.name, p.value) := by
  unfold echoes
  rw [List.map_map, List.map_map]
  rfl

/-- What is assembled from the same geometry, the two maps aside, has the same numbers. -/
theorem assemble_sameNumbers (density : Float) {found found' : Findings}
    (h : ∃ dimensions reports, found'.geometry =
      { found.geometry with blankDimensions := dimensions, customValues := reports }) :
    (input.assemble rates settings density found).SameNumbers
      ((input.withShape t).assemble rates settings density found') := by
  obtain ⟨dimensions, reports, h⟩ := h
  -- scrap, costs and totals read neither of the two maps
  refine ⟨?_, ?_, echoes_withShape⟩
  · unfold assemble
    dsimp only
    rw [h]
    rfl
  · unfold assemble
    dsimp only
    rw [h]
    rfl

theorem computable_withShape (ht : t.checkStructure = .ok ()) (h : input.Computable) :
    (input.withShape t).Computable :=
  ⟨h.quantity, h.parameters, h.density, ht⟩

/-- The same checks stand against two inputs. -/
structure SameChecks (a b : EstimateInput) (settings : Settings) : Prop where
  /-- Whether they can be computed with. -/
  computable : a.Computable ↔ b.Computable
  /-- Whether the volume fails. -/
  volume : a.PlainFails settings "volume" ↔ b.PlainFails settings "volume"
  /-- Whether the weight fails. -/
  weight : a.PlainFails settings "weight" ↔ b.PlainFails settings "weight"

namespace SameChecks

variable {a b : EstimateInput}

theorem symm (h : a.SameChecks b settings) : b.SameChecks a settings :=
  ⟨h.computable.symm, h.volume.symm, h.weight.symm⟩

/-- Where the one has an estimate, the other has one unless it is aborted. -/
theorem accepted_of_not_aborted (h : a.SameChecks b settings) (ha : a.Accepted settings)
    (hb : ¬ b.Aborted settings) : b.Accepted settings := by
  have hcomputable : b.Computable := h.computable.1 ha.computable
  have hvolume : ¬ b.PlainFails settings "volume" := fun hfails => ha.volume (h.volume.2 hfails)
  have hweight : ¬ b.PlainFails settings "weight" := fun hfails => ha.weight (h.weight.2 hfails)
  refine ⟨hcomputable, Classical.byContradiction fun hplain => ?_, hvolume, hweight,
    Classical.byContradiction fun hcomposites => ?_⟩
  · exact hb (.plain hcomputable hplain)
  · exact hb (.composites hcomputable hvolume hweight hcomposites)

/-- Where the one has an estimate, the other has one exactly when nothing of it is aborted. -/
theorem accepted_iff (h : a.SameChecks b settings) (ha : a.Accepted settings) :
    b.Accepted settings ↔ b.PlainRuns settings ∧ b.CompositesRun settings := by
  constructor
  · exact fun hb => ⟨hb.plain, hb.composites⟩
  · rintro ⟨hplain, hcomposites⟩
    refine h.accepted_of_not_aborted ha fun haborted => ?_
    cases haborted with
    | plain _ hnot => exact hnot hplain
    | composites _ _ _ hnot => exact hnot hcomposites

end SameChecks

theorem sameChecks_withShape (h : input.shape.SamePrimitives t)
    (hs : input.shape.checkStructure = .ok ()) (ht : t.checkStructure = .ok ()) :
    input.SameChecks (input.withShape t) settings where
  computable := ⟨computable_withShape ht, fun hok =>
    ⟨hok.quantity, hok.parameters, hok.density, hs⟩⟩
  volume := (plainFails_withShape (h.formulas _ (by decide))).symm
  weight := (plainFails_withShape (h.formulas _ (by decide))).symm

/-! ## §5. Two runs. -/

/-- **Twelve names drive the numbers.**  Take two shapes of sound structure that agree on category,
rates and the formulas of the twelve names, and any material, values, number of pieces, rates and
settings.  Where there is an estimate of the one, there is one of the other exactly when nothing of
the other is aborted; so there are estimates of both or of neither as long as neither is aborted.
Two estimates have the same numbers. -/
theorem estimate_sameNumbers (h : input.shape.SamePrimitives t)
    (hs : input.shape.checkStructure = .ok ()) (ht : t.checkStructure = .ok ()) :
    ((∃ x, input.estimate settings = .ok x) → ((∃ y, (input.withShape t).estimate settings = .ok y)
      ↔ (input.withShape t).PlainRuns settings ∧ (input.withShape t).CompositesRun settings))
    ∧ ((∃ y, (input.withShape t).estimate settings = .ok y) →
      ((∃ x, input.estimate settings = .ok x)
        ↔ input.PlainRuns settings ∧ input.CompositesRun settings))
    ∧ (¬ Aborts (input.estimate settings) → ¬ Aborts ((input.withShape t).estimate settings) →
      ((∃ x, input.estimate settings = .ok x)
        ↔ ∃ y, (input.withShape t).estimate settings = .ok y))
    ∧ ∀ x y, input.estimate settings = .ok x → (input.withShape t).estimate settings = .ok y →
      x.SameNumbers y := by
  have hrates : (input.withShape t).rateRequest = input.rateRequest := by
    unfold rateRequest
    rw [h.category, h.fabricationCost]
    rfl
  have hchecks : input.SameChecks (input.withShape t) settings := sameChecks_withShape h hs ht
  unfold estimate
  rw [hrates]
  simp only [exists_estimateAt_iff, aborts_estimateAt_iff]
  refine ⟨hchecks.accepted_iff, hchecks.symm.accepted_iff, fun hx hy => ?_, fun x y hx hy => ?_⟩
  · exact ⟨fun ha => hchecks.accepted_of_not_aborted ha hy,
      fun hb => hchecks.symm.accepted_of_not_aborted hb hx⟩
  · obtain ⟨-, found, hfound, rfl⟩ := exists_found_of_estimateAt hx
    obtain ⟨-, found', hfound', rfl⟩ := exists_found_of_estimateAt hy
    exact assemble_sameNumbers _ (geometry_withShape h hfound hfound')

/-- A cone with its angle for the volume and for the weight. -/
def plainCone : Shape :=
  ((Shape.new "plain" "Plain cone" .conicalSection).withFormula "volume" apexAngle).withFormula
    "weight" apexAngle

/-- The cone under another key, with a rule, a choice of materials, a report, one more formula, and
no range for the weight. -/
def adornedCone : Shape :=
  (((((Shape.new "adorned" "Adorned cone" .conicalSection).withFormula
      "volume" apexAngle).withFormula "weight"
      { apexAngle with unit := "kg", expectedRange := none }).withFormula "apex"
      apexAngle).withCustomFormulas "geometry" [⟨"angle", apexAngle⟩]).withMaterials
      [.stainlessSteel] |>.withRule "flat" "60-a" "The cone is steep"

theorem plainCone_samePrimitives : plainCone.SamePrimitives adornedCone where
  category := rfl
  fabricationCost := rfl
  formulas := by
    have hvolume : plainCone.AgreeOn adornedCone "volume" := Option.Rel.some ⟨rfl, rfl, rfl⟩
    have hweight : plainCone.AgreeOn adornedCone "weight" := Option.Rel.some ⟨rfl, rfl, rfl⟩
    intro name hname
    rcases List.mem_cons.1 hname with rfl | hname
    · exact hvolume
    · rcases List.mem_cons.1 hname with rfl | hname
      · exact hweight
      · -- neither cone has a formula of another of the twelve names
        have hnone : ∀ n ∈ primitiveNames.drop 2,
            plainCone.plainFormula? n = none ∧ adornedCone.plainFormula? n = none := by decide
        unfold Shape.AgreeOn
        rw [(hnone name hname).1, (hnone name hname).2]
        exact Option.Rel.none

theorem exists_estimate_plainCone :
    ∃ x, (steepCone.withShape plainCone).estimate {} = .ok x :=
  ⟨_, by with_unfolding_all rfl⟩

theorem exists_estimate_adornedCone :
    ∃ y, ((steepCone.withShape plainCone).withShape adornedCone).estimate {} = .ok y :=
  ⟨_, by with_unfolding_all rfl⟩

/-- The two cones have estimates with the same numbers. -/
theorem plainCone_sameNumbers :
    ∃ x y, (steepCone.withShape plainCone).estimate {} = .ok x
      ∧ ((steepCone.withShape plainCone).withShape adornedCone).estimate {} = .ok y
      ∧ x.SameNumbers y := by
  obtain ⟨-, -, -, hsame⟩ := @estimate_sameNumbers (steepCone.withShape plainCone) adornedCone {}
    plainCone_samePrimitives rfl rfl
  obtain ⟨x, hx⟩ := exists_estimate_plainCone
  obtain ⟨y, hy⟩ := exists_estimate_adornedCone
  exact ⟨x, y, hx, hy, hsame x y hx hy⟩

/-- The plain cone with one more formula, which is aborted. -/
def unsettledCone : Shape := plainCone.withFormula "length" Formula.unsettledLength

/-- The two cones agree on the twelve names, and there is an estimate of one of them only. -/
theorem unsettledCone_no_estimate :
    plainCone.SamePrimitives unsettledCone
      ∧ plainCone.checkStructure = .ok () ∧ unsettledCone.checkStructure = .ok ()
      ∧ (∃ x, (steepCone.withShape plainCone).estimate {} = .ok x)
      ∧ ∀ y, ((steepCone.withShape plainCone).withShape unsettledCone).estimate {} ≠ .ok y := by
  have hnames : plainCone.SamePrimitives unsettledCone := by
    refine ⟨rfl, rfl, fun name hname => ?_⟩
    have hsame : ∀ n ∈ primitiveNames,
        unsettledCone.plainFormula? n = plainCone.plainFormula? n := by
      intro n hn
      have hne : n ≠ "length" := by
        rintro rfl
        exact absurd hn (by decide)
      show ((plainCone.formulas.insert "length" _).get? n).bind _ = _
      rw [NameMap.get?_insert, if_neg hne]
      rfl
    unfold Shape.AgreeOn
    rw [hsame name hname]
    cases plainCone.plainFormula? name with
    | none => exact Option.Rel.none
    | some f => exact Option.Rel.some ⟨rfl, rfl, rfl⟩
  refine ⟨hnames, rfl, rfl, exists_estimate_plainCone, fun y hy => ?_⟩
  have hplain := (exists_estimateAt_iff.1 ⟨y, hy⟩).plain
  exact hplain.formulas "length" Formula.unsettledLength rfl
    ⟨_, Formula.evaluate_unsettledLength _ _⟩

end EstimateInput

end ShapeEstimator
