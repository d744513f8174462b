/-
  ShapeEstimator.Proofs.Estimate.RangeWarnings
  ────────────────────────────────
  **WHICH RANGE WARNINGS ARE PASSED ON.**

  An estimate reports values of plain formulas and of composite entries.  Both kinds
  may expect a range, and both carry a warning when the value is outside, but only the
  warnings of plain formulas are collected:

      w ∈ e.rangeWarnings  ↔  a plain formula has a value with the warning w

  So nothing is lost exactly when every warning of a composite entry is also the
  warning of a plain formula.
-/
import ShapeEstimator.Proofs.Estimate.Composites
import ShapeEstimator.Proofs.Estimate.Success

namespace ShapeEstimator

open Formula (Compiled Definition EvaluationResult Kept Outcomes RangeWarning)

namespace EstimateInput

variable {input : EstimateInput} {rates : Rates} {settings : Settings} {e : Estimate}

/-! ## §1. Reported formulas. -/

/-- A plain formula with its result. -/
def PlainReports (input : EstimateInput) (settings : Settings) (f : Definition)
    (r : EvaluationResult) : Prop :=
  ∃ name, input.shape.formulas.get? name = some (.formula f)
    ∧ f.evaluate input.parameterValues (some (input.resolvedDensity settings)) = .ok r

/-- A formula of a composite entry with its result, where this goes into the geometry. -/
def CompositeReports (input : EstimateInput) (settings : Settings) (f : Definition)
    (r : EvaluationResult) : Prop :=
  ∃ key,
    input.shape.ReportsDimension input.parameterValues (input.resolvedDensity settings) key f r
      ∨ input.shape.ReportsCustom input.parameterValues (input.resolvedDensity settings) key f r

/-- A formula whose value is reported, with its result. -/
def Reports (input : EstimateInput) (settings : Settings) (f : Definition) (r : EvaluationResult) :
    Prop :=
  input.PlainReports settings f r ∨ input.CompositeReports settings f r

/-! ## §2. Collected warnings. -/

theorem plainFormulas_distinct (s : Shape) : s.plainFormulas.Pairwise fun a b => a.1 ≠ b.1 := by
  unfold Shape.plainFormulas
  apply List.Pairwise.filterMap _ _ s.formulas.names_distinct
  rintro ⟨m, a⟩ ⟨n, b⟩ hne f hf g hg
  obtain ⟨_, _, rfl⟩ := Option.map_eq_some_iff.1 hf
  obtain ⟨_, _, rfl⟩ := Option.map_eq_some_iff.1 hg
  exact hne

variable {o : Outcomes}

theorem mem_results_iff {name : String} {r : EvaluationResult}
    (ho : input.outcomes (input.resolvedDensity settings) = .ok o) :
    (name, r) ∈ o.results.entries ↔
      ∃ f, input.shape.formulas.get? name = some (.formula f)
        ∧ f.evaluate input.parameterValues (some (input.resolvedDensity settings)) = .ok r := by
  rw [Outcomes.mem_results_ofFormulas ho]
  constructor
  · rintro ⟨f, hkept⟩
    exact ⟨f, Shape.mem_plainFormulas.1 hkept.mem, hkept.evaluate_eq⟩
  · rintro ⟨f, hf, hr⟩
    exact ⟨f, .of_mem (plainFormulas_distinct input.shape) (Shape.mem_plainFormulas.2 hf) hr⟩

theorem mem_rangeWarnings_iff {w : RangeWarning}
    (ho : input.outcomes (input.resolvedDensity settings) = .ok o) :
    w ∈ rangeWarnings o ↔
      ∃ f r, input.PlainReports settings f r ∧ f.rangeWarning? r.result = some w := by
  unfold rangeWarnings
  rw [List.mem_filterMap]
  constructor
  · rintro ⟨⟨name, r⟩, hmem, hw⟩
    obtain ⟨f, hf, hr⟩ := (mem_results_iff ho).1 hmem
    refine ⟨f, r, ⟨name, hf, hr⟩, ?_⟩
    rw [← Definition.rangeWarning_of_evaluate hr]
    exact hw
  · rintro ⟨f, r, ⟨name, hf, hr⟩, hw⟩
    refine ⟨(name, r), (mem_results_iff ho).2 ⟨f, hf, hr⟩, ?_⟩
    rw [← Definition.rangeWarning_of_evaluate hr] at hw
    exact hw

/-! ## §3. A steep cone. -/

/-- An angle that is expected to be at most 60 degrees. -/
def apexAngle : Definition where
  expression := "a"
  declared := ["a"]
  unit := "deg"
  expectedRange := some ⟨0, 60, some "Half apex angle above 60 needs a toriconical design"⟩

/-- A steep cone with the angle among the formulas for reports, which is all that it has. -/
def steepCone : EstimateInput where
  shape :=
    (Shape.new "cone" "Cone" .conicalSection).withCustomFormulas "geometry" [⟨"angle", apexAngle⟩]
  material := { id := "M", name := "M", category := .carbonSteel, density := some 7850 }
  parameterValues := .ofList [("a", 75)]

/-- The warning about the angle. -/
def apexWarning : RangeWarning :=
  ⟨"a", 75, 0, 60, "Half apex angle above 60 needs a toriconical design"⟩

/-- What the formula of the angle comes to. -/
def apexResult : EvaluationResult where
  result := 75
  unit := "deg"
  expression := "a"
  boundValues := .ofList [("a", 75)]
  rangeWarning := some apexWarning

theorem evaluate_apexAngle :
    apexAngle.evaluate steepCone.parameterValues (some 7850) = .ok apexResult := by
  have hcompiled : Compiled.ofSource apexAngle.expression = .ok ⟨"a", .variable "a"⟩ := by
    with_unfolding_all rfl
  have hmissing :
      apexAngle.missing (Formula.resolve steepCone.parameterValues (some 7850)) = [] := by
    decide
  have hvalue : (⟨"a", .variable "a"⟩ : Compiled).evaluate
      (Formula.resolve steepCone.parameterValues (some 7850)) = .ok 75 := rfl
  have hwarning : apexAngle.rangeWarning? 75 = some apexWarning := by decide
  unfold Definition.evaluate Definition.outcome
  rw [hmissing]
  dsimp only
  rw [hcompiled]
  dsimp only
  rw [hvalue]
  dsimp only
  rw [hwarning]
  rfl

theorem steepCone_reports : steepCone.CompositeReports {} apexAngle apexResult := by
  refine ⟨"geometry.angle", Or.inr ⟨"geometry", [⟨"angle", apexAngle⟩], "angle", ?_, ?_, ?_⟩⟩
  · rfl
  · exact .last evaluate_apexAngle fun g hg => absurd hg List.not_mem_nil
  · decide

theorem steepCone_computable : steepCone.Computable where
  quantity := by decide
  parameters := by decide
  density := by
    intro d hd
    cases hd
    decide
  structure_ok := rfl

/-- What the formulas of the cone come to. -/
def steepFindings : Findings where
  advice := []
  outcomes := .empty
  geometry := { Geometry.ofOutcomes .empty with customValues := .ofList [("geometry.angle", 75)] }

theorem outcomes_apexAngle :
    (FormulaEntry.customFormulas [⟨"angle", apexAngle⟩]).outcomes steepCone.parameterValues
      (some 7850) = .ok ⟨.ofList [("angle", apexResult)], .empty⟩ := by
  show [("angle", apexAngle)].foldlM (Outcomes.addFormula _ _) Outcomes.empty = _
  rw [List.foldlM_cons, Outcomes.addFormula, evaluate_apexAngle]
  rfl

theorem steepCone_found : steepCone.Found 7850 steepFindings where
  advice := rfl
  outcomes := rfl
  required := rfl
  geometry := by
    show [("geometry", FormulaEntry.customFormulas [⟨"angle", apexAngle⟩])].foldlM
      (Geometry.addComposite _ _) _ = _
    rw [List.foldlM_cons, Geometry.addComposite]
    dsimp only
    rw [outcomes_apexAngle]
    rfl

theorem estimateAt_steepCone :
    steepCone.estimateAt {} {} = .ok (steepCone.assemble {} {} 7850 steepFindings) :=
  estimateAt_of_found steepCone_computable steepCone_found

theorem steepCone_rangeWarnings :
    (steepCone.assemble {} {} 7850 steepFindings).rangeWarnings = [] := rfl

theorem steepCone_warnings :
    (steepCone.assemble {} {} 7850 steepFindings).warnings = [] := rfl

/-! ## §4. Which warnings reach the caller. -/

/-- **Which range warnings are passed on.**  Those of plain formulas, and each of them also as text.
They are those of all reported formulas exactly when each warning of a composite entry is the
warning of a plain formula too. -/
theorem rangeWarnings_complete_iff (h : input.estimateAt rates settings = .ok e) :
    (∀ w, w ∈ e.rangeWarnings ↔
      ∃ f r, input.PlainReports settings f r ∧ f.rangeWarning? r.result = some w)
    ∧ (∀ w ∈ e.rangeWarnings, w.describe ∈ e.warnings)
    ∧ ((∀ w, w ∈ e.rangeWarnings ↔
        ∃ f r, input.Reports settings f r ∧ f.rangeWarning? r.result = some w)
      ↔ ∀ f r w, input.CompositeReports settings f r → f.rangeWarning? r.result = some w →
        ∃ g q, input.PlainReports settings g q ∧ g.rangeWarning? q.result = some w) := by
  obtain ⟨-, found, hfound, rfl⟩ := exists_found_of_estimateAt h
  have hplain : ∀ w,
      w ∈ (input.assemble rates settings (input.resolvedDensity settings) found).rangeWarnings ↔
        ∃ f r, input.PlainReports settings f r ∧ f.rangeWarning? r.result = some w :=
    fun w => mem_rangeWarnings_iff hfound.outcomes
  refine ⟨hplain, ?_, ?_⟩
  · intro w hw
    have htext : w.describe ∈ (rangeWarnings found.outcomes).map RangeWarning.describe :=
      List.mem_map_of_mem hw
    exact List.mem_append_left _ (List.mem_append_right _ htext)
  · constructor
    · -- a composite warning that is passed on is passed on as that of a plain formula
      intro hall f r w hf hw
      exact (hplain w).1 ((hall w).2 ⟨f, r, Or.inr hf, hw⟩)
    · intro hcovered w
      rw [hplain]
      constructor
      · rintro ⟨f, r, hf, hw⟩
        exact ⟨f, r, Or.inl hf, hw⟩
      · rintro ⟨f, r, hf | hf, hw⟩
        · exact ⟨f, r, hf, hw⟩
        · exact hcovered f r w hf hw

/-- No plain formula of the cone has the warning of its composite entry. -/
theorem steepCone_not_covered :
    ¬ ∀ f r w, steepCone.CompositeReports {} f r → f.rangeWarning? r.result = some w →
      ∃ g q, steepCone.PlainReports {} g q ∧ g.rangeWarning? q.result = some w := by
  intro hcovered
  -- the angle's warning would have to be among those of the estimate, which has none
  obtain ⟨hplain, _, _⟩ := rangeWarnings_complete_iff estimateAt_steepCone
  have hw := (hplain apexWarning).2 (hcovered _ _ _ steepCone_reports (by decide))
  rw [steepCone_rangeWarnings] at hw
  exact List.not_mem_nil hw

/-- The angle of the cone is reported, and the warning about it is not. -/
theorem steepCone_loses_warning :
    ∃ e, steepCone.estimateAt {} {} = .ok e
      ∧ steepCone.Reports {} apexAngle apexResult
      ∧ apexAngle.rangeWarning? apexResult.result = some apexWarning
      ∧ apexWarning ∉ e.rangeWarnings ∧ apexWarning.describe ∉ e.warnings := by
  refine ⟨_, estimateAt_steepCone, Or.inr steepCone_reports, by decide, ?_, ?_⟩
  · rw [steepCone_rangeWarnings]
    exact List.not_mem_nil
  · rw [steepCone_warnings]
    exact List.not_mem_nil

end EstimateInput

end ShapeEstimator
