/-
  ShapeEstimator.Proofs.Estimate.Success
  ────────────────────────────────
  **WHEN THERE IS AN ESTIMATE.**

  Five things can stand against an estimate, and the first of them is reported:

      quantity  ≺  a parameter value, by name  ≺  density  ≺  structure of the shape
                ≺  a volume or a weight that is a plain formula and fails

  No other failure counts: not that of another formula, of a composite entry or of a
  rule.  An abort does, of whatever formula it is.  Rules and plain formulas are
  evaluated before the last of the five is looked at, composite entries after it.
-/
import ShapeEstimator.Proofs.Estimate.Composites
import ShapeEstimator.Proofs.Formula.Calls

namespace ShapeEstimator

/-! ## §1. Plain formulas and rules. -/

theorem Shape.mem_plainFormulas {s : Shape} {name : String} {f : Formula.Definition} :
    (name, f) ∈ s.plainFormulas ↔ s.formulas.get? name = some (.formula f) := by
  rw [← NameMap.mem_entries_iff]
  unfold plainFormulas
  rw [List.mem_filterMap]
  constructor
  · rintro ⟨⟨n, entry⟩, hentry, h⟩
    cases entry with
    | formula g =>
      cases h
      exact hentry
    | blankDimensions spec => exact nomatch h
    | customFormulas formulas => exact nomatch h
  · intro h
    exact ⟨(name, .formula f), h, rfl⟩

theorem Shape.definesFormula_iff {s : Shape} {name : String} :
    s.definesFormula name = true ↔ ∃ f, s.formulas.get? name = some (.formula f) := by
  unfold definesFormula
  rw [Option.isSome_iff_exists]
  constructor
  · rintro ⟨f, h⟩
    obtain ⟨entry, hentry, h⟩ := Option.bind_eq_some_iff.1 h
    cases entry with
    | formula g => exact ⟨g, hentry⟩
    | blankDimensions spec => exact nomatch h
    | customFormulas formulas => exact nomatch h
  · rintro ⟨f, h⟩
    exact ⟨f, Option.bind_eq_some_iff.2 ⟨.formula f, h, rfl⟩⟩

/-- A rejected shape is reported under its key. -/
theorem Shape.checkStructure_eq_error {s : Shape} {fault : Fault}
    (h : s.checkStructure = .error fault) : ∃ reason, fault = .corruptCatalogEntry s.key reason := by
  unfold checkStructure at h
  split at h
  · exact nomatch h
  · cases h
    exact ⟨_, rfl⟩

/-- A rule is aborted when it is evaluated for given values. -/
def ValidationRule.IsAborted (r : ValidationRule) (values : NameMap Float) : Prop :=
  ∃ c, Formula.Compiled.ofSource r.expression = .ok c ∧ Aborts (c.evaluate values.get?)

theorem Shape.exists_breaksRule_iff {values : NameMap Float} {r : ValidationRule} :
    (∃ broken, breaksRule values r = .ok broken) ↔ ¬ r.IsAborted values := by
  unfold breaksRule ValidationRule.IsAborted
  cases Formula.Compiled.ofSource r.expression with
  | error fault =>
    refine iff_of_true ⟨false, rfl⟩ ?_
    rintro ⟨c, hc, _⟩
    cases hc
  | ok c =>
    dsimp only
    cases hvalue : c.evaluate values.get? with
    | ok value => simp [hvalue]
    | error stop => cases stop <;> simp [hvalue]

/-- The rules of a shape go through exactly when none of them is aborted. -/
theorem Shape.exists_ruleViolations_iff {s : Shape} {values : NameMap Float} :
    (∃ found, s.ruleViolations values = .ok found) ↔
      ∀ r ∈ s.validationRules, ¬ r.IsAborted values := by
  simp only [← exists_breaksRule_iff]
  exact exists_foldlM_map_iff

namespace EstimateInput

variable {input : EstimateInput} {rates : Rates} {settings : Settings} {fault : Fault}

/-! ## §2. Input that is refused. -/

/-- Input that can be computed with. -/
structure Computable (input : EstimateInput) : Prop where
  /-- The quantity is finite and positive. -/
  quantity : Settings.isPositive input.quantity = true
  /-- Every parameter value is finite. -/
  parameters : ∀ e ∈ input.parameterValues.entries, e.2.isFinite = true
  /-- The density of the material is finite and positive, if it has one. -/
  density : ∀ d, input.material.density = some d → Settings.isPositive d = true
  /-- The structure of the shape is accepted. -/
  structure_ok : input.shape.checkStructure = .ok ()

/-- The fault that is reported of input that cannot be computed with. -/
inductive Invalid (input : EstimateInput) : Fault → Prop where
  | quantity (hquantity : ¬ Settings.isPositive input.quantity = true) :
      Invalid input (.invalidInput "quantity" (Binary64.plainText input.quantity)
        "must be a positive number")
  | parameter {before after : List (String × Float)} {name : String} {value : Float}
      (hquantity : Settings.isPositive input.quantity = true)
      (hentries : input.parameterValues.entries = before ++ (name, value) :: after)
      (hbefore : ∀ e ∈ before, e.2.isFinite = true) (hvalue : ¬ value.isFinite = true) :
      Invalid input (.invalidInput ("parameterValues." ++ name) (Binary64.plainText value)
        "must be a finite number")
  | density {d : Float} (hquantity : Settings.isPositive input.quantity = true)
      (hparameters : ∀ e ∈ input.parameterValues.entries, e.2.isFinite = true)
      (hd : input.material.density = some d) (hdensity : ¬ Settings.isPositive d = true) :
      Invalid input (.invalidInput "material.density" (Binary64.plainText d)
        "must be a positive number")
  | corrupt {reason : String} (hquantity : Settings.isPositive input.quantity = true)
      (hparameters : ∀ e ∈ input.parameterValues.entries, e.2.isFinite = true)
      (hdensity : ∀ d, input.material.density = some d → Settings.isPositive d = true)
      (hstructure : input.shape.checkStructure
        = .error (.corruptCatalogEntry input.shape.key reason)) :
      Invalid input (.corruptCatalogEntry input.shape.key reason)

theorem badParameter?_eq_some {name : String} {value : Float} :
    input.badParameter? = some (name, value) ↔
      ¬ value.isFinite = true ∧ ∃ before after,
        input.parameterValues.entries = before ++ (name, value) :: after
          ∧ ∀ e ∈ before, e.2.isFinite = true := by
  unfold badParameter?
  rw [List.find?_eq_some_iff_append]
  simp

theorem badParameter?_eq_none :
    input.badParameter? = none ↔ ∀ e ∈ input.parameterValues.entries, e.2.isFinite = true := by
  unfold badParameter?
  rw [List.find?_eq_none]
  simp

theorem badDensity?_eq_some {d : Float} :
    input.badDensity? = some d ↔
      input.material.density = some d ∧ ¬ Settings.isPositive d = true := by
  unfold badDensity?
  rw [Option.filter_eq_some_iff]
  simp

theorem badDensity?_eq_none :
    input.badDensity? = none ↔
      ∀ d, input.material.density = some d → Settings.isPositive d = true := by
  unfold badDensity?
  rw [Option.filter_eq_none_iff]
  simp

theorem validate_of_quantity (hq : ¬ Settings.isPositive input.quantity = true) :
    input.validate = .error (.invalidInput "quantity" (Binary64.plainText input.quantity)
      "must be a positive number") := by
  unfold validate
  rw [Bool.not_eq_true] at hq
  rw [if_pos (by rw [hq]; rfl)]

theorem validate_of_parameter {name : String} {value : Float}
    (hq : Settings.isPositive input.quantity = true)
    (hp : input.badParameter? = some (name, value)) :
    input.validate = .error (.invalidInput ("parameterValues." ++ name) (Binary64.plainText value)
      "must be a finite number") := by
  unfold validate
  rw [if_neg (by rw [hq]; nofun), hp]

theorem validate_of_density {d : Float} (hq : Settings.isPositive input.quantity = true)
    (hp : input.badParameter? = none) (hd : input.badDensity? = some d) :
    input.validate = .error (.invalidInput "material.density" (Binary64.plainText d)
      "must be a positive number") := by
  unfold validate
  rw [if_neg (by rw [hq]; nofun), hp, hd]

theorem validate_of_values (hq : Settings.isPositive input.quantity = true)
    (hp : input.badParameter? = none) (hd : input.badDensity? = none) :
    input.validate = input.shape.checkStructure := by
  unfold validate
  rw [if_neg (by rw [hq]; nofun), hp, hd]

theorem validate_of_computable (h : input.Computable) : input.validate = .ok () := by
  rw [validate_of_values h.quantity (badParameter?_eq_none.2 h.parameters)
    (badDensity?_eq_none.2 h.density)]
  exact h.structure_ok

theorem validate_of_invalid (h : input.Invalid fault) : input.validate = .error fault := by
  cases h with
  | quantity hq => exact validate_of_quantity hq
  | parameter hq hentries hbefore hvalue =>
    exact validate_of_parameter hq (badParameter?_eq_some.2 ⟨hvalue, _, _, hentries, hbefore⟩)
  | density hq hparameters hd hbad =>
    exact validate_of_density hq (badParameter?_eq_none.2 hparameters)
      (badDensity?_eq_some.2 ⟨hd, hbad⟩)
  | corrupt hq hparameters hdensity hstructure =>
    rw [validate_of_values hq (badParameter?_eq_none.2 hparameters)
      (badDensity?_eq_none.2 hdensity)]
    exact hstructure

/-- Input can be computed with, or there is a fault to report. -/
theorem computable_or_invalid (input : EstimateInput) :
    input.Computable ∨ ∃ fault, input.Invalid fault := by
  by_cases hq : Settings.isPositive input.quantity = true
  · -- the checks in their order, each once those before it have passed
    cases hp : input.badParameter? with
    | some e =>
      obtain ⟨hvalue, before, after, hentries, hbefore⟩ := badParameter?_eq_some.1 hp
      exact Or.inr ⟨_, .parameter hq hentries hbefore hvalue⟩
    | none =>
      have hparameters := badParameter?_eq_none.1 hp
      cases hd : input.badDensity? with
      | some d =>
        obtain ⟨hdensity, hbad⟩ := badDensity?_eq_some.1 hd
        exact Or.inr ⟨_, .density hq hparameters hdensity hbad⟩
      | none =>
        have hdensity := badDensity?_eq_none.1 hd
        cases hstructure : input.shape.checkStructure with
        | ok u => exact Or.inl ⟨hq, hparameters, hdensity, hstructure⟩
        | error fault =>
          obtain ⟨reason, rfl⟩ := Shape.checkStructure_eq_error hstructure
          exact Or.inr ⟨_, .corrupt hq hparameters hdensity hstructure⟩
  · exact Or.inr ⟨_, .quantity hq⟩

/-! ## §3. Evaluation that goes through. -/

variable {density : Float}

theorem exists_advice_iff :
    (∃ advice, input.advice = .ok advice) ↔
      ∀ r ∈ input.shape.validationRules, ¬ r.IsAborted input.parameterValues := by
  rw [← Shape.exists_ruleViolations_iff]
  unfold advice
  dsimp only
  cases input.shape.ruleViolations input.parameterValues with
  | ok found => exact iff_of_true ⟨_, rfl⟩ ⟨_, rfl⟩
  | error a => exact iff_of_false (fun ⟨_, h⟩ => nomatch h) fun ⟨_, h⟩ => nomatch h

theorem exists_outcomes_iff :
    (∃ o, input.outcomes density = .ok o) ↔
      ∀ name f, input.shape.formulas.get? name = some (.formula f) →
        ¬ Aborts (f.evaluate input.parameterValues (some density)) := by
  unfold outcomes
  rw [Formula.Outcomes.exists_ofFormulas_iff]
  constructor
  · intro h name f hf
    exact h (name, f) (Shape.mem_plainFormulas.2 hf)
  · rintro h ⟨name, f⟩ hf
    exact h name f (Shape.mem_plainFormulas.1 hf)

/-- The density that the formulas are evaluated with. -/
def resolvedDensity (input : EstimateInput) (settings : Settings) : Float :=
  input.material.density.getD settings.defaultDensity

/-- No rule and no plain formula is aborted. -/
structure PlainRuns (input : EstimateInput) (settings : Settings) : Prop where
  /-- The rules. -/
  rules : ∀ r ∈ input.shape.validationRules, ¬ r.IsAborted input.parameterValues
  /-- The plain formulas. -/
  formulas : ∀ name f, input.shape.formulas.get? name = some (.formula f) →
    ¬ Aborts (f.evaluate input.parameterValues (some (input.resolvedDensity settings)))

/-- No formula of a composite entry is aborted. -/
def CompositesRun (input : EstimateInput) (settings : Settings) : Prop :=
  ∀ name entry, input.shape.formulas.get? name = some entry → entry.isComposite = true →
    ∀ sub ∈ entry.subFormulas,
      ¬ Aborts (sub.2.evaluate input.parameterValues (some (input.resolvedDensity settings)))

theorem plainRuns_iff :
    input.PlainRuns settings ↔
      (∃ advice, input.advice = .ok advice)
        ∧ ∃ o, input.outcomes (input.resolvedDensity settings) = .ok o := by
  rw [exists_advice_iff, exists_outcomes_iff]
  exact ⟨fun h => ⟨h.rules, h.formulas⟩, fun h => ⟨h.1, h.2⟩⟩

theorem compositesRun_iff {g : Geometry} :
    input.CompositesRun settings ↔
      ∃ g', g.addComposites input.shape input.parameterValues (input.resolvedDensity settings)
        = .ok g' := by
  rw [Geometry.exists_addComposites_iff]
  constructor
  · rintro h ⟨name, entry⟩ hentry
    obtain ⟨hget, hcomposite⟩ := Shape.mem_compositeEntries.1 hentry
    exact h name entry hget hcomposite
  · intro h name entry hget hcomposite
    exact h (name, entry) (Shape.mem_compositeEntries.2 ⟨hget, hcomposite⟩)

/-! ## §4. Required formulas. -/

/-- A name stands for one formula of the shape, and it fails. -/
def PlainFails (input : EstimateInput) (settings : Settings) (name : String) : Prop :=
  ∃ f fault, input.shape.formulas.get? name = some (.formula f)
    ∧ f.evaluate input.parameterValues (some (input.resolvedDensity settings))
      = .error (.failure fault)

/-- The fault that is reported of input without an estimate. -/
inductive Refused (input : EstimateInput) (settings : Settings) : Fault → Prop where
  | invalid {fault : Fault} (hinvalid : input.Invalid fault) : Refused input settings fault
  | required {fails : String → Bool} (hcomputable : input.Computable)
      (hplain : input.PlainRuns settings)
      (hfails : ∀ name, fails name = true ↔ input.PlainFails settings name)
      (hsome : ["volume", "weight"].filter fails ≠ []) :
      Refused input settings
        (.requiredFormulasFailed input.shape.key (["volume", "weight"].filter fails))

/-- Input that has an estimate. -/
structure Accepted (input : EstimateInput) (settings : Settings) : Prop where
  /-- It can be computed with. -/
  computable : input.Computable
  /-- No rule and no plain formula is aborted. -/
  plain : input.PlainRuns settings
  /-- The volume does not fail, if it is a plain formula. -/
  volume : ¬ input.PlainFails settings "volume"
  /-- The weight does not fail, if it is a plain formula. -/
  weight : ¬ input.PlainFails settings "weight"
  /-- No formula of a composite entry is aborted. -/
  composites : input.CompositesRun settings

/-- Input that there is neither an estimate of nor a fault. -/
inductive Aborted (input : EstimateInput) (settings : Settings) : Prop where
  | plain (hcomputable : input.Computable) (hplain : ¬ input.PlainRuns settings)
  | composites (hcomputable : input.Computable)
      (hvolume : ¬ input.PlainFails settings "volume")
      (hweight : ¬ input.PlainFails settings "weight")
      (hcomposites : ¬ input.CompositesRun settings)

variable {o : Formula.Outcomes}

/-- Whether a required formula is listed as failed. -/
def isFailed (s : Shape) (o : Formula.Outcomes) (name : String) : Bool :=
  s.definesFormula name && o.failures.contains name

theorem isFailed_iff {name : String}
    (ho : input.outcomes (input.resolvedDensity settings) = .ok o) :
    isFailed input.shape o name = true ↔ input.PlainFails settings name := by
  unfold isFailed
  rw [Bool.and_eq_true, Shape.definesFormula_iff,
    Formula.Outcomes.contains_failures_ofFormulas ho]
  constructor
  · -- what fails under the name is a plain formula, since the batch holds no others
    rintro ⟨_, f, fault, hf, hfault⟩
    exact ⟨f, fault, Shape.mem_plainFormulas.1 hf, hfault⟩
  · rintro ⟨f, fault, hf, hfault⟩
    exact ⟨⟨f, hf⟩, f, fault, Shape.mem_plainFormulas.2 hf, hfault⟩

theorem failedRequired_eq (s : Shape) (o : Formula.Outcomes) :
    failedRequired s o = ["volume", "weight"].filter (isFailed s o) := rfl

theorem failedRequired_eq_nil_iff
    (ho : input.outcomes (input.resolvedDensity settings) = .ok o) :
    failedRequired input.shape o = [] ↔
      ¬ input.PlainFails settings "volume" ∧ ¬ input.PlainFails settings "weight" := by
  rw [failedRequired_eq, List.filter_eq_nil_iff, ← isFailed_iff ho, ← isFailed_iff ho]
  simp

/-! ## §5. What is found. -/

/-- Where rules and plain formulas go through, the required formulas decide whether the composite
entries are evaluated. -/
theorem findings_of_outcomes {advice : List String} (ha : input.advice = .ok advice)
    (ho : input.outcomes density = .ok o) :
    input.findings density =
      match failedRequired input.shape o with
      | [] =>
        (orAbort ((Geometry.ofOutcomes o).addComposites input.shape input.parameterValues
          density)).map fun geometry => { advice, outcomes := o, geometry }
      | failed => .error (.failure (.requiredFormulasFailed input.shape.key failed)) := by
  unfold findings
  rw [ha, orAbort_ok, ho]
  show (match failedRequired input.shape o with | [] => _ | failed => _) = _
  cases failedRequired input.shape o with
  | cons first more => rfl
  | nil =>
    dsimp only
    cases (Geometry.ofOutcomes o).addComposites input.shape input.parameterValues density <;> rfl

/-- What was found of a shape: everything went through, and nothing required failed. -/
structure Found (input : EstimateInput) (density : Float) (found : Findings) : Prop where
  /-- The advice. -/
  advice : input.advice = .ok found.advice
  /-- The outcomes of the plain formulas. -/
  outcomes : input.outcomes density = .ok found.outcomes
  /-- Nothing required failed. -/
  required : failedRequired input.shape found.outcomes = []
  /-- The geometry with the values of the composite entries. -/
  geometry : (Geometry.ofOutcomes found.outcomes).addComposites input.shape input.parameterValues
    density = .ok found.geometry

theorem found_of_findings {found : Findings} (h : input.findings density = .ok found) :
    input.Found density found := by
  cases ha : input.advice with
  | error a =>
    unfold findings at h
    rw [ha] at h
    exact nomatch h
  | ok advice =>
    cases ho : input.outcomes density with
    | error a =>
      unfold findings at h
      rw [ha, orAbort_ok, ho] at h
      exact nomatch h
    | ok o =>
      rw [findings_of_outcomes ha ho] at h
      cases hfailed : failedRequired input.shape o with
      | cons first more =>
        rw [hfailed] at h
        exact nomatch h
      | nil =>
        rw [hfailed] at h
        dsimp only at h
        cases hg : (Geometry.ofOutcomes o).addComposites input.shape input.parameterValues
            density with
        | error a =>
          rw [hg] at h
          exact nomatch h
        | ok g =>
          rw [hg] at h
          cases h
          exact ⟨ha, ho, hfailed, hg⟩

theorem Found.findings_eq {found : Findings} (h : input.Found density found) :
    input.findings density = .ok found := by
  rw [findings_of_outcomes h.advice h.outcomes, h.required]
  dsimp only
  rw [h.geometry]
  rfl

theorem aborts_findings_of_not_plainRuns (h : ¬ input.PlainRuns settings) :
    Aborts (input.findings (input.resolvedDensity settings)) := by
  unfold findings
  cases ha : input.advice with
  | error a => exact ⟨a, rfl⟩
  | ok advice =>
    cases ho : input.outcomes (input.resolvedDensity settings) with
    | error a => exact ⟨a, rfl⟩
    | ok o => exact absurd (plainRuns_iff.2 ⟨⟨advice, ha⟩, o, ho⟩) h

theorem aborts_findings_of_not_compositesRun
    (hvolume : ¬ input.PlainFails settings "volume")
    (hweight : ¬ input.PlainFails settings "weight") (h : ¬ input.CompositesRun settings) :
    Aborts (input.findings (input.resolvedDensity settings)) := by
  by_cases hplain : input.PlainRuns settings
  · obtain ⟨⟨advice, ha⟩, o, ho⟩ := plainRuns_iff.1 hplain
    rw [findings_of_outcomes ha ho, (failedRequired_eq_nil_iff ho).2 ⟨hvolume, hweight⟩]
    dsimp only
    cases hg : (Geometry.ofOutcomes o).addComposites input.shape input.parameterValues
        (input.resolvedDensity settings) with
    | error a => exact ⟨a, rfl⟩
    | ok g => exact absurd (compositesRun_iff.2 ⟨g, hg⟩) h
  · exact aborts_findings_of_not_plainRuns hplain

/-! ## §6. The result. -/

/-- Once input can be computed with, what the formulas come to alone decides. -/
theorem estimateAt_of_computable (h : input.Computable) :
    input.estimateAt rates settings =
      (input.findings (input.resolvedDensity settings)).map
        (input.assemble rates settings (input.resolvedDensity settings)) := by
  unfold estimateAt
  rw [validate_of_computable h]
  show (input.findings (input.resolvedDensity settings) >>= _) = _
  cases input.findings (input.resolvedDensity settings) <;> rfl

theorem estimateAt_of_invalid (h : input.Invalid fault) :
    input.estimateAt rates settings = .error (.failure fault) := by
  unfold estimateAt
  rw [validate_of_invalid h]
  rfl

theorem estimateAt_of_found {found : Findings} (h : input.Computable)
    (hfound : input.Found (input.resolvedDensity settings) found) :
    input.estimateAt rates settings =
      .ok (input.assemble rates settings (input.resolvedDensity settings) found) := by
  rw [estimateAt_of_computable h, hfound.findings_eq]
  rfl

/-- An estimate is the one that is assembled from what the formulas come to. -/
theorem exists_found_of_estimateAt {e : Estimate}
    (h : input.estimateAt rates settings = .ok e) :
    input.Computable ∧ ∃ found, input.Found (input.resolvedDensity settings) found
      ∧ e = input.assemble rates settings (input.resolvedDensity settings) found := by
  rcases input.computable_or_invalid with hcomputable | ⟨fault, hinvalid⟩
  · rw [estimateAt_of_computable hcomputable] at h
    cases hfound : input.findings (input.resolvedDensity settings) with
    | error stop =>
      rw [hfound] at h
      exact nomatch h
    | ok found =>
      rw [hfound] at h
      cases h
      exact ⟨hcomputable, found, found_of_findings hfound, rfl⟩
  · exact nomatch (estimateAt_of_invalid hinvalid).symm.trans h

theorem estimateAt_of_refused (h : input.Refused settings fault) :
    input.estimateAt rates settings = .error (.failure fault) := by
  cases h with
  | invalid hinvalid => exact estimateAt_of_invalid hinvalid
  | @required fails hcomputable hplain hfails hsome =>
    obtain ⟨⟨advice, ha⟩, o, ho⟩ := plainRuns_iff.1 hplain
    -- two tests that agree with the same property are equal, so they list the same names
    have heq : fails = isFailed input.shape o := by
      funext name
      exact Bool.eq_iff_iff.2 ((hfails name).trans (isFailed_iff ho).symm)
    rw [heq, ← failedRequired_eq] at hsome ⊢
    rw [estimateAt_of_computable hcomputable, findings_of_outcomes ha ho]
    cases hfailed : failedRequired input.shape o with
    | nil => exact absurd hfailed hsome
    | cons first more => rfl

theorem Accepted.exists_found (h : input.Accepted settings) :
    ∃ found, input.Found (input.resolvedDensity settings) found := by
  obtain ⟨⟨advice, ha⟩, o, ho⟩ := plainRuns_iff.1 h.plain
  obtain ⟨g, hg⟩ := (compositesRun_iff (g := Geometry.ofOutcomes o)).1 h.composites
  exact ⟨⟨advice, o, g⟩, ha, ho, (failedRequired_eq_nil_iff ho).2 ⟨h.volume, h.weight⟩, hg⟩

theorem Accepted.exists_estimateAt (h : input.Accepted settings) :
    ∃ e, input.estimateAt rates settings = .ok e := by
  obtain ⟨found, hfound⟩ := h.exists_found
  exact ⟨_, estimateAt_of_found h.computable hfound⟩

theorem aborts_estimateAt_of_aborted (h : input.Aborted settings) :
    Aborts (input.estimateAt rates settings) := by
  have hfindings : input.Computable
      ∧ Aborts (input.findings (input.resolvedDensity settings)) := by
    cases h with
    | plain hcomputable hplain => exact ⟨hcomputable, aborts_findings_of_not_plainRuns hplain⟩
    | composites hcomputable hvolume hweight hcomposites =>
      exact ⟨hcomputable, aborts_findings_of_not_compositesRun hvolume hweight hcomposites⟩
  obtain ⟨hcomputable, a, ha⟩ := hfindings
  rw [estimateAt_of_computable hcomputable, ha]
  exact ⟨a, rfl⟩

/-- Input is refused, accepted or aborted. -/
theorem refused_or_accepted_or_aborted (input : EstimateInput) (settings : Settings) :
    (∃ fault, input.Refused settings fault) ∨ input.Accepted settings
      ∨ input.Aborted settings := by
  rcases input.computable_or_invalid with hcomputable | ⟨fault, hinvalid⟩
  · by_cases hplain : input.PlainRuns settings
    · obtain ⟨-, o, ho⟩ := plainRuns_iff.1 hplain
      by_cases hfailed : failedRequired input.shape o = []
      · obtain ⟨hvolume, hweight⟩ := (failedRequired_eq_nil_iff ho).1 hfailed
        by_cases hcomposites : input.CompositesRun settings
        · exact Or.inr (Or.inl ⟨hcomputable, hplain, hvolume, hweight, hcomposites⟩)
        · exact Or.inr (Or.inr (.composites hcomputable hvolume hweight hcomposites))
      · exact Or.inl ⟨_, .required hcomputable hplain (fun name => isFailed_iff ho) hfailed⟩
    · exact Or.inr (Or.inr (.plain hcomputable hplain))
  · exact Or.inl ⟨fault, .invalid hinvalid⟩

theorem estimateAt_eq_failure_iff :
    input.estimateAt rates settings = .error (.failure fault) ↔ input.Refused settings fault := by
  refine ⟨fun h => ?_, estimateAt_of_refused⟩
  -- of the three each has a result of its own kind
  rcases input.refused_or_accepted_or_aborted settings with ⟨reported, hr⟩ | hr | hr
  · cases h.symm.trans (estimateAt_of_refused hr)
    exact hr
  · obtain ⟨e, he⟩ := hr.exists_estimateAt
    exact nomatch h.symm.trans he
  · obtain ⟨a, ha⟩ := aborts_estimateAt_of_aborted hr
    exact nomatch h.symm.trans ha

theorem exists_estimateAt_iff :
    (∃ e, input.estimateAt rates settings = .ok e) ↔ input.Accepted settings := by
  refine ⟨fun ⟨e, h⟩ => ?_, Accepted.exists_estimateAt⟩
  rcases input.refused_or_accepted_or_aborted settings with ⟨reported, hr⟩ | hr | hr
  · exact nomatch h.symm.trans (estimateAt_of_refused hr)
  · exact hr
  · obtain ⟨a, ha⟩ := aborts_estimateAt_of_aborted hr
    exact nomatch h.symm.trans ha

theorem aborts_estimateAt_iff :
    Aborts (input.estimateAt rates settings) ↔ input.Aborted settings := by
  refine ⟨fun ⟨a, h⟩ => ?_, aborts_estimateAt_of_aborted⟩
  rcases input.refused_or_accepted_or_aborted settings with ⟨reported, hr⟩ | hr | hr
  · exact nomatch h.symm.trans (estimateAt_of_refused hr)
  · obtain ⟨e, he⟩ := hr.exists_estimateAt
    exact nomatch h.symm.trans he
  · exact hr

/-- **When there is an estimate.**  A fault is returned exactly when it is the first that stands
against the input, and there is an estimate exactly when nothing does and nothing is aborted.  There
is neither exactly when a rule or a plain formula is aborted, or, with nothing against the input, a
formula of a composite entry. -/
theorem estimateAt_outcome (input : EstimateInput) (rates : Rates) (settings : Settings) :
    (∀ fault, input.estimateAt rates settings = .error (.failure fault)
      ↔ input.Refused settings fault)
    ∧ ((∃ e, input.estimateAt rates settings = .ok e) ↔ input.Accepted settings)
    ∧ (Aborts (input.estimateAt rates settings) ↔ input.Aborted settings) :=
  ⟨fun _ => estimateAt_eq_failure_iff, exists_estimateAt_iff, aborts_estimateAt_iff⟩

/-- A bar with a length that is aborted, and nothing that is required. -/
def unsettledBar : EstimateInput where
  shape := (Shape.new "bar" "Bar" .rectangularPlate).withFormula "length" Formula.unsettledLength
  material := { id := "M", name := "M", category := .carbonSteel, density := some 7850 }
  parameterValues := .empty

/-- Nothing that can be reported stands against the bar, and there is no estimate of it. -/
theorem unsettledBar_no_estimate :
    unsettledBar.Computable ∧ ¬ unsettledBar.PlainFails {} "volume"
      ∧ ¬ unsettledBar.PlainFails {} "weight"
      ∧ ∀ e, unsettledBar.estimateAt {} {} ≠ .ok e := by
  have hnone : ∀ name ∈ ["volume", "weight"], ¬ unsettledBar.PlainFails {} name := by
    rintro name hname ⟨f, -, hf, -⟩
    have habsent : ∀ n ∈ ["volume", "weight"], unsettledBar.shape.formulas.get? n = none := by
      decide
    exact nomatch (habsent name hname).symm.trans hf
  have hcomputable : unsettledBar.Computable := ⟨by decide, nofun, by
    intro d hd
    cases hd
    decide, rfl⟩
  refine ⟨hcomputable, hnone _ (by decide), hnone _ (by decide), fun e he => ?_⟩
  have hplain := (exists_estimateAt_iff.1 ⟨e, he⟩).plain
  exact hplain.formulas "length" Formula.unsettledLength rfl
    ⟨_, Formula.evaluate_unsettledLength _ _⟩

end EstimateInput

end ShapeEstimator
