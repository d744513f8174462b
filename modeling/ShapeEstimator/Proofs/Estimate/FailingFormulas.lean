/-
  ShapeEstimator.Proofs.Estimate.FailingFormulas
  ────────────────────────────────
  **A FORMULA THAT FAILS IS AS GOOD AS ABSENT, ONE THAT IS ABORTED IS NOT.**

  A plain formula that fails is left out of the results, and the estimate is made from
  the results.  So two shapes that differ in failing formulas alone have one estimate,
  where neither volume nor weight is among them:

      removed ⊆ failing   →   estimateAt (shape without removed)  =  estimateAt shape

  A formula that is aborted is not left out.  It leaves no estimate.
-/
import ShapeEstimator.Proofs.Estimate.RangeWarnings

namespace ShapeEstimator

open Formula (Definition EvaluationResult Outcomes)

/-! ## §1. Shapes without some formulas. -/

namespace Shape

/-- The shape without the formulas of some names. -/
def without (s : Shape) (removed : String → Bool) : Shape :=
  { s with formulas := s.formulas.restrict fun n => !removed n }

variable {s : Shape} {removed : String → Bool}

theorem plainFormulas_without :
    (s.without removed).plainFormulas = s.plainFormulas.filter fun e => !removed e.1 := by
  show (s.formulas.entries.filter fun e => !removed e.1).filterMap _ = (List.filterMap _ _).filter _
  rw [List.filterMap_filter, List.filter_filterMap]
  congr 1
  funext e
  obtain ⟨n, entry⟩ := e
  cases hn : removed n with
  | true => cases entry <;> simp [FormulaEntry.formula?, Option.filter, hn]
  | false => cases entry <;> simp [FormulaEntry.formula?, Option.filter, hn]

/-- Removing plain formulas leaves the composite entries. -/
theorem compositeEntries_without
    (hplain : ∀ n, removed n = true → ∃ f, s.formulas.get? n = some (.formula f)) :
    (s.without removed).compositeEntries = s.compositeEntries := by
  show (s.formulas.entries.filter fun e => !removed e.1).filter _ = List.filter _ _
  rw [List.filter_filter]
  apply List.filter_congr
  rintro ⟨n, entry⟩ hmem
  show (entry.isComposite && !removed n) = entry.isComposite
  cases hn : removed n with
  | false => rw [Bool.not_false, Bool.and_true]
  | true =>
    -- what is removed is a plain formula
    obtain ⟨f, hf⟩ := hplain n hn
    rw [NameMap.mem_entries_iff, hf] at hmem
    cases hmem
    rfl

/-- Of the formulas of a shape the check reads whether there are any. -/
theorem checkStructure_congr {formulas : NameMap FormulaEntry} (hs : s.formulas.entries ≠ [])
    (h : formulas.entries ≠ []) :
    { s with formulas }.checkStructure = s.checkStructure := by
  have hproblems : { s with formulas }.problems = s.problems := by
    unfold problems
    rw [List.isEmpty_eq_false_iff.2 h, List.isEmpty_eq_false_iff.2 hs]
  unfold checkStructure
  rw [hproblems]

/-- A shape that is accepted has an entry. -/
theorem formulas_ne_nil (h : s.checkStructure = .ok ()) : s.formulas.entries ≠ [] := by
  intro hnil
  have hproblem : Problem.noFormulas ∈ s.problems := by
    unfold problems
    rw [hnil]
    exact List.mem_append_left _ (List.mem_append_right _ List.mem_cons_self)
  unfold checkStructure at h
  split at h
  · rename_i hproblems
    rw [hproblems] at hproblem
    exact List.not_mem_nil hproblem
  · exact nomatch h

end Shape

/-! ## §2. Failures leave the results alone. -/

/-- Leaving out formulas that fail does not change the results of a batch, nor whether there are
any. -/
theorem Formula.Outcomes.results_ofFormulas_filter {context : NameMap Float}
    {density : Option Float} {formulas : List (String × Definition)}
    {keep : String × Definition → Bool}
    (hfail : ∀ e ∈ formulas, keep e = false →
      ∃ fault, e.2.evaluate context density = .error (.failure fault)) :
    (ofFormulas (formulas.filter keep) context density).map (·.results)
      = (ofFormulas formulas context density).map (·.results) := by
  -- the failures differ, so the induction carries equal results only
  suffices hgo : ∀ o o' : Outcomes, o.results = o'.results →
      ((formulas.filter keep).foldlM (addFormula context density) o).map (·.results)
        = (formulas.foldlM (addFormula context density) o').map (·.results) from
    hgo empty empty rfl
  induction formulas with
  | nil => exact fun o o' h => congrArg Except.ok h
  | cons head rest ih =>
    have hrest := ih fun e he => hfail e (List.mem_cons_of_mem _ he)
    intro o o' h
    cases hkeep : keep head with
    | true =>
      rw [List.filter_cons_of_pos hkeep, List.foldlM_cons, List.foldlM_cons, addFormula, addFormula]
      cases head.2.evaluate context density with
      | ok r => exact hrest _ _ (congrArg (·.insert head.1 r) h)
      | error stop =>
        cases stop with
        | failure fault => exact hrest _ _ h
        | abort a => rfl
    | false =>
      obtain ⟨fault, hfault⟩ := hfail head List.mem_cons_self hkeep
      rw [List.filter_cons_of_neg (Bool.not_eq_true _ ▸ hkeep), List.foldlM_cons, addFormula,
        hfault]
      exact hrest _ _ h

/-! ## §3. Estimates. -/

namespace EstimateInput

variable {input : EstimateInput} {rates : Rates} {settings : Settings} {e : Estimate}
variable {removed : String → Bool}

/-- The input without the formulas of some names. -/
def without (input : EstimateInput) (removed : String → Bool) : EstimateInput :=
  { input with shape := input.shape.without removed }

/-- The input with one more plain formula. -/
def withFormula (input : EstimateInput) (name : String) (f : Definition) : EstimateInput :=
  { input with shape := input.shape.withFormula name f }

theorem validate_without (h : (input.shape.without removed).formulas.entries ≠ []) :
    (input.without removed).validate = input.validate := by
  have hs : input.shape.formulas.entries ≠ [] := by
    intro hnil
    apply h
    show input.shape.formulas.entries.filter _ = []
    rw [hnil]
    rfl
  have hstructure : (input.shape.without removed).checkStructure = input.shape.checkStructure :=
    Shape.checkStructure_congr hs h
  unfold validate
  rw [show (input.without removed).shape.checkStructure = input.shape.checkStructure from
    hstructure]
  rfl

theorem plainFails_without {name : String} (hname : removed name = false) :
    (input.without removed).PlainFails settings name ↔ input.PlainFails settings name := by
  unfold PlainFails
  show (∃ f fault, (input.shape.formulas.restrict fun n => !removed n).get? name = _ ∧ _) ↔ _
  rw [NameMap.get?_restrict, hname]
  exact Iff.rfl

/-- The results of the plain formulas do not show what fails. -/
theorem results_without (hfail : ∀ name, removed name = true → input.PlainFails settings name) :
    ((input.without removed).outcomes (input.resolvedDensity settings)).map (·.results)
      = (input.outcomes (input.resolvedDensity settings)).map (·.results) := by
  unfold outcomes
  show (Outcomes.ofFormulas (input.shape.without removed).plainFormulas _ _).map _ = _
  rw [Shape.plainFormulas_without]
  apply Outcomes.results_ofFormulas_filter
  rintro ⟨name, f⟩ hmem hremoved
  obtain ⟨g, fault, hg, hfault⟩ := hfail name (by simpa using hremoved)
  rw [Shape.mem_plainFormulas, hg] at hmem
  cases hmem
  exact ⟨fault, hfault⟩

/-- Of the outcomes of the plain formulas the estimate reads the results. -/
theorem assemble_congr {advice : List String} {o o' : Outcomes} {geometry : Geometry}
    {density : Float} (h : o'.results = o.results) :
    (input.without removed).assemble rates settings density ⟨advice, o', geometry⟩
      = input.assemble rates settings density ⟨advice, o, geometry⟩ := by
  have hranges : rangeWarnings o' = rangeWarnings o := by
    unfold rangeWarnings
    rw [h]
  unfold assemble
  dsimp only
  rw [hranges]
  rfl

/-- Neither volume nor weight is removed, so the same of the two have failed. -/
theorem failedRequired_without {o o' : Outcomes}
    (hvolume : removed "volume" = false) (hweight : removed "weight" = false)
    (ho' : (input.without removed).outcomes (input.resolvedDensity settings) = .ok o')
    (ho : input.outcomes (input.resolvedDensity settings) = .ok o) :
    failedRequired (input.without removed).shape o' = failedRequired input.shape o := by
  rw [failedRequired_eq, failedRequired_eq]
  apply List.filter_congr
  intro name hname
  have hkept : removed name = false := by
    rcases List.mem_cons.1 hname with rfl | hname
    · exact hvolume
    · rw [List.mem_singleton.1 hname]
      exact hweight
  have ho' : (input.without removed).outcomes ((input.without removed).resolvedDensity settings)
      = .ok o' := ho'
  rw [Bool.eq_iff_iff, isFailed_iff ho', isFailed_iff ho, plainFails_without hkept]

/-- The plain formulas come to the same results, or the same one of them is the first that is
aborted. -/
theorem outcomes_without (hfail : ∀ name, removed name = true → input.PlainFails settings name) :
    (∃ a, input.outcomes (input.resolvedDensity settings) = .error a
        ∧ (input.without removed).outcomes (input.resolvedDensity settings) = .error a)
      ∨ ∃ o o', input.outcomes (input.resolvedDensity settings) = .ok o
        ∧ (input.without removed).outcomes (input.resolvedDensity settings) = .ok o'
        ∧ o'.results = o.results := by
  have hresults : ((input.without removed).outcomes (input.resolvedDensity settings)).map
      (·.results) = (input.outcomes (input.resolvedDensity settings)).map (·.results) :=
    results_without hfail
  cases ho : input.outcomes (input.resolvedDensity settings) with
  | error a =>
    cases ho' : (input.without removed).outcomes (input.resolvedDensity settings) with
    | error a' =>
      rw [ho, ho'] at hresults
      cases hresults
      exact .inl ⟨a, rfl, rfl⟩
    | ok o' =>
      rw [ho, ho'] at hresults
      cases hresults
  | ok o =>
    cases ho' : (input.without removed).outcomes (input.resolvedDensity settings) with
    | error a' =>
      rw [ho, ho'] at hresults
      cases hresults
    | ok o' =>
      rw [ho, ho'] at hresults
      exact .inr ⟨o, o', rfl, rfl, Except.ok.inj hresults⟩

/-- The composite formulas are the same, and they start from the same results. -/
theorem addComposites_without {o o' : Outcomes} {density : Float}
    (hfail : ∀ name, removed name = true → input.PlainFails settings name)
    (hsame : o'.results = o.results) :
    (Geometry.ofOutcomes o').addComposites (input.without removed).shape
        (input.without removed).parameterValues density
      = (Geometry.ofOutcomes o).addComposites input.shape input.parameterValues density := by
  have hcomposites : (input.shape.without removed).compositeEntries
      = input.shape.compositeEntries := by
    apply Shape.compositeEntries_without
    intro name hname
    obtain ⟨f, fault, hf, _⟩ := hfail name hname
    exact ⟨f, hf⟩
  unfold Geometry.addComposites Geometry.ofOutcomes Outcomes.value?
  rw [hsame]
  show (input.shape.without removed).compositeEntries.foldlM _ _ = _
  rw [hcomposites]
  rfl

/-- What is found without some failing formulas makes the same estimate. -/
theorem findings_without (hfail : ∀ name, removed name = true → input.PlainFails settings name)
    (hvolume : removed "volume" = false) (hweight : removed "weight" = false) :
    ((input.without removed).findings (input.resolvedDensity settings)).map
        ((input.without removed).assemble rates settings (input.resolvedDensity settings))
      = (input.findings (input.resolvedDensity settings)).map
        (input.assemble rates settings (input.resolvedDensity settings)) := by
  cases ha : input.advice with
  | error a =>
    have ha' : (input.without removed).advice = .error a := ha
    unfold findings
    rw [ha, ha']
    rfl
  | ok advice =>
    have ha' : (input.without removed).advice = .ok advice := ha
    rcases outcomes_without hfail with ⟨a, ho, ho'⟩ | ⟨o, o', ho, ho', hsame⟩
    · unfold findings
      rw [ha, ha', orAbort_ok, ho, ho']
      rfl
    · rw [findings_of_outcomes ha ho, findings_of_outcomes ha' ho',
        failedRequired_without hvolume hweight ho' ho]
      cases failedRequired input.shape o with
      | cons first more => rfl
      | nil =>
        dsimp only
        rw [addComposites_without hfail hsame]
        cases (Geometry.ofOutcomes o).addComposites input.shape input.parameterValues
            (input.resolvedDensity settings) with
        | error a => rfl
        | ok g => exact congrArg Except.ok (assemble_congr hsame)

/-- **Formulas that fail are as good as absent.**  Without some of them the estimate is the same,
as long as an entry is left and neither volume nor weight is removed. -/
theorem estimateAt_without (hfail : ∀ name, removed name = true → input.PlainFails settings name)
    (hvolume : removed "volume" = false) (hweight : removed "weight" = false)
    (hrest : (input.shape.without removed).formulas.entries ≠ []) :
    (input.without removed).estimateAt rates settings = input.estimateAt rates settings := by
  have hvalidate := validate_without hrest
  rcases input.computable_or_invalid with hcomputable | ⟨fault, hinvalid⟩
  · have hcomputable' : (input.without removed).Computable := by
      rcases (input.without removed).computable_or_invalid with h | ⟨fault, h⟩
      · exact h
      · rw [validate_of_invalid h, validate_of_computable hcomputable] at hvalidate
        exact nomatch hvalidate
    rw [estimateAt_of_computable hcomputable', estimateAt_of_computable hcomputable]
    exact findings_without hfail hvolume hweight
  · unfold estimateAt
    rw [hvalidate, validate_of_invalid hinvalid]
    rfl

/-- Adding a formula under an unused name and removing it again gives the same input. -/
theorem without_withFormula {name : String} {f : Definition}
    (hunused : input.shape.formulas.contains name = false) :
    (input.withFormula name f).without (· == name) = input := by
  have hformulas : (input.shape.formulas.insert name (.formula f)).restrict (fun n => !(n == name))
      = input.shape.formulas := by
    apply NameMap.ext_get?
    intro n
    rw [NameMap.get?_restrict, NameMap.get?_insert]
    by_cases hn : n = name
    · subst hn
      rw [NameMap.contains, Option.isSome_eq_false_iff, Option.isNone_iff_eq_none] at hunused
      rw [hunused, beq_self_eq_true]
      rfl
    · rw [beq_false_of_ne hn, if_neg hn]
      rfl
  show { input with shape := { input.shape with
    formulas := (input.shape.formulas.insert name (.formula f)).restrict fun n => !(n == name) } }
      = input
  rw [hformulas]

/-- An input with an estimate has no failing formula among the required ones. -/
theorem not_removed_of_estimateAt (h : input.estimateAt rates settings = .ok e)
    (hfail : ∀ name, removed name = true → input.PlainFails settings name) :
    removed "volume" = false ∧ removed "weight" = false := by
  have haccepted := exists_estimateAt_iff.1 ⟨e, h⟩
  constructor
  · exact Bool.eq_false_iff.2 fun hremoved => haccepted.volume (hfail _ hremoved)
  · exact Bool.eq_false_iff.2 fun hremoved => haccepted.weight (hfail _ hremoved)

/-- A formula that fails may be added under an unused name that is not required. -/
theorem estimateAt_withFormula_of_fails {name : String} {f : Definition} {fault : Fault}
    (h : input.estimateAt rates settings = .ok e)
    (hunused : input.shape.formulas.contains name = false) (hvolume : name ≠ "volume")
    (hweight : name ≠ "weight")
    (hfault : f.evaluate input.parameterValues (some (input.resolvedDensity settings))
      = .error (.failure fault)) :
    (input.withFormula name f).estimateAt rates settings = .ok e := by
  -- the input is the larger one with the new formula removed
  have hback := without_withFormula (f := f) hunused
  have hfail : ∀ n, (n == name) = true → (input.withFormula name f).PlainFails settings n := by
    intro n hn
    rw [beq_iff_eq] at hn
    subst hn
    refine ⟨f, fault, ?_, hfault⟩
    show (input.shape.formulas.insert n (.formula f)).get? n = _
    rw [NameMap.get?_insert, if_pos rfl]
  have hrest : ((input.withFormula name f).shape.without (· == name)).formulas.entries ≠ [] := by
    have hcomputable := (exists_found_of_estimateAt h).1
    rw [show (input.withFormula name f).shape.without (· == name) = input.shape from
      congrArg EstimateInput.shape hback]
    exact Shape.formulas_ne_nil hcomputable.structure_ok
  rw [← estimateAt_without hfail (beq_false_of_ne hvolume.symm) (beq_false_of_ne hweight.symm)
    hrest, hback]
  exact h

theorem Computable.withFormula (h : input.Computable) (name : String) (f : Definition) :
    (input.withFormula name f).Computable where
  quantity := h.quantity
  parameters := h.parameters
  density := h.density
  structure_ok := by
    have hentry : (name, .formula f) ∈
        (input.shape.formulas.insert name (.formula f)).entries := by
      rw [NameMap.mem_entries_iff, NameMap.get?_insert, if_pos rfl]
    rw [← h.structure_ok]
    exact Shape.checkStructure_congr (Shape.formulas_ne_nil h.structure_ok)
      (List.ne_nil_of_mem hentry)

/-- A formula that is aborted leaves no estimate. -/
theorem aborts_estimateAt_withFormula {name : String} {f : Definition} (h : input.Computable)
    (haborts : Aborts (f.evaluate input.parameterValues
      (some (input.resolvedDensity settings)))) :
    Aborts ((input.withFormula name f).estimateAt rates settings) := by
  refine aborts_estimateAt_of_aborted (.plain (h.withFormula name f) ?_)
  intro hplain
  refine hplain.formulas name f ?_ haborts
  show (input.shape.formulas.insert name (.formula f)).get? name = _
  rw [NameMap.get?_insert, if_pos rfl]

/-- **A formula that fails is as good as absent, and one that is aborted is not.**  From input with
an estimate any failing plain formulas may be removed, as long as an entry is left: the estimate
stays the same.  Under an unused name that is not required a formula without a result may be added:
the estimate stays the same if the formula is not aborted, and there is none if it is. -/
theorem estimateAt_failing_absent (h : input.estimateAt rates settings = .ok e) :
    (∀ removed : String → Bool, (∀ name, removed name = true → input.PlainFails settings name) →
      (input.without removed).shape.formulas.entries ≠ [] →
        (input.without removed).estimateAt rates settings = .ok e)
    ∧ ∀ (name : String) (f : Definition),
      input.shape.formulas.contains name = false → name ≠ "volume" → name ≠ "weight" →
      (∀ r, f.evaluate input.parameterValues (some (input.resolvedDensity settings)) ≠ .ok r) →
        ((input.withFormula name f).estimateAt rates settings = .ok e ↔
          ¬ Aborts (f.evaluate input.parameterValues (some (input.resolvedDensity settings))))
        ∧ (Aborts (f.evaluate input.parameterValues (some (input.resolvedDensity settings))) →
          Aborts ((input.withFormula name f).estimateAt rates settings)) := by
  constructor
  · intro removed hfail hrest
    obtain ⟨hvolume, hweight⟩ := not_removed_of_estimateAt h hfail
    rw [estimateAt_without hfail hvolume hweight hrest]
    exact h
  · intro name f hunused hvolume hweight hnone
    have hcomputable : input.Computable := (exists_found_of_estimateAt h).1
    cases hf : f.evaluate input.parameterValues (some (input.resolvedDensity settings)) with
    | ok r => exact absurd hf (hnone r)
    | error stop =>
      cases stop with
      | failure fault =>
        have hsame := estimateAt_withFormula_of_fails h hunused hvolume hweight hf
        exact ⟨iff_of_true hsame (not_aborts_failure fault), fun ha => absurd ha
          (not_aborts_failure fault)⟩
      | abort a =>
        have haborts : Aborts ((input.withFormula name f).estimateAt rates settings) :=
          aborts_estimateAt_withFormula hcomputable ⟨a, hf⟩
        refine ⟨iff_of_false (fun hok => ?_) (not_not_intro (aborts_abort a)), fun _ => haborts⟩
        exact not_aborts_ok e (hok ▸ haborts)

/-- A length that is not known. -/
def rimLength : Definition := { expression := "rim", declared := ["rim"], unit := "mm" }

/-- The steep cone with edges of unknown length. -/
def rimmedCone : EstimateInput := steepCone.withFormula "edgeLength" rimLength

theorem evaluate_rimLength :
    rimLength.evaluate steepCone.parameterValues (some 7850)
      = .error (.failure (.missingVariables "rim" ["rim"])) := rfl

/-- Edges of unknown length may come and go, and a perimeter of unknown length may come. -/
theorem rimmedCone_estimate_stays :
    ∃ e, rimmedCone.estimateAt {} {} = .ok e
      ∧ (rimmedCone.without (· == "edgeLength")).estimateAt {} {} = .ok e
      ∧ (rimmedCone.withFormula "perimeter" rimLength).estimateAt {} {} = .ok e := by
  have hnone : ∀ r, rimLength.evaluate steepCone.parameterValues (some 7850) ≠ .ok r := by
    rw [evaluate_rimLength]
    nofun
  have hruns : ¬ Aborts (rimLength.evaluate steepCone.parameterValues (some 7850)) := by
    rw [evaluate_rimLength]
    exact not_aborts_failure _
  have hcone : rimmedCone.estimateAt {} {} = .ok (steepCone.assemble {} {} 7850 steepFindings) :=
    ((estimateAt_failing_absent estimateAt_steepCone).2 "edgeLength" rimLength (by decide)
      (by decide) (by decide) hnone).1.2 hruns
  obtain ⟨hremove, hadd⟩ := estimateAt_failing_absent hcone
  refine ⟨_, hcone, hremove _ ?_ (by decide), ?_⟩
  · intro name hname
    rw [beq_iff_eq] at hname
    subst hname
    exact ⟨rimLength, _, rfl, evaluate_rimLength⟩
  · exact (hadd "perimeter" rimLength (by decide) (by decide) (by decide) hnone).1.2 hruns

/-- A perimeter that is aborted has no value either, and it may not come: the steep cone has an
estimate without it and none with it. -/
theorem unsettledPerimeter_not_absent :
    (∃ e, steepCone.estimateAt {} {} = .ok e)
      ∧ steepCone.shape.formulas.contains "perimeter" = false
      ∧ (∀ r, Formula.unsettledLength.evaluate steepCone.parameterValues (some 7850) ≠ .ok r)
      ∧ ∀ e, (steepCone.withFormula "perimeter" Formula.unsettledLength).estimateAt {} {}
        ≠ .ok e := by
  have haborts : Aborts (Formula.unsettledLength.evaluate steepCone.parameterValues
      (some (steepCone.resolvedDensity {}))) := ⟨_, Formula.evaluate_unsettledLength _ _⟩
  refine ⟨⟨_, estimateAt_steepCone⟩, by decide, ?_, fun e he => ?_⟩
  · rw [Formula.evaluate_unsettledLength]
    nofun
  · have hstops : Aborts ((steepCone.withFormula "perimeter" Formula.unsettledLength).estimateAt
        {} {}) := aborts_estimateAt_withFormula steepCone_computable haborts
    rw [he] at hstops
    exact not_aborts_ok e hstops

end EstimateInput

end ShapeEstimator
