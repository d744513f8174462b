/-
  ShapeEstimator.Proofs.Catalog.Authoring
  ────────────────────────────────
  **WHAT THE CHECK OF FORMULAS PROMISES.**

  The check compares, for each formula of a shape, the variables it uses with those it
  declares, and those it declares with the parameters.  Where it finds no gap,

      used ⊆ declared ⊆ parameters ∪ {density}

  So once every parameter has a value and the density is known, no formula can fail for
  want of a value or of an expression: what can still fail is the arithmetic.
-/
import ShapeEstimator.Catalog.Consistency
import ShapeEstimator.Proofs.Formula.Variables

namespace ShapeEstimator

open Formula (BindingFailure Compiled Definition EvaluationResult)

/-! ## §1. Findings that leave a gap. -/

/-- Whether a finding says that a formula cannot be computed from the parameters: it cannot be read,
or it uses or declares what nothing provides. -/
def ConsistencyIssue.isGap : ConsistencyIssue → Bool
  | .malformed _ _ | .undeclaredVariable _ _ | .unknownParameter _ _ => true
  | .unusedVariable _ _ | .unknownFormulaReference _ _ | .unlistedUsage _ _ => false

namespace Shape

/-- The check of a shape finds no gap; it may find unused variables and lists that are out of
date. -/
def NoGap (s : Shape) : Prop := ∀ issue ∈ s.consistencyIssues, issue.isGap = false

instance (s : Shape) : Decidable s.NoGap :=
  inferInstanceAs (Decidable (∀ issue ∈ s.consistencyIssues, issue.isGap = false))

/-- A formula of a shape, plain or in a composite entry. -/
def HasFormula (s : Shape) (f : Definition) : Prop :=
  ∃ name entry sub, s.formulas.get? name = some entry ∧ (sub, f) ∈ entry.subFormulas

variable {s : Shape} {f : Definition}

theorem HasFormula.labelled (h : s.HasFormula f) : ∃ l ∈ s.labelledFormulas, l.formula = f := by
  obtain ⟨name, entry, sub, hentry, hsub⟩ := h
  unfold labelledFormulas
  refine ⟨⟨name, if sub.isEmpty then name else name ++ "." ++ sub, f⟩, ?_, rfl⟩
  rw [List.mem_flatMap]
  exact ⟨(name, entry), NameMap.mem_entries_iff.2 hentry,
    List.mem_map.2 ⟨(sub, f), hsub, rfl⟩⟩

/-! ## §2. Formulas without a gap. -/

/-- A formula computes from the parameters of a shape and the density. -/
structure Provides (s : Shape) (f : Definition) : Prop where
  /-- It can be read, and declares all variables that it uses. -/
  reads : ∃ c, Compiled.ofSource f.expression = .ok c ∧ ∀ name ∈ c.freeVariables, name ∈ f.declared
  /-- What it declares is the density or a parameter. -/
  declares : ∀ name ∈ f.declared, name = Formula.densityVariable ∨ ∃ p ∈ s.parameters, p.name = name

theorem hasParameter_iff {name : String} :
    s.hasParameter name = true ↔ ∃ p ∈ s.parameters, p.name = name := by
  unfold hasParameter parameter?
  rw [List.find?_isSome]
  simp only [beq_iff_eq]

/-- What the comparison of variables says when it is made. -/
theorem checkVariables_eq_ok {check : Formula.VariableCheck} (h : f.checkVariables = .ok check) :
    ∃ c, Compiled.ofSource f.expression = .ok c
      ∧ check.undeclared = c.freeVariables.filter (· ∉ f.declared)
      ∧ check.unused = f.declared.filter (· ∉ c.freeVariables) := by
  unfold Definition.checkVariables Formula.extractVariables at h
  obtain ⟨used, hused, h⟩ := Formula.bind_eq_ok.1 h
  split at hused
  · rename_i c hc
    cases hused
    cases h
    exact ⟨c, hc, rfl, rfl⟩
  · exact nomatch hused

theorem provides_of_formulaIssues {l : LabelledFormula}
    (h : ∀ issue ∈ s.formulaIssues l, issue.isGap = false) : s.Provides l.formula := by
  unfold formulaIssues at h
  split at h
  · -- a formula that cannot be read is found
    exact nomatch h _ List.mem_cons_self
  · rename_i check hcheck
    obtain ⟨c, hc, hundeclared, _⟩ := checkVariables_eq_ok hcheck
    constructor
    · refine ⟨c, hc, fun name hname => ?_⟩
      by_cases hdeclared : name ∈ l.formula.declared
      · exact hdeclared
      · have hmem : name ∈ check.undeclared := by
          rw [hundeclared]
          exact List.mem_filter.2 ⟨hname, by simpa using hdeclared⟩
        exact nomatch h (.undeclaredVariable l.label name)
          (List.mem_append_left _ (List.mem_append_left _ (List.mem_map_of_mem hmem)))
    · intro name hname
      by_cases hdensity : name = Formula.densityVariable
      · exact Or.inl hdensity
      · by_cases hparameter : s.hasParameter name = true
        · exact Or.inr (hasParameter_iff.1 hparameter)
        · have hmem : name ∈ (declaredParameters l.formula).filter fun v => !s.hasParameter v := by
            unfold declaredParameters
            simp [hname, hdensity, hparameter]
          exact nomatch h (.unknownParameter l.label name)
            (List.mem_append_right _ (List.mem_map_of_mem hmem))

/-- Where the check finds no gap, every formula computes from parameters and density. -/
theorem NoGap.provides (h : s.NoGap) (hf : s.HasFormula f) : s.Provides f := by
  obtain ⟨l, hl, rfl⟩ := hf.labelled
  apply provides_of_formulaIssues
  intro issue hissue
  apply h
  unfold consistencyIssues
  exact List.mem_append_left _ (List.mem_flatMap.2 ⟨l, hl, hissue⟩)

/-! ## §3. Evaluation. -/

section Evaluation

variable {context : NameMap Float} {d : Float}

/-- With every parameter and the density bound, what a formula declares is bound. -/
theorem Provides.bound (h : s.Provides f)
    (hcontext : ∀ p ∈ s.parameters, context.contains p.name = true) {name : String}
    (hname : name ∈ f.declared) : (Formula.resolve context (some d) name).isSome = true := by
  unfold Formula.resolve
  by_cases hdensity : name = Formula.densityVariable
  · rw [if_pos hdensity]
    rfl
  · rw [if_neg hdensity]
    obtain ⟨p, hp, rfl⟩ := (h.declares name hname).resolve_left hdensity
    exact hcontext p hp

theorem Provides.missing_eq_nil (h : s.Provides f)
    (hcontext : ∀ p ∈ s.parameters, context.contains p.name = true) :
    f.missing (Formula.resolve context (some d)) = [] := by
  have hunbound : (f.declared.filter fun name =>
      (Formula.resolve context (some d) name).isNone) = [] := by
    rw [List.filter_eq_nil_iff]
    intro name hname
    rw [Bool.not_eq_true, Option.isNone_eq_false_iff]
    exact h.bound hcontext hname
  -- a density is given, so it is not missing whether required or not
  have hdensity : (Formula.resolve context (some d) Formula.densityVariable).isNone = false := rfl
  unfold Definition.missing
  simp only [hunbound, hdensity]
  simp

/-- **What the check of formulas promises.**  Where it finds no gap in a shape, and a context has a
value for each parameter, every formula of the shape has a result at any density, or it fails
because a bound value is no decimal or for arithmetic reasons, or it is aborted by a square root. -/
theorem evaluate_of_noGap (h : s.NoGap) (hf : s.HasFormula f)
    (hcontext : ∀ p ∈ s.parameters, context.contains p.name = true) (d : Float) :
    (∃ r, f.evaluate context (some d) = .ok r)
      ∨ (∃ failure : BindingFailure, failure.FromValues (Formula.resolve context (some d))
        ∧ f.outcome (Formula.resolve context (some d)) = .error (.failure (.noValue failure))
        ∧ f.evaluate context (some d)
          = .error (.failure (.evaluation f.expression failure.message)))
      ∨ f.evaluate context (some d) = .error (.abort .unsettledRoot) := by
  have hprovides := h.provides hf
  obtain ⟨c, hc, hused⟩ := hprovides.reads
  have hmissing : f.missing (Formula.resolve context (some d)) = [] :=
    hprovides.missing_eq_nil hcontext
  cases hvalue : c.evaluate (Formula.resolve context (some d)) with
  | ok v =>
    have hresult : ∃ r, f.outcome (Formula.resolve context (some d)) = .ok r := by
      simp only [Definition.outcome, hmissing, hc, hvalue]
      exact ⟨_, rfl⟩
    obtain ⟨r, hr⟩ := hresult
    refine Or.inl ⟨r, ?_⟩
    unfold Definition.evaluate
    rw [hr]
  | error stop =>
    have hstops : f.outcome (Formula.resolve context (some d)) = .error (stop.map .noValue) := by
      simp only [Definition.outcome, hmissing, hc, hvalue]
    have hbound : ∀ name ∈ c.freeVariables,
        (Formula.resolve context (some d) name).isSome = true :=
      fun name hname => hprovides.bound hcontext (hused name hname)
    unfold Definition.evaluate
    rcases Compiled.fromValues_of_evaluate hc hbound hvalue with ⟨failure, hfailure, rfl⟩ | rfl
    · rw [hstops]
      exact Or.inr (Or.inl ⟨failure, hfailure, rfl, rfl⟩)
    · rw [hstops]
      exact Or.inr (Or.inr rfl)

end Evaluation

/-- The weight of a cube from its side and the density. -/
def cubeWeight : Definition :=
  { expression := "a*density", declared := ["a", "density"], unit := "kg", requiresDensity := true }

/-- A cube whose weight is reported, with a parameter for its side. -/
def cube : Shape :=
  ((Shape.new "cube" "Cube" .rectangularPlate).withParameter
    ((Parameter.numeric "a" "Side" "mm").usedIn ["weight"])).withFormula "weight" cubeWeight

/-- The check finds no gap in the cube, and at a side of two its weight has a result. -/
theorem cube_weight : cube.NoGap
    ∧ ((∃ r, cubeWeight.evaluate (.ofList [("a", 2)]) (some 7850) = .ok r)
      ∨ (∃ failure : BindingFailure,
        failure.FromValues (Formula.resolve (.ofList [("a", 2)]) (some 7850))
        ∧ cubeWeight.outcome (Formula.resolve (.ofList [("a", 2)]) (some 7850))
          = .error (.failure (.noValue failure))
        ∧ cubeWeight.evaluate (.ofList [("a", 2)]) (some 7850)
          = .error (.failure (.evaluation "a*density" failure.message)))
      ∨ cubeWeight.evaluate (.ofList [("a", 2)]) (some 7850)
        = .error (.abort .unsettledRoot)) := by
  have hgap : cube.NoGap := by decide +kernel
  refine ⟨hgap, evaluate_of_noGap hgap ⟨"weight", .formula cubeWeight, "", rfl, ?_⟩ ?_ 7850⟩
  · exact List.mem_cons_self
  · decide

end Shape

end ShapeEstimator
