/-
  ShapeEstimator.Formula.Outcomes
  ────────────────────────────────
  **MANY FORMULAS IN ONE CONTEXT.**

  Each formula stands alone: one that fails is listed with its fault, and the
  others are not affected.  Of several formulas with one name, the last that
  succeeds and the last that fails are kept.  A formula that is aborted is not
  listed: it takes the others with it.
-/
import ShapeEstimator.Formula.Evaluation

namespace ShapeEstimator.Formula

/-- Results and faults by name. -/
structure Outcomes where
  /-- The formulas that have a result. -/
  results : NameMap EvaluationResult
  /-- The formulas that have none. -/
  failures : NameMap Fault

namespace Outcomes

/-- No outcome. -/
def empty : Outcomes := ⟨.empty, .empty⟩

/-- Adds the outcome of a formula under a name. -/
def add (o : Outcomes) (name : String) : Except Fault EvaluationResult → Outcomes
  | .ok result => { o with results := o.results.insert name result }
  | .error fault => { o with failures := o.failures.insert name fault }

/-- The value of a formula that has a result. -/
def value? (o : Outcomes) (name : String) : Option Float := (o.results.get? name).map (·.result)

/-- The outcomes with that of one more formula, whose failure is caught. -/
def addFormula (context : NameMap Float) (density : Option Float) (o : Outcomes)
    (f : String × Definition) : Except Abort Outcomes :=
  (caught (f.2.evaluate context density)).map (o.add f.1)

/-- The outcomes of named formulas in one context, one formula after the other. -/
def ofFormulas (formulas : List (String × Definition)) (context : NameMap Float)
    (density : Option Float) : Except Abort Outcomes :=
  formulas.foldlM (addFormula context density) empty

/-- The outcomes of the formulas of a map. -/
def ofMap (formulas : NameMap Definition) (context : NameMap Float) (density : Option Float) :
    Except Abort Outcomes :=
  ofFormulas formulas.entries context density

/-- The results of the formulas of a map, without the faults. -/
def resultsOfMap (formulas : NameMap Definition) (context : NameMap Float)
    (density : Option Float) : Except Abort (NameMap EvaluationResult) :=
  (ofMap formulas context density).map (·.results)

end Outcomes

end ShapeEstimator.Formula
