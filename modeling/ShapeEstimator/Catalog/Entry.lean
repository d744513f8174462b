/-
  ShapeEstimator.Catalog.Entry
  ────────────────────────────────
  **ENTRIES UNDER A SHAPE'S FORMULA NAMES.**

  Most names stand for one formula.  A composite entry holds several: the
  dimensions of the blank, or a group of formulas for reports.
-/
import ShapeEstimator.Formula.Outcomes

namespace ShapeEstimator

/-! ## §1. Entries. -/

/-- The outline of a blank. -/
inductive BlankShape where
  /-- A rectangle. -/
  | rectangular
  /-- A disc. -/
  | circular
  deriving DecidableEq, Repr

/-- The name of an outline in records. -/
def BlankShape.name : BlankShape → String
  | .rectangular => "rectangular"
  | .circular => "circular"

/-- The formulas for the dimensions of a blank. -/
structure BlankSpec where
  /-- The outline. -/
  blankShape : BlankShape
  /-- The dimensions by name. -/
  dimensions : NameMap Formula.Definition
  /-- What the blank is. -/
  description : String := ""
  deriving DecidableEq, Repr

/-- A formula with a name. -/
structure NamedFormula where
  /-- The name. -/
  name : String
  /-- The formula. -/
  formula : Formula.Definition
  deriving DecidableEq, Repr

/-- What stands under a formula name of a shape. -/
inductive FormulaEntry where
  /-- One formula. -/
  | formula (f : Formula.Definition)
  /-- The dimensions of the blank. -/
  | blankDimensions (spec : BlankSpec)
  /-- Formulas for reports. -/
  | customFormulas (formulas : List NamedFormula)
  deriving DecidableEq, Repr

namespace FormulaEntry

/-- The formula, if the entry is just one. -/
def formula? : FormulaEntry → Option Formula.Definition
  | .formula f => some f
  | _ => none

/-- Whether the entry holds several formulas. -/
def isComposite (e : FormulaEntry) : Bool := e.formula?.isNone

/-- The formulas of an entry with their names; a single formula has the empty name. -/
def subFormulas : FormulaEntry → List (String × Formula.Definition)
  | .formula f => [("", f)]
  | .blankDimensions spec => spec.dimensions.entries
  | .customFormulas formulas => formulas.map fun n => (n.name, n.formula)

/-- The outcomes of the formulas of an entry. -/
def outcomes (e : FormulaEntry) (context : NameMap Float) (density : Option Float) :
    Except Abort Formula.Outcomes :=
  Formula.Outcomes.ofFormulas e.subFormulas context density

end FormulaEntry

end ShapeEstimator
