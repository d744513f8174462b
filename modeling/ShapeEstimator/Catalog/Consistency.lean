/-
  ShapeEstimator.Catalog.Consistency
  ────────────────────────────────
  **DO FORMULAS AND PARAMETERS FIT TOGETHER?**

  Each formula's declared variables are compared with those it uses and with the
  parameters of the shape; then the formulas that a parameter lists are compared
  with those that declare it.  A formula that cannot be read is reported and
  counts as using nothing.
-/
import ShapeEstimator.Catalog.Shape

namespace ShapeEstimator

/-! ## §1. Findings. -/

/-- Something that does not fit. -/
inductive ConsistencyIssue where
  /-- A formula cannot be read. -/
  | malformed (formula message : String)
  /-- A variable is used and not declared. -/
  | undeclaredVariable (formula name : String)
  /-- A variable is declared and not used. -/
  | unusedVariable (formula name : String)
  /-- A declared variable is no parameter. -/
  | unknownParameter (formula name : String)
  /-- A parameter lists a formula that there is not. -/
  | unknownFormulaReference (parameter formula : String)
  /-- A parameter lists formulas, but not this one that declares it. -/
  | unlistedUsage (parameter formula : String)
  deriving DecidableEq, Repr

/-- The finding in words. -/
def ConsistencyIssue.message : ConsistencyIssue → String
  | .malformed formula message => formula ++ ": " ++ message
  | .undeclaredVariable formula name =>
    formula ++ ": uses '" ++ name ++ "' without declaring it"
  | .unusedVariable formula name =>
    formula ++ ": declares '" ++ name ++ "' but never uses it"
  | .unknownParameter formula name =>
    formula ++ ": '" ++ name ++ "' is not a shape parameter"
  | .unknownFormulaReference parameter formula =>
    "parameter '" ++ parameter ++ "' lists unknown formula '" ++ formula ++ "'"
  | .unlistedUsage parameter formula =>
    "parameter '" ++ parameter ++ "' is used by '" ++ formula ++ "' but does not list it"

namespace Shape

/-! ## §2. Formulas. -/

/-- A formula of a shape: the name of its entry, its label in findings, and the formula itself. -/
structure LabelledFormula where
  /-- The name of the entry. -/
  entry : String
  /-- The name of the entry, and that of the formula in it behind a point. -/
  label : String
  /-- The formula. -/
  formula : Formula.Definition

/-- All formulas of a shape, those of composite entries included. -/
def labelledFormulas (s : Shape) : List LabelledFormula :=
  s.formulas.entries.flatMap fun (entry, e) =>
    e.subFormulas.map fun (sub, formula) =>
      { entry, label := if sub.isEmpty then entry else entry ++ "." ++ sub, formula }

/-- The declared variables of a formula other than the density. -/
def declaredParameters (f : Formula.Definition) : List String :=
  f.declared.filter (· ≠ Formula.densityVariable)

/-- Whether a name is that of a parameter. -/
def hasParameter (s : Shape) (name : String) : Bool := (s.parameter? name).isSome

/-- The findings about one formula. -/
def formulaIssues (s : Shape) (l : LabelledFormula) : List ConsistencyIssue :=
  match l.formula.checkVariables with
  | .error fault => [.malformed l.label fault.message]
  | .ok check =>
    check.undeclared.map (.undeclaredVariable l.label)
      ++ check.unused.map (.unusedVariable l.label)
      ++ ((declaredParameters l.formula).filter fun v => !s.hasParameter v).map
        (.unknownParameter l.label)

/-! ## §3. Usage. -/

/-- How often a readable formula declares a name. -/
def usesOf (name : String) (l : LabelledFormula) : List String :=
  match l.formula.checkVariables with
  | .error _ => []
  | .ok _ => ((declaredParameters l.formula).filter (· == name)).map fun _ => l.entry

/-- Neighbours that are equal are kept once. -/
def dropRepeats : List String → List String
  | [] => []
  | [x] => [x]
  | x :: y :: rest => if x = y then dropRepeats (y :: rest) else x :: dropRepeats (y :: rest)

/-- The entries with a readable formula that declares a name. -/
def usingEntries (s : Shape) (name : String) : List String :=
  dropRepeats (s.labelledFormulas.flatMap (usesOf name))

/-- The findings about the formulas that a parameter lists. -/
def usageIssues (s : Shape) (p : Parameter) : List ConsistencyIssue :=
  (p.usedInFormulas.filter fun f => !s.formulas.contains f).map (.unknownFormulaReference p.name)
    ++ if p.usedInFormulas.isEmpty then []
      else ((s.usingEntries p.name).filter (· ∉ p.usedInFormulas)).map (.unlistedUsage p.name)

/-- All findings about a shape. -/
def consistencyIssues (s : Shape) : List ConsistencyIssue :=
  s.labelledFormulas.flatMap s.formulaIssues ++ s.parameters.flatMap s.usageIssues

end Shape

end ShapeEstimator
