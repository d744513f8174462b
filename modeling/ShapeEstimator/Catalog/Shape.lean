/-
  ShapeEstimator.Catalog.Shape
  ────────────────────────────────
  **SHAPES.**

  A shape has parameters, formulas by name, the materials it may be made of, and
  rules that its dimensions should obey.  Domains and rules are advice: what they
  find is reported beside the estimate.
-/
import ShapeEstimator.Catalog.Category
import ShapeEstimator.Catalog.Entry
import ShapeEstimator.Catalog.Identifier
import ShapeEstimator.Catalog.Material
import ShapeEstimator.Catalog.Parameter
import ShapeEstimator.Pricing.Overrides

namespace ShapeEstimator

/-! ## §1. Shapes. -/

/-- A rule: the expression should be positive. -/
structure ValidationRule where
  /-- The name of the rule. -/
  name : String
  /-- The expression. -/
  expression : String
  /-- What to say when the rule is broken. -/
  message : String
  deriving DecidableEq, Repr

/-- The definition of a shape. -/
structure Shape where
  /-- The key in the catalog. -/
  key : String
  /-- The name for people. -/
  name : String
  /-- What the shape is. -/
  description : String := ""
  /-- The kind of shape. -/
  category : Category
  /-- The identifier, stamped by the catalog. -/
  id : Option Identifier := none
  /-- The code for people, stamped by the catalog. -/
  code : Option String := none
  /-- The parameters. -/
  parameters : List Parameter := []
  /-- The formulas by name. -/
  formulas : NameMap FormulaEntry := .empty
  /-- The families of materials it may be made of; none means all. -/
  allowedMaterials : List MaterialCategory := []
  /-- The rates it gives. -/
  fabricationCost : Option RateOverrides := none
  /-- The rules for its dimensions. -/
  validationRules : List ValidationRule := []
  deriving DecidableEq, Repr

namespace Shape

/-! ## §2. Building. -/

/-- A shape without parameters and formulas. -/
def new (key name : String) (category : Category) : Shape := { key, name, category }

/-- The shape with a description. -/
def withDescription (s : Shape) (description : String) : Shape := { s with description }

/-- The shape with one more parameter. -/
def withParameter (s : Shape) (p : Parameter) : Shape :=
  { s with parameters := s.parameters ++ [p] }

/-- The shape with an entry under a name. -/
def withEntry (s : Shape) (name : String) (e : FormulaEntry) : Shape :=
  { s with formulas := s.formulas.insert name e }

/-- The shape with a formula under a name. -/
def withFormula (s : Shape) (name : String) (f : Formula.Definition) : Shape :=
  s.withEntry name (.formula f)

/-- The shape with the dimensions of its blank under a name. -/
def withBlank (s : Shape) (name : String) (spec : BlankSpec) : Shape :=
  s.withEntry name (.blankDimensions spec)

/-- The shape with formulas for reports under a name. -/
def withCustomFormulas (s : Shape) (name : String) (formulas : List NamedFormula) : Shape :=
  s.withEntry name (.customFormulas formulas)

/-- The shape with the families of materials it may be made of. -/
def withMaterials (s : Shape) (categories : List MaterialCategory) : Shape :=
  { s with allowedMaterials := categories }

/-- The shape with rates of its own. -/
def withFabricationCost (s : Shape) (rates : RateOverrides) : Shape :=
  { s with fabricationCost := some rates }

/-- The shape with one more rule. -/
def withRule (s : Shape) (name expression message : String) : Shape :=
  { s with validationRules := s.validationRules ++ [{ name, expression, message }] }

/-! ## §3. Parts. -/

/-- The first parameter of a name. -/
def parameter? (s : Shape) (name : String) : Option Parameter :=
  s.parameters.find? fun p => p.name == name

/-- The names that stand for one formula, with the formula. -/
def plainFormulas (s : Shape) : List (String × Formula.Definition) :=
  s.formulas.entries.filterMap fun e => e.2.formula?.map fun f => (e.1, f)

/-- The names that stand for several formulas, with their entries. -/
def compositeEntries (s : Shape) : List (String × FormulaEntry) :=
  s.formulas.entries.filter fun e => e.2.isComposite

/-- Whether a name stands for one formula. -/
def definesFormula (s : Shape) (name : String) : Bool :=
  ((s.formulas.get? name).bind FormulaEntry.formula?).isSome

/-- The default values of the parameters that have one. -/
def defaultValues (s : Shape) : NameMap Float :=
  NameMap.ofList (s.parameters.filterMap fun p => p.domain.default?.map fun v => (p.name, v))

/-- Whether the shape may be made of a material. -/
def allowsMaterial (s : Shape) (m : Material) : Bool :=
  s.allowedMaterials.isEmpty || decide (m.category ∈ s.allowedMaterials)

/-! ## §4. Advice. -/

/-- What is wrong with the given value of a parameter, or with its absence. -/
def parameterIssue? (values : NameMap Float) (p : Parameter) : Option ParameterIssue :=
  match values.get? p.name with
  | some value => p.checkValue value
  | none => if p.required then some (.missingRequired p.name) else none

/-- What is wrong with the given values, parameter by parameter. -/
def parameterIssues (s : Shape) (values : NameMap Float) : List ParameterIssue :=
  s.parameters.filterMap (parameterIssue? values)

/-- Whether a rule has a value that is not positive.  A rule without a value is not broken. -/
def breaksRule (values : NameMap Float) (r : ValidationRule) : Except Abort Bool :=
  match Formula.Compiled.ofSource r.expression with
  | .error _ => .ok false
  | .ok compiled =>
    match caught (compiled.evaluate values.get?) with
    | .error abort => .error abort
    | .ok (.error _) => .ok false
    | .ok (.ok value) => .ok (decide (value ≤ 0))

/-- Messages with that of one more rule, if the given values break it. -/
def addViolation (values : NameMap Float) (found : List String) (r : ValidationRule) :
    Except Abort (List String) :=
  (breaksRule values r).map fun broken => if broken then found ++ [r.message] else found

/-- The messages of the rules that the given values break, one rule after the other. -/
def ruleViolations (s : Shape) (values : NameMap Float) : Except Abort (List String) :=
  s.validationRules.foldlM (addViolation values) []

end Shape

end ShapeEstimator
