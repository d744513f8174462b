/-
  ShapeEstimator.Formula.Evaluation
  ────────────────────────────────
  **EVALUATING A FORMULA.**

  The declared variables are looked up before the expression is read, so a
  formula with an incomplete context names all that is missing and nothing else:

      missing variables  ≺  malformed expression  ≺  no value

  A given density takes the place of a context entry named `density`.
-/
import ShapeEstimator.Fault
import ShapeEstimator.Formula.Compiled
import ShapeEstimator.Formula.Definition

namespace ShapeEstimator

/-- The fault of a malformed expression. -/
def Formula.SyntaxFault.toFault (f : Formula.SyntaxFault) (expression : String) : Fault :=
  .malformedExpression expression f.position f.cause.message

/-- The fault of an expression without a value. -/
def Formula.BindingFailure.toFault (f : Formula.BindingFailure) (expression : String) : Fault :=
  .evaluation expression f.message

namespace Formula

/-! ## §1. Outcomes. -/

/-- Why a formula has no result. -/
inductive Failure where
  /-- Declared variables, or the density, have no value. -/
  | missingVariables (names : List String)
  /-- The expression cannot be read. -/
  | malformed (fault : SyntaxFault)
  /-- The expression has no value. -/
  | noValue (failure : BindingFailure)
  deriving Repr

/-- The fault of a formula with the given expression. -/
def Failure.toFault (f : Failure) (expression : String) : Fault :=
  match f with
  | .missingVariables names => .missingVariables expression names
  | .malformed fault => fault.toFault expression
  | .noValue failure => failure.toFault expression

/-! ## §2. Bindings. -/

/-- The values of a context, with a given density in place of the context's own. -/
def resolve (context : NameMap Float) (density : Option Float) : Bindings := fun name =>
  if name = densityVariable then density.or (context.get? name) else context.get? name

namespace Definition

/-- The declared variables without a value, and the density if it is required and has none. -/
def missing (f : Definition) (values : Bindings) : List String :=
  let unbound := f.declared.filter fun name => (values name).isNone
  if f.requiresDensity ∧ (values densityVariable).isNone ∧ densityVariable ∉ unbound then
    unbound ++ [densityVariable]
  else unbound

/-- The declared variables with their values. -/
def boundValues (f : Definition) (values : Bindings) : NameMap Float :=
  NameMap.ofList (f.declared.filterMap fun name => (values name).map fun v => (name, v))

/-! ## §3. Evaluation. -/

/-- The result for given bindings, or why there is none. -/
def outcome (f : Definition) (values : Bindings) : Except (Stop Failure) EvaluationResult :=
  match f.missing values with
  | [] =>
    match Compiled.ofSource f.expression with
    | .error fault => .error (.failure (.malformed fault))
    | .ok compiled =>
      match compiled.evaluate values with
      | .error stop => .error (stop.map .noValue)
      | .ok result =>
        .ok
          { result, unit := f.unit, expression := f.expression
            boundValues := f.boundValues values
            rangeWarning := f.rangeWarning? result }
  | names => .error (.failure (.missingVariables names))

/-- The result in a context, with the density of a material if there is one. -/
def evaluate (f : Definition) (context : NameMap Float) (density : Option Float) :
    Except (Stop Fault) EvaluationResult :=
  match f.outcome (resolve context density) with
  | .ok result => .ok result
  | .error stop => .error (stop.map fun failure => failure.toFault f.expression)

end Definition

/-! ## §4. Declared and used variables. -/

/-- The variables of an expression in the order of their first occurrence. -/
def extractVariables (source : String) : Except Fault (List String) :=
  match Compiled.ofSource source with
  | .ok compiled => .ok compiled.freeVariables
  | .error fault => .error (fault.toFault source)

/-- How the declared variables of a formula differ from the used ones. -/
structure VariableCheck where
  /-- Used and not declared. -/
  undeclared : List String
  /-- Declared and not used. -/
  unused : List String
  deriving Repr, DecidableEq

/-- Whether the declared variables are the used ones. -/
def VariableCheck.isConsistent (c : VariableCheck) : Bool :=
  c.undeclared.isEmpty && c.unused.isEmpty

/-- Compares the declared variables of a formula with the used ones. -/
def Definition.checkVariables (f : Definition) : Except Fault VariableCheck := do
  let used ← extractVariables f.expression
  return ⟨used.filter (· ∉ f.declared), f.declared.filter (· ∉ used)⟩

end Formula

end ShapeEstimator
