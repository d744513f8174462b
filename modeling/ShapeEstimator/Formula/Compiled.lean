/-
  ShapeEstimator.Formula.Compiled
  ────────────────────────────────
  **FORMULAS OVER DOUBLES.**

  An expression is read once and evaluated for many bindings.  Each binding is
  lifted into decimal, the expression is evaluated there, and the value lowered:

      evaluate values  =  lower (tree.evaluate (lift ∘ values))

  A variable whose double has no decimal is refused before anything is computed,
  the first such variable in the order of occurrence.
-/
import ShapeEstimator.Binary64.Notation
import ShapeEstimator.Formula.Parser
import ShapeEstimator.Formula.Value

namespace ShapeEstimator.Formula

/-! ## §1. Causes of failure. -/

/-- Why a compiled expression has no value. -/
inductive BindingFailure where
  /-- A variable is bound to an infinity or NaN. -/
  | notFinite (name : String) (value : Float)
  /-- A variable is bound to a double that is too big for a decimal. -/
  | outsideRange (name : String) (value : Float)
  /-- The expression has no value for the bindings. -/
  | noValue (failure : EvalFailure)
  deriving Repr

/-- The wording of a failure. -/
def BindingFailure.message : BindingFailure → String
  | .notFinite name value =>
    "variable '" ++ name ++ "' is not a finite number (" ++ Binary64.plainText value ++ ")"
  | .outsideRange name value =>
    "variable '" ++ name ++ "' = " ++ Binary64.plainText value ++ " is outside the decimal range"
  | .noValue failure => failure.message

/-! ## §2. Compiled expressions. -/

/-- An expression with the text it was read from. -/
structure Compiled where
  /-- The text. -/
  source : String
  /-- The tree. -/
  tree : Expr

/-- Bindings of variables to doubles. -/
abbrev Bindings : Type := String → Option Float

namespace Compiled

/-- Reads an expression. -/
def ofSource (source : String) : Except SyntaxFault Compiled := do
  let tree ← parse source
  return { source, tree }

/-- The variables in the order of their first occurrence. -/
def freeVariables (c : Compiled) : List String := c.tree.freeVariables

/-- What is wrong with the binding of a variable, if it has one. -/
def bindingFailure? (values : Bindings) (name : String) : Option BindingFailure :=
  match values name with
  | none => none
  | some value =>
    if !value.isFinite then some (.notFinite name value)
    else if (Decimal.lift? value).isNone then some (.outsideRange name value)
    else none

/-- The decimals that variables are bound to. -/
def scope (values : Bindings) : Scope := fun name => (values name).bind Decimal.lift?

/-- The value for the given bindings. -/
def evaluate (c : Compiled) (values : Bindings) : Except (Stop BindingFailure) Float :=
  match c.freeVariables.findSome? (bindingFailure? values) with
  | some failure => .error (.failure failure)
  | none =>
    match c.tree.evaluate (scope values) with
    | .ok value => .ok value.lower
    | .error stop => .error (stop.map .noValue)

end Compiled

end ShapeEstimator.Formula
