/-
  ShapeEstimator.Formula.Expr
  ────────────────────────────────
  **EXPRESSION TREES.**

  What a formula's text means: numbers, constants and variables, joined by
  signs, operators and calls.  Parentheses leave no node.
-/
import ShapeEstimator.Decimal.Notation
import ShapeEstimator.Formula.Symbol

namespace ShapeEstimator.Formula

/-! ## §1. Trees. -/

/-- An expression. -/
inductive Expr where
  /-- A number with the places it was written with. -/
  | number (value : Decimal)
  /-- A reserved constant. -/
  | constant (c : Constant)
  /-- A variable. -/
  | variable (name : String)
  /-- A sign and its operand. -/
  | unary (sign : Sign) (operand : Expr)
  /-- An operator between two operands. -/
  | binary (op : Operator) (left right : Expr)
  /-- A call of a function. -/
  | call (f : Function) (arguments : List Expr)
  deriving Repr

namespace Expr

/-! ## §2. Variables. -/

/-- Adds a name behind others, if it is not among them. -/
def addName (found : List String) (name : String) : List String :=
  if name ∈ found then found else found ++ [name]

mutual

/-- Adds the variables of an expression, from left to right, behind those already found. -/
def addVariables (found : List String) : Expr → List String
  | .number _ => found
  | .constant _ => found
  | .variable name => addName found name
  | .unary _ operand => operand.addVariables found
  | .binary _ left right => right.addVariables (left.addVariables found)
  | .call _ arguments => addVariablesOfAll found arguments

/-- Adds the variables of a list of expressions. -/
def addVariablesOfAll (found : List String) : List Expr → List String
  | [] => found
  | x :: xs => addVariablesOfAll (x.addVariables found) xs

end

/-- The variables of an expression in the order of their first occurrence, each once. -/
def freeVariables (x : Expr) : List String := x.addVariables []

/-! ## §3. Height. -/

mutual

/-- The greatest number of signs, operators and calls on a path from the root to a leaf. -/
def height : Expr → Nat
  | .number _ | .constant _ | .variable _ => 0
  | .unary _ operand => operand.height + 1
  | .binary _ left right => max left.height right.height + 1
  | .call _ arguments => heightOfAll arguments + 1

/-- The greatest height in a list of expressions. -/
def heightOfAll : List Expr → Nat
  | [] => 0
  | x :: xs => max x.height (heightOfAll xs)

end

/-! ## §4. Text. -/

mutual

/-- The tree in parenthesised form, the operator first: `(+ $x (neg 2.50))`. -/
def text : Expr → String
  | .number value => value.text
  | .constant c => "#" ++ c.name
  | .variable name => "$" ++ name
  | .unary sign operand => "(" ++ sign.name ++ " " ++ operand.text ++ ")"
  | .binary op left right =>
    "(" ++ String.singleton op.symbol ++ " " ++ left.text ++ " " ++ right.text ++ ")"
  | .call f arguments => "(" ++ f.name ++ textOfAll arguments ++ ")"

/-- The trees of a list, each with a blank before it. -/
def textOfAll : List Expr → String
  | [] => ""
  | x :: xs => " " ++ x.text ++ textOfAll xs

end

end Expr

end ShapeEstimator.Formula
