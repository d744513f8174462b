/-
  ShapeEstimator.Formula.Value
  ────────────────────────────────
  **VALUES OF EXPRESSIONS.**

  An expression is evaluated in decimals, operands from left to right.  What can
  go wrong is a typed cause: a variable without a value, a division by zero, a
  number out of range, or an argument outside the domain of a function.  A square
  root whose approximations do not come to rest, and a call without an argument that
  its function reads, are no such causes: they abort.
-/
import ShapeEstimator.Decimal.Angle
import ShapeEstimator.Decimal.Exponential
import ShapeEstimator.Decimal.Remainder
import ShapeEstimator.Decimal.Root
import ShapeEstimator.Formula.Expr
import ShapeEstimator.Stop

namespace ShapeEstimator.Formula

/-! ## §1. Causes of failure. -/

/-- Why a function has no value for its arguments. -/
inductive DomainFault where
  /-- A square root of a negative number. -/
  | negativeRoot
  /-- A logarithm of zero or of a negative number. -/
  | nonPositiveLogarithm
  /-- A power of a negative number whose exponent is not an integer. -/
  | fractionalPower
  /-- A tangent where there is none. -/
  | undefinedAngle
  /-- An angle of a number that is no sine or cosine. -/
  | outsideDomain
  /-- An argument that is too big or too small to compute with. -/
  | valueOutOfRange
  /-- A result that is no decimal. -/
  | resultOutOfRange
  deriving DecidableEq, Repr

/-- The wording of a domain fault. -/
def DomainFault.message : DomainFault → String
  | .negativeRoot => "square root of a negative number"
  | .nonPositiveLogarithm => "logarithm of a non-positive number"
  | .fractionalPower => "fractional power of a negative number"
  | .undefinedAngle => "undefined at this angle"
  | .outsideDomain => "argument outside the function domain"
  | .valueOutOfRange => "value out of range"
  | .resultOutOfRange => "result out of range"

/-- Why an expression has no value. -/
inductive EvalFailure where
  /-- A variable has no value. -/
  | unknownVariable (name : String)
  /-- A divisor is zero. -/
  | divisionByZero
  /-- A result of an operator is out of range. -/
  | overflow (op : Operator)
  /-- A function has no value here. -/
  | domain (f : Function) (fault : DomainFault)
  deriving DecidableEq, Repr

/-- The wording of a failure. -/
def EvalFailure.message : EvalFailure → String
  | .unknownVariable name => "variable '" ++ name ++ "' has no value"
  | .divisionByZero => "division by zero"
  | .overflow op => "arithmetic overflow in '" ++ String.singleton op.symbol ++ "'"
  | .domain f fault => f.name ++ ": " ++ fault.message

/-- The value of an operation, or why it stops short. -/
abbrev Outcome : Type := Except (Stop EvalFailure) Decimal

/-- A result that is absent only when it is out of range of the operator. -/
def orOverflow (op : Operator) (x : Option Decimal) : Outcome :=
  match x with
  | some x => .ok x
  | none => .error (.failure (.overflow op))

/-- A result that is absent only when the argument is outside the domain. -/
def orDomain (f : Function) (fault : DomainFault) (x : Option Decimal) : Outcome :=
  match x with
  | some x => .ok x
  | none => .error (.failure (.domain f fault))

/-! ## §2. Powers. -/

/-- Whether a power goes toward zero as its exponent grows in size. -/
def shrinks (base exponent : Decimal) : Bool :=
  if exponent.negative then Decimal.one.lt base.abs else base.abs.lt Decimal.one

/-- A power that could not be computed: zero where it shrinks, and out of range otherwise. -/
def powerOutOfRange (base exponent : Decimal) : Outcome :=
  if shrinks base exponent then .ok Decimal.zero else .error (.failure (.overflow .pow))

/-- The power `base ^ exponent`. -/
def raise (base exponent : Decimal) : Outcome :=
  if !exponent.hasFraction then
    if base.isZero && exponent.negative && !exponent.isZero then .error (.failure .divisionByZero)
    else
      match exponent.toInt64?.bind base.powInt with
      | some value => .ok value
      | none => powerOutOfRange base exponent
  else if base.negative && !base.isZero then .error (.failure (.domain .pow .fractionalPower))
  else if base.isZero then
    if exponent.negative then .error (.failure .divisionByZero) else .ok Decimal.zero
  else
    match base.powDecimal exponent with
    | some value => .ok value
    | none => powerOutOfRange base exponent

/-! ## §3. Operators. -/

/-- The value of an operator between two numbers. -/
def applyOperator (op : Operator) (x y : Decimal) : Outcome :=
  match op with
  | .add => orOverflow .add (x.add y)
  | .sub => orOverflow .sub (x.sub y)
  | .mul => orOverflow .mul (x.mul y)
  | .div => if y.isZero then .error (.failure .divisionByZero) else orOverflow .div (x.div y)
  | .rem => if y.isZero then .error (.failure .divisionByZero) else orOverflow .rem (x.rem y)
  | .pow => raise x y

/-- The value of a sign before a number. -/
def applySign : Sign → Decimal → Decimal
  | .negative, x => x.neg
  | .positive, x => x

/-! ## §4. Functions. -/

/-- The functions of doubles that are not computed in decimal. -/
structure DoubleFunctions where
  /-- The inverse sine. -/
  asin : Float → Float
  /-- The inverse cosine. -/
  acos : Float → Float
  /-- The inverse tangent. -/
  atan : Float → Float
  /-- The angle of a point from its ordinate and its abscissa. -/
  atan2 : Float → Float → Float

/-- The functions that the system provides. -/
def DoubleFunctions.system : DoubleFunctions where
  asin := Float.asin
  acos := Float.acos
  atan := Float.atan
  atan2 := Float.atan2

/-- A function of doubles, applied to a decimal. -/
def throughDouble (f : Function) (g : Float → Float) (x : Decimal) : Outcome :=
  let y := g x.lower
  if y.isFinite then orDomain f .resultOutOfRange (Decimal.lift? y)
  else .error (.failure (.domain f .outsideDomain))

/-- The natural logarithm, for the function it is computed for. -/
def naturalLog (f : Function) (x : Decimal) : Outcome :=
  if x.le Decimal.zero then .error (.failure (.domain f .nonPositiveLogarithm))
  else orDomain f .valueOutOfRange x.ln

/-- The logarithm to a given base. -/
def logToBase (x base : Decimal) : Outcome := do
  let above ← naturalLog .log x
  let below ← naturalLog .log base
  if below.isZero then .error (.failure .divisionByZero) else orOverflow .div (above.div below)

/-- The square root. -/
def squareRoot (x : Decimal) : Outcome :=
  match x.sqrt with
  | .ok y => .ok y
  | .error .negative => .error (.failure (.domain .sqrt .negativeRoot))
  | .error .unsettled => .error (.abort .unsettledRoot)

/-- The cube root. -/
def cubeRoot (x : Decimal) : Outcome :=
  match x.cbrt with
  | .ok y => .ok y
  | .error .noApproximation => .error (.failure (.domain .cbrt .valueOutOfRange))
  | .error .squareTooBig => .error (.failure (.overflow .pow))

/-- The value of a function at its first argument and the ones that follow. -/
def applyTo (lib : DoubleFunctions) (f : Function) (x : Decimal) (more : List Decimal) : Outcome :=
  match f with
  | .sqrt => squareRoot x
  | .cbrt => cubeRoot x
  | .abs => .ok x.abs
  | .sin => orDomain .sin .valueOutOfRange x.sin
  | .cos => orDomain .cos .valueOutOfRange x.cos
  | .tan => orDomain .tan .undefinedAngle x.tan
  | .asin => throughDouble .asin lib.asin x
  | .acos => throughDouble .acos lib.acos x
  | .atan => throughDouble .atan lib.atan x
  | .atan2 =>
    match more with
    | [] => .error (.abort .missingArgument)
    | y :: _ => throughDouble .atan2 (fun ordinate => lib.atan2 ordinate y.lower) x
  | .exp =>
    match x.exp with
    | some value => .ok value
    | none => powerOutOfRange Decimal.e x
  | .ln => naturalLog .ln x
  | .log =>
    match more with
    | [] => naturalLog .log x
    | base :: _ => logToBase x base
  | .log10 =>
    if x.le Decimal.zero then .error (.failure (.domain .log10 .nonPositiveLogarithm))
    else orDomain .log10 .valueOutOfRange x.log10
  | .pow =>
    match more with
    | [] => .error (.abort .missingArgument)
    | exponent :: _ => raise x exponent
  | .min => .ok (more.foldl Decimal.min x)
  | .max => .ok (more.foldl Decimal.max x)
  | .floor => .ok x.floor
  | .ceil => .ok x.ceil
  | .round => .ok x.round
  | .deg2rad =>
    orOverflow .mul ((x.mul Decimal.pi).bind fun y => y.div Decimal.halfTurnDegrees)
  | .rad2deg =>
    orOverflow .mul ((x.mul Decimal.halfTurnDegrees).bind fun y => y.div Decimal.pi)

/-- The value of a function at a list of arguments. -/
def applyFunction (lib : DoubleFunctions) (f : Function) : List Decimal → Outcome
  | [] => .error (.abort .missingArgument)
  | x :: more => applyTo lib f x more

/-! ## §5. Expressions. -/

/-- The values of variables. -/
abbrev Scope : Type := String → Option Decimal

namespace Expr

mutual

/-- The value of an expression with given functions of doubles. -/
def evaluateWith (lib : DoubleFunctions) (scope : Scope) : Expr → Outcome
  | .number value => .ok value
  | .constant c => .ok c.value
  | .variable name =>
    match scope name with
    | some value => .ok value
    | none => .error (.failure (.unknownVariable name))
  | .unary sign operand => do
    let x ← operand.evaluateWith lib scope
    return applySign sign x
  | .binary op left right => do
    let x ← left.evaluateWith lib scope
    let y ← right.evaluateWith lib scope
    applyOperator op x y
  | .call f arguments => do
    let xs ← evaluateAllWith lib scope arguments
    applyFunction lib f xs

/-- The values of a list of expressions, up to the first that has none. -/
def evaluateAllWith (lib : DoubleFunctions) (scope : Scope) :
    List Expr → Except (Stop EvalFailure) (List Decimal)
  | [] => .ok []
  | x :: xs => do
    let y ← x.evaluateWith lib scope
    let ys ← evaluateAllWith lib scope xs
    return y :: ys

end

/-- The value of an expression. -/
def evaluate (scope : Scope) (x : Expr) : Outcome := x.evaluateWith .system scope

end Expr

end ShapeEstimator.Formula
