/-
  ShapeEstimator.Formula.Symbol
  ────────────────────────────────
  **THE VOCABULARY OF FORMULAS.**

  Constants, signs, operators and functions, with the names that stand for them.
  A constant's name is reserved.  A function's name is a function only in front
  of a parenthesis.
-/
import ShapeEstimator.Decimal.Constant

namespace ShapeEstimator

/-! ## §1. Constants. -/

/-- A number with a name. -/
inductive Constant where
  /-- The number π. -/
  | pi
  /-- Euler's number. -/
  | e
  deriving DecidableEq, Repr

namespace Constant

/-- The constant that a name is reserved for. -/
def ofName? (name : String) : Option Constant :=
  if name = "pi" ∨ name = "PI" ∨ name = "π" then some .pi
  else if name = "e" ∨ name = "E" then some .e
  else none

/-- The name that a constant is shown with. -/
def name : Constant → String
  | .pi => "pi"
  | .e => "e"

/-- The value to 28 places. -/
def value : Constant → Decimal
  | .pi => Decimal.pi
  | .e => Decimal.e

end Constant

/-! ## §2. Signs and operators. -/

/-- A sign in front of an operand. -/
inductive Sign where
  /-- Minus: the operand with its sign turned. -/
  | negative
  /-- Plus: the operand itself. -/
  | positive
  deriving DecidableEq, Repr

/-- The short name of a sign. -/
def Sign.name : Sign → String
  | .negative => "neg"
  | .positive => "pos"

/-- An operator between two operands. -/
inductive Operator where
  /-- Sum. -/
  | add
  /-- Difference. -/
  | sub
  /-- Product. -/
  | mul
  /-- Quotient. -/
  | div
  /-- Remainder. -/
  | rem
  /-- Power. -/
  | pow
  deriving DecidableEq, Repr

/-- The character that stands for an operator. -/
def Operator.symbol : Operator → Char
  | .add => '+'
  | .sub => '-'
  | .mul => '*'
  | .div => '/'
  | .rem => '%'
  | .pow => '^'

/-! ## §3. Functions. -/

/-- A function that formulas can call. -/
inductive Function where
  /-- Square root. -/
  | sqrt
  /-- Cube root. -/
  | cbrt
  /-- Absolute value. -/
  | abs
  /-- Sine. -/
  | sin
  /-- Cosine. -/
  | cos
  /-- Tangent. -/
  | tan
  /-- Angle of a sine. -/
  | asin
  /-- Angle of a cosine. -/
  | acos
  /-- Angle of a tangent. -/
  | atan
  /-- Angle of a point with ordinate and abscissa. -/
  | atan2
  /-- Exponential. -/
  | exp
  /-- Natural logarithm. -/
  | ln
  /-- Natural logarithm, or the logarithm to a given base. -/
  | log
  /-- Logarithm to base ten. -/
  | log10
  /-- Power. -/
  | pow
  /-- Least argument. -/
  | min
  /-- Greatest argument. -/
  | max
  /-- Greatest integer below. -/
  | floor
  /-- Least integer above. -/
  | ceil
  /-- Nearest integer. -/
  | round
  /-- Degrees to radians. -/
  | deg2rad
  /-- Radians to degrees. -/
  | rad2deg
  deriving DecidableEq, Repr

/-- How many arguments a function takes. -/
structure Arity where
  /-- The least number. -/
  least : Nat
  /-- The greatest number, if there is one. -/
  most : Option Nat
  deriving DecidableEq, Repr

namespace Arity

/-- Whether a function may be called with `n` arguments. -/
def admits (a : Arity) (n : Nat) : Bool :=
  decide (a.least ≤ n) && a.most.all fun most => decide (n ≤ most)

/-- The number of arguments in words: `1`, `1 to 2` or `at least 1`. -/
def text (a : Arity) : String :=
  match a.most with
  | some most => if most = a.least then s!"{a.least}" else s!"{a.least} to {most}"
  | none => s!"at least {a.least}"

end Arity

namespace Function

/-- All functions. -/
def all : List Function :=
  [.sqrt, .cbrt, .abs, .sin, .cos, .tan, .asin, .acos, .atan, .atan2, .exp, .ln, .log, .log10,
    .pow, .min, .max, .floor, .ceil, .round, .deg2rad, .rad2deg]

/-- The name of a function. -/
def name : Function → String
  | .sqrt => "sqrt"
  | .cbrt => "cbrt"
  | .abs => "abs"
  | .sin => "sin"
  | .cos => "cos"
  | .tan => "tan"
  | .asin => "asin"
  | .acos => "acos"
  | .atan => "atan"
  | .atan2 => "atan2"
  | .exp => "exp"
  | .ln => "ln"
  | .log => "log"
  | .log10 => "log10"
  | .pow => "pow"
  | .min => "min"
  | .max => "max"
  | .floor => "floor"
  | .ceil => "ceil"
  | .round => "round"
  | .deg2rad => "deg2rad"
  | .rad2deg => "rad2deg"

/-- The function with the given name. -/
def ofName? (name : String) : Option Function := all.find? fun f => f.name == name

/-- How many arguments a function takes. -/
def arity : Function → Arity
  | .atan2 | .pow => ⟨2, some 2⟩
  | .log => ⟨1, some 2⟩
  | .min | .max => ⟨1, none⟩
  | _ => ⟨1, some 1⟩

theorem mem_all (f : Function) : f ∈ all := by cases f <;> decide

theorem ofName?_name (f : Function) : ofName? f.name = some f := by cases f <;> decide

end Function

end ShapeEstimator
