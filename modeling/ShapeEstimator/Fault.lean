/-
  ShapeEstimator.Fault
  ────────────────────────────────
  **FAULTS.**

  Everything that can stop an estimate.  A fault names what broke (expression,
  variable, field, shape), has a code for programs and a message for people.
-/

namespace ShapeEstimator

/-- A fault, with the names and texts that its message shows. -/
inductive Fault where
  /-- An expression cannot be read. -/
  | malformedExpression (expression : String) (position : Nat) (message : String)
  /-- Variables of a formula have no value. -/
  | missingVariables (expression : String) (missing : List String)
  /-- An expression has no value. -/
  | evaluation (expression reason : String)
  /-- An input is out of range. -/
  | invalidInput (field value reason : String)
  /-- A shape's volume or weight could not be computed. -/
  | requiredFormulasFailed (shape : String) (formulas : List String)
  /-- A shape's definition cannot be used. -/
  | corruptCatalogEntry (shape reason : String)
  /-- There is no shape with this key. -/
  | shapeNotFound (key : String)
  /-- There is no category group of this name. -/
  | unknownCategoryGroup (group : String)
  /-- A record cannot be read or written. -/
  | serialization (reason : String)
  deriving DecidableEq, Repr

namespace Fault

/-- The code of a fault. -/
def code : Fault → String
  | .malformedExpression .. => "SYNTAX_ERROR"
  | .missingVariables .. => "MISSING_VARIABLES"
  | .evaluation .. => "EVALUATION_ERROR"
  | .invalidInput .. => "INVALID_INPUT"
  | .requiredFormulasFailed .. => "REQUIRED_FORMULAS_FAILED"
  | .corruptCatalogEntry .. => "CORRUPT_CATALOG_ENTRY"
  | .shapeNotFound .. => "SHAPE_NOT_FOUND"
  | .unknownCategoryGroup .. => "UNKNOWN_CATEGORY_GROUP"
  | .serialization .. => "SERIALIZATION_ERROR"

/-- Names with commas between them. -/
def listed (names : List String) : String := ", ".intercalate names

/-- The message of a fault. -/
def message : Fault → String
  | .malformedExpression expression position message =>
    "Syntax error in '" ++ expression ++ "' at position " ++ toString position ++ ": " ++ message
  | .missingVariables expression missing =>
    "Missing variables for '" ++ expression ++ "': " ++ listed missing
  | .evaluation expression reason => "Evaluation of '" ++ expression ++ "' failed: " ++ reason
  | .invalidInput field value reason =>
    "Invalid input for '" ++ field ++ "': " ++ value ++ " - " ++ reason
  | .requiredFormulasFailed shape formulas =>
    "Required formulas failed for shape '" ++ shape ++ "': " ++ listed formulas
  | .corruptCatalogEntry shape reason => "Corrupt catalog entry '" ++ shape ++ "': " ++ reason
  | .shapeNotFound key => "Shape not found: " ++ key
  | .unknownCategoryGroup group => "Unknown category group: " ++ group
  | .serialization reason => "Serialization error: " ++ reason

end Fault

end ShapeEstimator
