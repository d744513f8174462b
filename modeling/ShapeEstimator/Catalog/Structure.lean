/-
  ShapeEstimator.Catalog.Structure
  ────────────────────────────────
  **SHAPES THAT CANNOT BE USED.**

  An estimate needs a key, at least one formula, and parameters with different
  names whose domains are not empty.  All problems of a shape are reported
  together.
-/
import ShapeEstimator.Catalog.Shape

namespace ShapeEstimator.Shape

/-! ## §1. Problems. -/

/-- What makes a shape unusable. -/
inductive Problem where
  /-- The key is blank. -/
  | emptyKey
  /-- There are no formulas. -/
  | noFormulas
  /-- The name of a parameter is blank. -/
  | emptyParameterName
  /-- Two parameters have one name. -/
  | duplicateParameter (name : String)
  /-- The bounds of a parameter leave no value. -/
  | emptyRange (name : String) (min max : Float)
  /-- The default of a parameter is not within its bounds. -/
  | defaultOutOfBounds (name : String) (default : Float)
  /-- A parameter has no options. -/
  | noOptions (name : String)
  deriving DecidableEq, Repr

/-- The problem in words. -/
def Problem.message : Problem → String
  | .emptyKey => "empty key"
  | .noFormulas => "no formulas"
  | .emptyParameterName => "parameter with empty name"
  | .duplicateParameter name => "duplicate parameter '" ++ name ++ "'"
  | .emptyRange name min max =>
    "parameter '" ++ name ++ "' has min " ++ Binary64.plainText min ++ " > max "
      ++ Binary64.plainText max
  | .defaultOutOfBounds name default =>
    "parameter '" ++ name ++ "' default " ++ Binary64.plainText default ++ " outside its bounds"
  | .noOptions name => "parameter '" ++ name ++ "' has no options"

/-! ## §2. The check. -/

/-- Whether a text holds nothing but white space. -/
def isBlankText (text : String) : Bool := text.toList.all Text.isBlank

/-- The problems of a parameter's domain. -/
def domainProblems (p : Parameter) : List Problem :=
  match p.domain with
  | .numeric min max default =>
    (match min, max with
      | some lo, some hi => if hi < lo then [.emptyRange p.name lo hi] else []
      | _, _ => [])
    ++ (match default with
      | some d =>
        if (violatedMinimum? min d).isSome || (violatedMaximum? max d).isSome then
          [.defaultOutOfBounds p.name d]
        else []
      | none => [])
  | .enumerated options _ => if options.isEmpty then [.noOptions p.name] else []

/-- The problem of a parameter's name, behind parameters of the given names. -/
def nameProblems (seen : List String) (name : String) : List Problem :=
  if isBlankText name then [.emptyParameterName]
  else if name ∈ seen then [.duplicateParameter name]
  else []

/-- The problems of a list of parameters behind parameters of the given names. -/
def parameterProblems : List String → List Parameter → List Problem
  | _, [] => []
  | seen, p :: rest =>
    nameProblems seen p.name ++ domainProblems p ++ parameterProblems (p.name :: seen) rest

/-- All problems of a shape. -/
def problems (s : Shape) : List Problem :=
  (if isBlankText s.key then [.emptyKey] else [])
    ++ (if s.formulas.entries.isEmpty then [.noFormulas] else [])
    ++ parameterProblems [] s.parameters

/-- Refuses a shape with problems. -/
def checkStructure (s : Shape) : Except Fault Unit :=
  match s.problems with
  | [] => .ok ()
  | problems =>
    .error (.corruptCatalogEntry s.key ("; ".intercalate (problems.map Problem.message)))

end ShapeEstimator.Shape
