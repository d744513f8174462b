/-
  ShapeEstimator.Catalog.Parameter
  ────────────────────────────────
  **PARAMETERS OF SHAPES.**

  A parameter is a number within bounds, or one of a list of labelled values.
  A value outside the domain is reported and does not stop an estimate.
-/
import ShapeEstimator.Binary64.Notation

namespace ShapeEstimator

/-! ## §1. Domains. -/

/-- A labelled value. -/
structure ParameterOption where
  /-- What the value is called. -/
  label : String
  /-- The value. -/
  value : Float
  deriving DecidableEq, Repr

/-- The values that a parameter may take. -/
inductive ParameterDomain where
  /-- Any number within the bounds that are given. -/
  | numeric (min max default : Option Float)
  /-- One of the options. -/
  | enumerated (options : List ParameterOption) (default : Option Float)
  deriving DecidableEq, Repr

namespace ParameterDomain

/-- The default value, if there is one. -/
def default? : ParameterDomain → Option Float
  | .numeric _ _ default => default
  | .enumerated _ default => default

/-- The domain with bounds; a list of options has none. -/
def withRange (lower upper : Float) : ParameterDomain → ParameterDomain
  | .numeric _ _ default => .numeric (some lower) (some upper) default
  | .enumerated options default => .enumerated options default

/-- The domain with a default value. -/
def withDefault (value : Float) : ParameterDomain → ParameterDomain
  | .numeric min max _ => .numeric min max (some value)
  | .enumerated options _ => .enumerated options (some value)

end ParameterDomain

/-- How far a value may be from an option: less than this. -/
def optionTolerance : Float := 1e-9

/-- Whether a value counts as an option. -/
def ParameterOption.accepts (o : ParameterOption) (value : Float) : Bool :=
  let difference := o.value - value
  decide (-optionTolerance < difference) && decide (difference < optionTolerance)

/-! ## §2. Parameters. -/

/-- A parameter of a shape. -/
structure Parameter where
  /-- The name in formulas. -/
  name : String
  /-- The name for people. -/
  label : String
  /-- The unit of its values. -/
  unit : String
  /-- The values it may take. -/
  domain : ParameterDomain
  /-- Whether a value must be given. -/
  required : Bool := true
  /-- The formulas that are said to use it. -/
  usedInFormulas : List String := []
  deriving DecidableEq, Repr

namespace Parameter

/-- A required number without bounds. -/
def numeric (name label unit : String) : Parameter :=
  { name, label, unit, domain := .numeric none none none }

/-- A required choice among options. -/
def enumerated (name label unit : String) (options : List ParameterOption) : Parameter :=
  { name, label, unit, domain := .enumerated options none }

/-- The parameter with bounds, if it is a number. -/
def withRange (p : Parameter) (lower upper : Float) : Parameter :=
  { p with domain := p.domain.withRange lower upper }

/-- The parameter with a default value. -/
def withDefault (p : Parameter) (value : Float) : Parameter :=
  { p with domain := p.domain.withDefault value }

/-- The parameter, not required. -/
def optional (p : Parameter) : Parameter := { p with required := false }

/-- The parameter with the formulas that are said to use it. -/
def usedIn (p : Parameter) (formulas : List String) : Parameter :=
  { p with usedInFormulas := formulas }

end Parameter

/-! ## §3. Findings. -/

/-- What is wrong with the value of a parameter. -/
inductive ParameterIssue where
  /-- A required parameter has no value. -/
  | missingRequired (name : String)
  /-- The value is below the lower bound. -/
  | belowMinimum (name : String) (value min : Float)
  /-- The value is above the upper bound. -/
  | aboveMaximum (name : String) (value max : Float)
  /-- The value is none of the options. -/
  | notAnOption (name : String) (value : Float)
  deriving DecidableEq, Repr

/-- The finding in words. -/
def ParameterIssue.message : ParameterIssue → String
  | .missingRequired name => "Required parameter '" ++ name ++ "' not supplied"
  | .belowMinimum name value min =>
    "Parameter '" ++ name ++ "' = " ++ Binary64.plainText value ++ " is below the minimum "
      ++ Binary64.plainText min
  | .aboveMaximum name value max =>
    "Parameter '" ++ name ++ "' = " ++ Binary64.plainText value ++ " is above the maximum "
      ++ Binary64.plainText max
  | .notAnOption name value =>
    "Parameter '" ++ name ++ "' = " ++ Binary64.plainText value
      ++ " is not one of the allowed options"

/-- The lower bound that a value is below. -/
def violatedMinimum? (min : Option Float) (value : Float) : Option Float :=
  min.filter fun m => decide (value < m)

/-- The upper bound that a value is above. -/
def violatedMaximum? (max : Option Float) (value : Float) : Option Float :=
  max.filter fun m => decide (m < value)

/-- What is wrong with a value of a parameter, if anything; the lower bound comes first. -/
def Parameter.checkValue (p : Parameter) (value : Float) : Option ParameterIssue :=
  match p.domain with
  | .numeric min max _ =>
    match violatedMinimum? min value, violatedMaximum? max value with
    | some min, _ => some (.belowMinimum p.name value min)
    | none, some max => some (.aboveMaximum p.name value max)
    | none, none => none
  | .enumerated options _ =>
    if options.any fun o => o.accepts value then none else some (.notAnOption p.name value)

end ShapeEstimator
