/-
  ShapeEstimator.Formula.Record
  ────────────────────────────────
  **FORMULAS AND THEIR RESULTS AS JSON.**

  Field names are written in camel case.  A field that is absent is left out.
-/
import ShapeEstimator.Formula.Evaluation
import ShapeEstimator.Json.Record

namespace ShapeEstimator.Formula

open Json (Record)

/-! ## §1. Definitions. -/

namespace ExpectedRange

/-- The range as JSON. -/
def toJson (r : ExpectedRange) : Json :=
  Json.ofFields
    [("min", some (Json.ofFloat r.min)), ("max", some (Json.ofFloat r.max)),
      ("warning", r.warning.map .string)]

/-- The range that a value stands for. -/
def ofJson? (j : Json) : Option ExpectedRange := do
  let r ← Record.ofJson? ["min", "max", "warning"] j
  return {
    min := ← r.required "min" Json.float?
    max := ← r.required "max" Json.float?
    warning := ← r.optional "warning" Json.string? }

end ExpectedRange

namespace Definition

/-- The names of the fields, in order. -/
def fieldNames : List String :=
  ["expression", "variables", "unit", "description", "requiresDensity", "expectedRange"]

/-- The fields of a formula. -/
def fields (f : Definition) : List (String × Option Json) :=
  [("expression", some (.string f.expression)), ("variables", some (Json.ofStrings f.declared)),
    ("unit", some (.string f.unit)), ("description", some (.string f.description)),
    ("requiresDensity", some (.bool f.requiresDensity)),
    ("expectedRange", f.expectedRange.map ExpectedRange.toJson)]

/-- The formula as JSON. -/
def toJson (f : Definition) : Json := Json.ofFields f.fields

/-- The formula that a value stands for. -/
def ofJson? (j : Json) : Option Definition := do
  let r ← Record.ofJson? fieldNames j
  return {
    expression := ← r.required "expression" Json.string?
    declared := ← r.withDefault "variables" [] Json.strings?
    unit := ← r.required "unit" Json.string?
    description := ← r.withDefault "description" "" Json.string?
    requiresDensity := ← r.withDefault "requiresDensity" false Json.bool?
    expectedRange := ← r.optional "expectedRange" ExpectedRange.ofJson? }

end Definition

/-! ## §2. Results. -/

namespace RangeWarning

/-- The warning as JSON. -/
def toJson (w : RangeWarning) : Json :=
  .object
    [("expression", .string w.expression), ("value", Json.ofFloat w.value),
      ("min", Json.ofFloat w.min), ("max", Json.ofFloat w.max), ("message", .string w.message)]

/-- The warning that a value stands for. -/
def ofJson? (j : Json) : Option RangeWarning := do
  let r ← Record.ofJson? ["expression", "value", "min", "max", "message"] j
  return {
    expression := ← r.required "expression" Json.string?
    value := ← r.required "value" Json.float?
    min := ← r.required "min" Json.float?
    max := ← r.required "max" Json.float?
    message := ← r.required "message" Json.string? }

end RangeWarning

namespace EvaluationResult

/-- The result as JSON. -/
def toJson (e : EvaluationResult) : Json :=
  Json.ofFields
    [("result", some (Json.ofFloat e.result)), ("unit", some (.string e.unit)),
      ("expression", some (.string e.expression)),
      ("variables", some (Json.ofMap Json.ofFloat e.boundValues)),
      ("rangeWarning", e.rangeWarning.map RangeWarning.toJson)]

/-- The result that a value stands for. -/
def ofJson? (j : Json) : Option EvaluationResult := do
  let r ← Record.ofJson? ["result", "unit", "expression", "variables", "rangeWarning"] j
  return {
    result := ← r.required "result" Json.float?
    unit := ← r.required "unit" Json.string?
    expression := ← r.required "expression" Json.string?
    boundValues := ← r.required "variables" (Json.map? Json.float?)
    rangeWarning := ← r.optional "rangeWarning" RangeWarning.ofJson? }

end EvaluationResult

/-! ## §3. Variable checks. -/

namespace VariableCheck

/-- The check as JSON. -/
def toJson (c : VariableCheck) : Json :=
  .object [("undeclared", Json.ofStrings c.undeclared), ("unused", Json.ofStrings c.unused)]

/-- The check that a value stands for. -/
def ofJson? (j : Json) : Option VariableCheck := do
  let r ← Record.ofJson? ["undeclared", "unused"] j
  return {
    undeclared := ← r.required "undeclared" Json.strings?
    unused := ← r.required "unused" Json.strings? }

end VariableCheck

end ShapeEstimator.Formula
