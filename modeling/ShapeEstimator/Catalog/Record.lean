/-
  ShapeEstimator.Catalog.Record
  ────────────────────────────────
  **SHAPES AND MATERIALS AS JSON.**

  Names of enumerations are written with low lines, names of fields in camel
  case.  Domains and entries carry their kind in the member `kind`, findings in
  the member `issue`.
-/
import ShapeEstimator.Catalog.Consistency
import ShapeEstimator.Catalog.Shape
import ShapeEstimator.Formula.Record

namespace ShapeEstimator

open Json (Record TagForm)

/-! ## §1. Enumerations. -/

/-- The category that a value names. -/
def Category.ofJson? : Json → Option Category := Json.choice? (all.map fun c => (c.name, c))

/-- The category as JSON. -/
def Category.toJson (c : Category) : Json := .string c.name

/-- The family that a value names. -/
def MaterialCategory.ofJson? : Json → Option MaterialCategory :=
  Json.choice? (all.map fun c => (c.name, c))

/-- The family as JSON. -/
def MaterialCategory.toJson (c : MaterialCategory) : Json := .string c.name

/-- The group that a value names. -/
def Group.ofJson? : Json → Option Group :=
  Json.choice? ((.all :: concrete).map fun g => (g.name, g))

/-- The group as JSON. -/
def Group.toJson (g : Group) : Json := .string g.name

/-- The outlines by name. -/
def BlankShape.names : List (String × BlankShape) :=
  [.rectangular, .circular].map fun b => (b.name, b)

/-- The outline that a value names. -/
def BlankShape.ofJson? : Json → Option BlankShape := Json.choice? names

/-- The outline as JSON. -/
def BlankShape.toJson (b : BlankShape) : Json := .string b.name

/-- The identifier that a value holds. -/
def Identifier.ofJson? (j : Json) : Option Identifier := j.string?.bind ofText?

/-- The identifier as JSON. -/
def Identifier.toJson (x : Identifier) : Json := .string x.text

/-! ## §2. Materials. -/

namespace Price

/-- The price as JSON. -/
def toJson (p : Price) : Json :=
  .object
    [("amount", Json.ofFloat p.amount), ("currency", .string p.currency), ("unit", .string p.unit)]

/-- The price that a value stands for. -/
def ofJson? (j : Json) : Option Price := do
  let r ← Record.ofJson? ["amount", "currency", "unit"] j
  return {
    amount := ← r.required "amount" Json.float?
    currency := ← r.required "currency" Json.string?
    unit := ← r.withDefault "unit" usualPriceUnit Json.string? }

end Price

namespace Material

/-- The material as JSON. -/
def toJson (m : Material) : Json :=
  Json.ofFields
    [("id", some (.string m.id)), ("name", some (.string m.name)),
      ("category", some m.category.toJson), ("density", m.density.map Json.ofFloat),
      ("currentPrice", m.currentPrice.map Price.toJson)]

/-- The material that a value stands for. -/
def ofJson? (j : Json) : Option Material := do
  let r ← Record.ofJson? ["id", "name", "category", "density", "currentPrice"] j
  return {
    id := ← r.required "id" Json.string?
    name := ← r.required "name" Json.string?
    category := ← r.required "category" MaterialCategory.ofJson?
    density := ← r.optional "density" Json.float?
    currentPrice := ← r.optional "currentPrice" Price.ofJson? }

end Material

/-! ## §3. Parameters. -/

namespace ParameterOption

/-- The option as JSON. -/
def toJson (o : ParameterOption) : Json :=
  .object [("label", .string o.label), ("value", Json.ofFloat o.value)]

/-- The option that a value stands for. -/
def ofJson? (j : Json) : Option ParameterOption := do
  let r ← Record.ofJson? ["label", "value"] j
  return {
    label := ← r.required "label" Json.string?
    value := ← r.required "value" Json.float? }

end ParameterOption

namespace ParameterDomain

/-- The domain as JSON. -/
def toJson : ParameterDomain → Json
  | .numeric min max default =>
    Json.ofFields
      [("kind", some (.string "numeric")), ("min", min.map Json.ofFloat),
        ("max", max.map Json.ofFloat), ("default", default.map Json.ofFloat)]
  | .enumerated options default =>
    Json.ofFields
      [("kind", some (.string "enumerated")),
        ("options", some (.array (options.map ParameterOption.toJson))),
        ("default", default.map Json.ofFloat)]

/-- The domain that a value stands for, with tags in the given form. -/
def ofJsonWith? (tags : TagForm) (j : Json) : Option ParameterDomain := do
  let (kind, body) ← Json.splitTag? "kind" j
  match ← tags.name? ["numeric", "enumerated"] kind with
  | "numeric" =>
    let r ← Record.ofJson? ["min", "max", "default"] body
    return .numeric (← r.optional "min" Json.float?) (← r.optional "max" Json.float?)
      (← r.optional "default" Json.float?)
  | "enumerated" =>
    let r ← Record.ofJson? ["options", "default"] body
    return .enumerated (← r.required "options" (Json.list? ParameterOption.ofJson?))
      (← r.optional "default" Json.float?)
  | _ => none

/-- The domain that a value stands for. -/
def ofJson? : Json → Option ParameterDomain := ofJsonWith? .name

end ParameterDomain

namespace Parameter

/-- The parameter as JSON. -/
def toJson (p : Parameter) : Json :=
  .object
    [("name", .string p.name), ("label", .string p.label), ("unit", .string p.unit),
      ("domain", p.domain.toJson), ("required", .bool p.required),
      ("usedInFormulas", Json.ofStrings p.usedInFormulas)]

/-- The parameter that a value stands for, with tags in the given form. -/
def ofJsonWith? (tags : TagForm) (j : Json) : Option Parameter := do
  let r ← Record.ofJson? ["name", "label", "unit", "domain", "required", "usedInFormulas"] j
  return {
    name := ← r.required "name" Json.string?
    label := ← r.required "label" Json.string?
    unit := ← r.required "unit" Json.string?
    domain := ← r.required "domain" (ParameterDomain.ofJsonWith? tags)
    required := ← r.withDefault "required" true Json.bool?
    usedInFormulas := ← r.withDefault "usedInFormulas" [] Json.strings? }

/-- The parameter that a value stands for. -/
def ofJson? : Json → Option Parameter := ofJsonWith? .name

end Parameter

namespace ParameterIssue

/-- The fields of a finding. -/
def fields : ParameterIssue → List (String × Json)
  | .missingRequired name => [("issue", .string "missing_required"), ("name", .string name)]
  | .belowMinimum name value min =>
    [("issue", .string "below_minimum"), ("name", .string name), ("value", Json.ofFloat value),
      ("min", Json.ofFloat min)]
  | .aboveMaximum name value max =>
    [("issue", .string "above_maximum"), ("name", .string name), ("value", Json.ofFloat value),
      ("max", Json.ofFloat max)]
  | .notAnOption name value =>
    [("issue", .string "not_an_option"), ("name", .string name), ("value", Json.ofFloat value)]

/-- The finding as JSON. -/
def toJson (i : ParameterIssue) : Json := .object i.fields

/-- The finding that a value stands for. -/
def ofJson? (j : Json) : Option ParameterIssue := do
  let (issue, body) ← Json.splitTag? "issue" j
  match issue with
  | .string "missing_required" =>
    let r ← Record.ofJson? ["name"] body
    return .missingRequired (← r.required "name" Json.string?)
  | .string "below_minimum" =>
    let r ← Record.ofJson? ["name", "value", "min"] body
    return .belowMinimum (← r.required "name" Json.string?) (← r.required "value" Json.float?)
      (← r.required "min" Json.float?)
  | .string "above_maximum" =>
    let r ← Record.ofJson? ["name", "value", "max"] body
    return .aboveMaximum (← r.required "name" Json.string?) (← r.required "value" Json.float?)
      (← r.required "max" Json.float?)
  | .string "not_an_option" =>
    let r ← Record.ofJson? ["name", "value"] body
    return .notAnOption (← r.required "name" Json.string?) (← r.required "value" Json.float?)
  | _ => none

end ParameterIssue

/-! ## §4. Entries. -/

namespace BlankSpec

/-- The fields of a blank. -/
def fields (s : BlankSpec) : List (String × Json) :=
  [("blankShape", s.blankShape.toJson),
    ("dimensions", Json.ofMap Formula.Definition.toJson s.dimensions),
    ("description", .string s.description)]

/-- The blank as JSON. -/
def toJson (s : BlankSpec) : Json := .object s.fields

/-- The blank that a value stands for, its outline being read by `outline`. -/
def ofJsonBy? (outline : Json → Option BlankShape) (j : Json) : Option BlankSpec := do
  let r ← Record.ofJson? ["blankShape", "dimensions", "description"] j
  return {
    blankShape := ← r.required "blankShape" outline
    dimensions := ← r.required "dimensions" (Json.map? Formula.Definition.ofJson?)
    description := ← r.withDefault "description" "" Json.string? }

/-- The blank that a value stands for. -/
def ofJson? : Json → Option BlankSpec := ofJsonBy? BlankShape.ofJson?

end BlankSpec

namespace NamedFormula

/-- The formula with its name as JSON. -/
def toJson (n : NamedFormula) : Json :=
  .object [("name", .string n.name), ("formula", n.formula.toJson)]

/-- The formula with a name that a value stands for. -/
def ofJson? (j : Json) : Option NamedFormula := do
  let r ← Record.ofJson? ["name", "formula"] j
  return {
    name := ← r.required "name" Json.string?
    formula := ← r.required "formula" Formula.Definition.ofJson? }

end NamedFormula

namespace FormulaEntry

/-- The entry as JSON. -/
def toJson : FormulaEntry → Json
  | .formula f => Json.ofFields (("kind", some (.string "formula")) :: f.fields)
  | .blankDimensions spec => .object (("kind", .string "blank_dimensions") :: spec.fields)
  | .customFormulas formulas =>
    .object
      [("kind", .string "custom_formulas"), ("formulas", .array (formulas.map NamedFormula.toJson))]

/-- The entry that a value stands for, with tags in the given form. -/
def ofJsonWith? (tags : TagForm) (j : Json) : Option FormulaEntry := do
  let (kind, body) ← Json.splitTag? "kind" j
  match ← tags.name? ["formula", "blank_dimensions", "custom_formulas"] kind with
  | "formula" => return .formula (← Formula.Definition.ofJson? body)
  | "blank_dimensions" =>
    return .blankDimensions (← BlankSpec.ofJsonBy? (Json.taggedChoice? BlankShape.names) body)
  | "custom_formulas" =>
    let r ← Record.ofJson? ["formulas"] body
    return .customFormulas (← r.required "formulas" (Json.list? NamedFormula.ofJson?))
  | _ => none

/-- The entry that a value stands for. -/
def ofJson? : Json → Option FormulaEntry := ofJsonWith? .name

end FormulaEntry

/-! ## §5. Rates and rules. -/

namespace RateOverrides

/-- The rates as JSON. -/
def toJson (o : RateOverrides) : Json :=
  Json.ofFields
    [("cuttingCostPerMeter", o.cuttingPerMeter.map Json.ofFloat),
      ("edgePreparationCostPerMeter", o.edgePreparationPerMeter.map Json.ofFloat),
      ("weldingCostPerMeter", o.weldingPerMeter.map Json.ofFloat),
      ("surfaceTreatmentCostPerSqm", o.surfaceTreatmentPerSqm.map Json.ofFloat),
      ("baseCost", o.baseCost.map Json.ofFloat), ("costPerKg", o.costPerKg.map Json.ofFloat),
      ("laborHours", o.laborHours.map Json.ofFloat),
      ("laborRatePerHour", o.laborRatePerHour.map Json.ofFloat)]

/-- The rates that a value stands for. -/
def ofJson? (j : Json) : Option RateOverrides := do
  let r ← Record.ofJson?
    ["cuttingCostPerMeter", "edgePreparationCostPerMeter", "weldingCostPerMeter",
      "surfaceTreatmentCostPerSqm", "baseCost", "costPerKg", "laborHours", "laborRatePerHour"] j
  return {
    cuttingPerMeter := ← r.optional "cuttingCostPerMeter" Json.float?
    edgePreparationPerMeter := ← r.optional "edgePreparationCostPerMeter" Json.float?
    weldingPerMeter := ← r.optional "weldingCostPerMeter" Json.float?
    surfaceTreatmentPerSqm := ← r.optional "surfaceTreatmentCostPerSqm" Json.float?
    baseCost := ← r.optional "baseCost" Json.float?
    costPerKg := ← r.optional "costPerKg" Json.float?
    laborHours := ← r.optional "laborHours" Json.float?
    laborRatePerHour := ← r.optional "laborRatePerHour" Json.float? }

end RateOverrides

namespace ValidationRule

/-- The rule as JSON. -/
def toJson (v : ValidationRule) : Json :=
  .object
    [("name", .string v.name), ("expression", .string v.expression), ("message", .string v.message)]

/-- The rule that a value stands for. -/
def ofJson? (j : Json) : Option ValidationRule := do
  let r ← Record.ofJson? ["name", "expression", "message"] j
  return {
    name := ← r.required "name" Json.string?
    expression := ← r.required "expression" Json.string?
    message := ← r.required "message" Json.string? }

end ValidationRule

/-! ## §6. Shapes. -/

namespace Shape

/-- The shape as JSON. -/
def toJson (s : Shape) : Json :=
  Json.ofFields
    [("key", some (.string s.key)), ("name", some (.string s.name)),
      ("description", some (.string s.description)), ("category", some s.category.toJson),
      ("id", s.id.map Identifier.toJson), ("code", s.code.map .string),
      ("parameters", some (.array (s.parameters.map Parameter.toJson))),
      ("formulas", some (Json.ofMap FormulaEntry.toJson s.formulas)),
      ("allowedMaterialCategories",
        some (.array (s.allowedMaterials.map MaterialCategory.toJson))),
      ("fabricationCost", s.fabricationCost.map RateOverrides.toJson),
      ("validationRules", some (.array (s.validationRules.map ValidationRule.toJson)))]

/-- The shape that a value stands for, with tags in the given form. -/
def ofJsonWith? (tags : TagForm) (j : Json) : Option Shape := do
  let r ← Record.ofJson?
    ["key", "name", "description", "category", "id", "code", "parameters", "formulas",
      "allowedMaterialCategories", "fabricationCost", "validationRules"] j
  return {
    key := ← r.required "key" Json.string?
    name := ← r.required "name" Json.string?
    description := ← r.withDefault "description" "" Json.string?
    category := ← r.required "category" Category.ofJson?
    id := ← r.optional "id" Identifier.ofJson?
    code := ← r.optional "code" Json.string?
    parameters := ← r.required "parameters" (Json.list? (Parameter.ofJsonWith? tags))
    formulas := ← r.required "formulas" (Json.map? (FormulaEntry.ofJsonWith? tags))
    allowedMaterials :=
      ← r.withDefault "allowedMaterialCategories" [] (Json.list? MaterialCategory.ofJson?)
    fabricationCost := ← r.optional "fabricationCost" RateOverrides.ofJson?
    validationRules := ← r.withDefault "validationRules" [] (Json.list? ValidationRule.ofJson?) }

/-- The shape that a value stands for. -/
def ofJson? : Json → Option Shape := ofJsonWith? .name

end Shape

/-! ## §7. Consistency. -/

namespace ConsistencyIssue

/-- The fields of a finding. -/
def fields : ConsistencyIssue → List (String × Json)
  | .malformed formula message =>
    [("issue", .string "syntax"), ("formula", .string formula), ("message", .string message)]
  | .undeclaredVariable formula name =>
    [("issue", .string "undeclared_variable"), ("formula", .string formula),
      ("variable", .string name)]
  | .unusedVariable formula name =>
    [("issue", .string "unused_variable"), ("formula", .string formula), ("variable", .string name)]
  | .unknownParameter formula name =>
    [("issue", .string "unknown_parameter"), ("formula", .string formula),
      ("variable", .string name)]
  | .unknownFormulaReference parameter formula =>
    [("issue", .string "unknown_formula_reference"), ("parameter", .string parameter),
      ("formula", .string formula)]
  | .unlistedUsage parameter formula =>
    [("issue", .string "unlisted_usage"), ("parameter", .string parameter),
      ("formula", .string formula)]

/-- The finding as JSON. -/
def toJson (i : ConsistencyIssue) : Json := .object i.fields

/-- A finding about two texts that are fields of a record. -/
def ofTexts? (make : String → String → ConsistencyIssue) (first second : String) (body : Json) :
    Option ConsistencyIssue := do
  let r ← Record.ofJson? [first, second] body
  return make (← r.required first Json.string?) (← r.required second Json.string?)

/-- The finding that a value stands for. -/
def ofJson? (j : Json) : Option ConsistencyIssue := do
  let (issue, body) ← Json.splitTag? "issue" j
  match issue with
  | .string "syntax" => ofTexts? .malformed "formula" "message" body
  | .string "undeclared_variable" => ofTexts? .undeclaredVariable "formula" "variable" body
  | .string "unused_variable" => ofTexts? .unusedVariable "formula" "variable" body
  | .string "unknown_parameter" => ofTexts? .unknownParameter "formula" "variable" body
  | .string "unknown_formula_reference" =>
    ofTexts? .unknownFormulaReference "parameter" "formula" body
  | .string "unlisted_usage" => ofTexts? .unlistedUsage "parameter" "formula" body
  | _ => none

end ConsistencyIssue

end ShapeEstimator
