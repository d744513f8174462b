/-
  ShapeEstimator.CommandLine.Request
  ────────────────────────────────
  **REQUESTS FOR AN ESTIMATE.**

  A request names a shape of the catalog by its key or holds the shape itself.
  It may ask for the shape's defaults where it gives no value.
-/
import ShapeEstimator.Catalog.Listing
import ShapeEstimator.Estimate.Record

namespace ShapeEstimator.CommandLine

open Json (Record)

/-! ## §1. Requests. -/

/-- A shape by key or as it is. -/
inductive ShapeReference where
  /-- The shape with the key in the catalog. -/
  | catalogued (key : String)
  /-- The shape itself. -/
  | inline (shape : Shape)
  deriving DecidableEq, Repr

/-- A request. -/
structure Request where
  /-- The shape. -/
  shape : ShapeReference
  /-- The material. -/
  material : Material
  /-- The values of parameters. -/
  parameterValues : NameMap Float := .empty
  /-- The number of pieces, one if it is not given. -/
  quantity : Option Float := none
  /-- The rates that are given. -/
  rateOverrides : Option RateOverrides := none
  /-- Whether parameters without a value take their defaults. -/
  applyDefaults : Bool := false
  deriving DecidableEq, Repr

/-! ## §2. Reading. -/

/-- The shape that a value stands for: a text is a key.  Inside a shape a tag may be a place. -/
def ShapeReference.ofJson? (j : Json) : Option ShapeReference :=
  if !j.isReadable then none
  else
    match j with
    | .string key => some (.catalogued key)
    | j => (Shape.ofJsonWith? .nameOrPlace j).map .inline

/-- The request that a value stands for.  A list must go as far as the rates. -/
def Request.ofJson? (j : Json) : Option Request := do
  let r ← Record.ofJson?
    ["shape", "material", "parameterValues", "quantity", "rateOverrides", "applyDefaults"] j
  match j with
  | .array items => if items.length < 5 then none
  | _ => pure ()
  return {
    shape := ← r.required "shape" ShapeReference.ofJson?
    material := ← r.required "material" Material.ofJson?
    parameterValues := ← r.withDefault "parameterValues" .empty (Json.map? Json.float?)
    quantity := ← r.optional "quantity" Json.float?
    rateOverrides := ← r.optional "rateOverrides" RateOverrides.ofJson?
    applyDefaults := ← r.withDefault "applyDefaults" false Json.bool? }

/-! ## §3. Inputs. -/

/-- The shape that is meant. -/
def ShapeReference.resolve (catalog : Catalog) : ShapeReference → Except Fault Shape
  | .catalogued key => catalog.find key
  | .inline shape => .ok shape

/-- The input of the estimate that a request asks for. -/
def Request.toInput (catalog : Catalog) (r : Request) : Except Fault EstimateInput := do
  let shape ← r.shape.resolve catalog
  let input : EstimateInput :=
    { shape, material := r.material, parameterValues := r.parameterValues
      quantity := r.quantity.getD 1, rateOverrides := r.rateOverrides }
  return if r.applyDefaults then input.withDefaults else input

end ShapeEstimator.CommandLine
