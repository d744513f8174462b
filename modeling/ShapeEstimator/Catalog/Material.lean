/-
  ShapeEstimator.Catalog.Material
  ────────────────────────────────
  **MATERIALS.**

  A material has a density and a price per unit of mass, both of which may be
  unknown.  Prices per gram and per tonne are brought to one kilogram.
-/

namespace ShapeEstimator

/-! ## §1. Families. -/

/-- A family of materials. -/
inductive MaterialCategory where
  /-- Carbon steel. -/
  | carbonSteel
  /-- Alloy steel. -/
  | alloySteel
  /-- Stainless steel. -/
  | stainlessSteel
  /-- Duplex stainless steel. -/
  | duplexStainless
  /-- Nickel alloy. -/
  | nickelAlloy
  /-- Aluminium. -/
  | aluminium
  /-- Copper. -/
  | copper
  /-- Titanium. -/
  | titanium
  /-- Anything else. -/
  | other
  deriving DecidableEq, Repr

namespace MaterialCategory

/-- All families, in order. -/
def all : List MaterialCategory :=
  [.carbonSteel, .alloySteel, .stainlessSteel, .duplexStainless, .nickelAlloy, .aluminium,
    .copper, .titanium, .other]

/-- The steels of every grade. -/
def steels : List MaterialCategory :=
  [.carbonSteel, .alloySteel, .stainlessSteel, .duplexStainless]

/-- The name of a family in records. -/
def name : MaterialCategory → String
  | .carbonSteel => "carbon_steel"
  | .alloySteel => "alloy_steel"
  | .stainlessSteel => "stainless_steel"
  | .duplexStainless => "duplex_stainless"
  | .nickelAlloy => "nickel_alloy"
  | .aluminium => "aluminium"
  | .copper => "copper"
  | .titanium => "titanium"
  | .other => "other"

/-- The name of a family for people. -/
def displayName : MaterialCategory → String
  | .carbonSteel => "Carbon Steel"
  | .alloySteel => "Alloy Steel"
  | .stainlessSteel => "Stainless Steel"
  | .duplexStainless => "Duplex Stainless"
  | .nickelAlloy => "Nickel Alloy"
  | .aluminium => "Aluminium"
  | .copper => "Copper"
  | .titanium => "Titanium"
  | .other => "Other"

theorem mem_all (c : MaterialCategory) : c ∈ all := by cases c <;> decide

end MaterialCategory

/-! ## §2. Prices. -/

/-- The unit of mass of a price that names none. -/
def usualPriceUnit : String := "kg"

/-- A price per unit of mass. -/
structure Price where
  /-- The amount of money. -/
  amount : Float
  /-- The currency. -/
  currency : String
  /-- The unit of mass. -/
  unit : String := usualPriceUnit
  deriving DecidableEq, Repr

/-- The price of one kilogram.  A unit that is not known counts as the kilogram. -/
def Price.perKilogram (p : Price) : Float :=
  if p.unit = "g" then p.amount * 1000
  else if p.unit = "t" ∨ p.unit = "tonne" ∨ p.unit = "MT" then p.amount / 1000
  else p.amount

/-! ## §3. Materials. -/

/-- A material. -/
structure Material where
  /-- What identifies the material. -/
  id : String
  /-- The name for people. -/
  name : String
  /-- The family. -/
  category : MaterialCategory
  /-- Kilograms per cubic metre, if known. -/
  density : Option Float := none
  /-- The price, if known. -/
  currentPrice : Option Price := none
  deriving DecidableEq, Repr

namespace Material

/-- The price of one kilogram, nothing for a material without a price. -/
def pricePerKilogram (m : Material) : Float := (m.currentPrice.map Price.perKilogram).getD 0

/-- The currency of the price. -/
def currency? (m : Material) : Option String := m.currentPrice.map (·.currency)

end Material

end ShapeEstimator
