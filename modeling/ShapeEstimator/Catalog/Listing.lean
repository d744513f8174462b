/-
  ShapeEstimator.Catalog.Listing
  ────────────────────────────────
  **CATALOGS.**

  A catalog is a list of shapes.  What it hands out is stamped with an
  identifier, which depends on the key alone, and a code: the letters of the
  shape's group and its place in the group, from one, with at least three digits.
-/
import ShapeEstimator.Catalog.Shape
import ShapeEstimator.Text.Positional

namespace ShapeEstimator

/-! ## §1. Stamps. -/

/-- The namespace of shape identifiers. -/
def shapeNamespace : Identifier := { value := 0x6f1c2a4e83d54b0a9e2751c8d3f0a6b4 }

/-- The identifier of a shape with the given key. -/
def shapeId (key : String) : Identifier := .ofName shapeNamespace key

/-- The code of the shape at a place, counted from one, in a group. -/
def shapeCode (g : Group) (place : Nat) : String :=
  g.codeLetters ++ "-" ++ String.ofList (Text.paddedDigits 3 place)

/-! ## §2. Catalogs. -/

/-- A list of shapes. -/
structure Catalog where
  /-- The shapes, in order. -/
  shapes : List Shape

namespace Catalog

/-- The shapes of a group, without stamps. -/
def members (c : Catalog) (g : Group) : List Shape :=
  c.shapes.filter fun s => g.contains s.category

/-- The place of a key in a group, counted from one. -/
def place (c : Catalog) (g : Group) (key : String) : Nat :=
  ((c.members g).findIdx? fun s => s.key == key).getD 0 + 1

/-- The shape with its identifier and code. -/
def stamp (c : Catalog) (s : Shape) : Shape :=
  let g := Group.ofCategory s.category
  { s with id := some (shapeId s.key), code := some (shapeCode g (c.place g s.key)) }

/-- The shapes of a group. -/
def shapesIn (c : Catalog) (g : Group) : List Shape := (c.members g).map c.stamp

/-- The shapes of the group with the given name. -/
def shapesByGroupName (c : Catalog) (name : String) : Except Fault (List Shape) := do
  let g ← Group.ofName? name
  return c.shapesIn g

/-- The shape with the given key. -/
def find (c : Catalog) (key : String) : Except Fault Shape :=
  match c.shapes.find? fun s => s.key == key with
  | some s => .ok (c.stamp s)
  | none => .error (.shapeNotFound key)

/-- The five groups and how many shapes each has. -/
def groups (c : Catalog) : List (Group × Nat) :=
  Group.concrete.map fun g => (g, (c.members g).length)

end Catalog

end ShapeEstimator
