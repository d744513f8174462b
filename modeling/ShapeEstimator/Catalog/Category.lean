/-
  ShapeEstimator.Catalog.Category
  ────────────────────────────────
  **CATEGORIES OF SHAPES AND THEIR GROUPS.**

  Each category belongs to exactly one of five groups.  The group of all
  categories is not one of the five.
-/
import ShapeEstimator.Fault
import ShapeEstimator.Text.Blank

namespace ShapeEstimator

/-! ## §1. Categories. -/

/-- A kind of shape. -/
inductive Category where
  /-- Rectangular plate. -/
  | rectangularPlate
  /-- Circular plate. -/
  | circularPlate
  /-- Ring. -/
  | annularPlate
  /-- Tube rolled from plate. -/
  | rolledTube
  /-- Pipe without a seam. -/
  | seamlessPipe
  /-- Nozzle neck. -/
  | nozzle
  /-- Half a sphere. -/
  | hemisphericalHead
  /-- Half an ellipsoid. -/
  | ellipsoidalHead
  /-- Part of a cone. -/
  | conicalSection
  deriving DecidableEq, Repr

namespace Category

/-- All categories, in order. -/
def all : List Category :=
  [.rectangularPlate, .circularPlate, .annularPlate, .rolledTube, .seamlessPipe, .nozzle,
    .hemisphericalHead, .ellipsoidalHead, .conicalSection]

/-- The name of a category in records. -/
def name : Category → String
  | .rectangularPlate => "rectangular_plate"
  | .circularPlate => "circular_plate"
  | .annularPlate => "annular_plate"
  | .rolledTube => "rolled_tube"
  | .seamlessPipe => "seamless_pipe"
  | .nozzle => "nozzle"
  | .hemisphericalHead => "hemispherical_head"
  | .ellipsoidalHead => "ellipsoidal_head"
  | .conicalSection => "conical_section"

/-- The name of a category for people. -/
def displayName : Category → String
  | .rectangularPlate => "Rectangular Plate"
  | .circularPlate => "Circular Plate"
  | .annularPlate => "Annular Plate"
  | .rolledTube => "Rolled Tube"
  | .seamlessPipe => "Seamless Pipe"
  | .nozzle => "Nozzle"
  | .hemisphericalHead => "Hemispherical Head"
  | .ellipsoidalHead => "Ellipsoidal Head"
  | .conicalSection => "Conical Section"

theorem mem_all (c : Category) : c ∈ all := by cases c <;> decide

end Category

/-! ## §2. Groups. -/

/-- A group of categories. -/
inductive Group where
  /-- Every category. -/
  | all
  /-- Plates. -/
  | plates
  /-- Tubes and pipes. -/
  | tubes
  /-- Nozzles. -/
  | nozzles
  /-- Heads. -/
  | heads
  /-- Cones. -/
  | cones
  deriving DecidableEq, Repr

namespace Group

/-- The five groups, in browsing order. -/
def concrete : List Group := [.plates, .tubes, .nozzles, .heads, .cones]

/-- The name of a group. -/
def name : Group → String
  | .all => "all"
  | .plates => "plates"
  | .tubes => "tubes"
  | .nozzles => "nozzles"
  | .heads => "heads"
  | .cones => "cones"

/-- The letters that codes of a group's shapes start with. -/
def codeLetters : Group → String
  | .all => "SHP"
  | .plates => "PLT"
  | .tubes => "TUB"
  | .nozzles => "NOZ"
  | .heads => "HED"
  | .cones => "CON"

/-- The categories of a group. -/
def categories : Group → List Category
  | .all => Category.all
  | .plates => [.rectangularPlate, .circularPlate, .annularPlate]
  | .tubes => [.rolledTube, .seamlessPipe]
  | .nozzles => [.nozzle]
  | .heads => [.hemisphericalHead, .ellipsoidalHead]
  | .cones => [.conicalSection]

/-- Whether a category belongs to a group. -/
def contains (g : Group) (c : Category) : Bool := decide (c ∈ g.categories)

/-- The one of the five groups that a category belongs to. -/
def ofCategory (c : Category) : Group := (concrete.find? fun g => g.contains c).getD .all

/-- The group with the given name, white space around it and the case of ASCII letters aside. -/
def ofName? (name : String) : Except Fault Group :=
  let plain := String.ofList ((Text.trimBlanks name).toList.map Char.toLower)
  match (.all :: concrete).find? fun g => g.name == plain with
  | some g => .ok g
  | none => .error (.unknownCategoryGroup name)

theorem contains_ofCategory (c : Category) : (ofCategory c).contains c = true := by
  cases c <;> decide

/-- No category belongs to two of the five groups. -/
theorem eq_ofCategory {g : Group} {c : Category} (hg : g ∈ concrete) (h : g.contains c = true) :
    g = ofCategory c := by
  cases g <;> cases c <;> revert hg h <;> decide

end Group

end ShapeEstimator
