/-
  ShapeEstimator.Catalog.Standard.Heads
  ────────────────────────────────
  **STANDARD HEADS AND CONES.**

  Heads are pressed from circular blanks.  An ellipsoidal head has an inner area
  of about 1.084 times its squared diameter, and its blank is 1.24 times as wide
  as its outside with the straight flange added.
-/
import ShapeEstimator.Catalog.Standard.Parts

namespace ShapeEstimator.Standard

/-! ## §1. Heads. -/

/-- The volume of the wall of a hemisphere. -/
def hemisphereVolume : String := "2 / 3 * pi * ((D/2 + t)^3 - (D/2)^3)"

/-- The diameter of the blank of a hemisphere. -/
def hemisphereBlank : String := "sqrt(2) * (D + t)"

/-- A hemispherical head. -/
def hemisphericalHead : Shape :=
  (Shape.new "hemispherical_head" "Hemispherical Head" .hemisphericalHead)
    |>.withDescription "Pressed hemisphere from a circular blank"
    |>.withParameter (dimension "D" "Inside Diameter" 100 6000)
    |>.withParameter thickness
    |>.withParameter allowance
    |>.withFormula "volume" (volume hemisphereVolume ["D", "t"])
    |>.withFormula "weight" (weight hemisphereVolume ["D", "t"])
    |>.withFormula "innerSurfaceArea" (area "2 * pi * (D/2)^2" ["D"] "Inside surface")
    |>.withFormula "outerSurfaceArea"
      (area "2 * pi * (D/2 + t)^2" ["D", "t"] "Outside surface")
    |>.withFormula "surfaceArea"
      (area "2 * pi * (D/2)^2 + 2 * pi * (D/2 + t)^2" ["D", "t"] "Inside plus outside surface")
    |>.withFormula "wettedArea"
      (area "2 * pi * (D/2)^2" ["D"] "Surface in contact with contents")
    |>.withFormula "finishedArea"
      (area ("pi * (" ++ hemisphereBlank ++ ")^2 / 4") ["D", "t"] "Circular blank area")
    |>.withFormula "blankArea"
      (area ("(" ++ hemisphereBlank ++ " + 2*a)^2") ["D", "t", "a"]
        "Square plate the blank is cut from")
    |>.withFormula "perimeter"
      (length ("pi * " ++ hemisphereBlank) ["D", "t"] "Blank cutting length")
    |>.withFormula "weldLength" (length "pi * (D + t)" ["D", "t"] "Head-to-shell seam")
    |>.withFormula "edgeLength" (length "pi * (D + 2*t)" ["D", "t"] "Skirt edge to bevel")
    |>.withBlank "blank"
      (circularBlank (hemisphereBlank ++ " + 2*a") ["D", "t", "a"] "Circular pressing blank")
    |>.withMaterials MaterialCategory.steels

/-- The volume of the wall of an ellipsoidal head. -/
def ellipsoidVolume : String := "(1.084 * (D + t)^2 + pi * (D + t) * sf) * t"

/-- The diameter of the blank of an ellipsoidal head. -/
def ellipsoidBlank : String := "(1.24 * (D + 2*t) + 2*sf)"

/-- An ellipsoidal head, twice as wide as it is high. -/
def ellipsoidalHead : Shape :=
  (Shape.new "ellipsoidal_head" "2:1 Ellipsoidal Head" .ellipsoidalHead)
    |>.withDescription "Semi-ellipsoidal 2:1 dished head with straight flange"
    |>.withParameter (dimension "D" "Inside Diameter" 150 6000)
    |>.withParameter thickness
    |>.withParameter ((dimension "sf" "Straight Flange" 0 150).withDefault 40)
    |>.withParameter allowance
    |>.withFormula "volume" (volume ellipsoidVolume ["D", "t", "sf"])
    |>.withFormula "weight" (weight ellipsoidVolume ["D", "t", "sf"])
    |>.withFormula "innerSurfaceArea"
      (area "1.084 * D^2 + pi * D * sf" ["D", "sf"] "Inside surface")
    |>.withFormula "outerSurfaceArea"
      (area "1.084 * (D + 2*t)^2 + pi * (D + 2*t) * sf" ["D", "t", "sf"] "Outside surface")
    |>.withFormula "surfaceArea"
      (area "1.084 * D^2 + pi * D * sf + 1.084 * (D + 2*t)^2 + pi * (D + 2*t) * sf"
        ["D", "t", "sf"] "Inside plus outside surface")
    |>.withFormula "wettedArea"
      (area "1.084 * D^2 + pi * D * sf" ["D", "sf"] "Surface in contact with contents")
    |>.withFormula "finishedArea"
      (area ("pi * " ++ ellipsoidBlank ++ "^2 / 4") ["D", "t", "sf"] "Circular blank area")
    |>.withFormula "blankArea"
      (area ("(" ++ ellipsoidBlank ++ " + 2*a)^2") ["D", "t", "sf", "a"]
        "Square plate the blank is cut from")
    |>.withFormula "perimeter"
      (length ("pi * " ++ ellipsoidBlank) ["D", "t", "sf"] "Blank cutting length")
    |>.withFormula "weldLength" (length "pi * (D + t)" ["D", "t"] "Head-to-shell seam")
    |>.withFormula "edgeLength" (length "pi * (D + 2*t)" ["D", "t"] "Skirt edge to bevel")
    |>.withBlank "blank"
      (circularBlank (ellipsoidBlank ++ " + 2*a") ["D", "t", "sf", "a"]
        "Circular pressing blank")
    |>.withMaterials MaterialCategory.steels

/-! ## §2. Cones. -/

/-- The slant height of a cone between two diameters. -/
def slantHeight : String := "sqrt(H^2 + ((D1 - D2) / 2)^2)"

/-- The volume of the wall of a cone. -/
def coneVolume : String := "pi * (D1 + D2 + 2*t) / 2 * " ++ slantHeight ++ " * t"

/-- The lengths of the two ends of a cone, at the middle of the wall. -/
def girths : String := " + pi * (D1 + t) + pi * (D2 + t)"

/-- Half the angle at the apex, in degrees; steep cones need another design. -/
def halfApexAngle : Formula.Definition :=
  let f : Formula.Definition :=
    { expression := "rad2deg(atan((D1 - D2) / (2 * H)))", declared := ["D1", "D2", "H"]
      unit := "°", description := "Half apex angle" }
  f.withExpectedRange 0 60 "Half apex angle above 60° needs a toriconical design"

/-- A section of a cone. -/
def conicalSection : Shape :=
  (Shape.new "conical_section" "Concentric Cone" .conicalSection)
    |>.withDescription "Rolled concentric reducer cone with one longitudinal seam"
    |>.withParameter (dimension "D1" "Large End Inside Diameter" 50 8000)
    |>.withParameter (dimension "D2" "Small End Inside Diameter" 20 8000)
    |>.withParameter (dimension "H" "Height" 10 10000)
    |>.withParameter thickness
    |>.withFormula "volume" (volume coneVolume ["D1", "D2", "H", "t"])
    |>.withFormula "weight" (weight coneVolume ["D1", "D2", "H", "t"])
    |>.withFormula "innerSurfaceArea"
      (area ("pi * (D1 + D2) / 2 * " ++ slantHeight) ["D1", "D2", "H"] "Inside surface")
    |>.withFormula "outerSurfaceArea"
      (area ("pi * (D1 + D2 + 4*t) / 2 * " ++ slantHeight) ["D1", "D2", "H", "t"]
        "Outside surface")
    |>.withFormula "surfaceArea"
      (area ("pi * (D1 + D2 + 2*t) * " ++ slantHeight) ["D1", "D2", "H", "t"]
        "Inside plus outside surface")
    |>.withFormula "wettedArea"
      (area ("pi * (D1 + D2) / 2 * " ++ slantHeight) ["D1", "D2", "H"]
        "Surface in contact with contents")
    |>.withFormula "weldLength"
      (length (slantHeight ++ girths) ["D1", "D2", "H", "t"] "Long seam and both girth seams")
    |>.withFormula "edgeLength"
      (length ("2 * " ++ slantHeight ++ girths) ["D1", "D2", "H", "t"]
        "Seam and end edges to bevel")
    |>.withFormula "perimeter"
      (length ("2 * " ++ slantHeight ++ girths) ["D1", "D2", "H", "t"]
        "Developed blank outline")
    |>.withCustomFormulas "geometry"
      [⟨"slantHeight", length slantHeight ["D1", "D2", "H"] "Slant height"⟩,
        ⟨"halfApexAngle", halfApexAngle⟩]
    |>.withRule "large_end_is_larger" "D1 - D2"
      "Large end diameter must exceed small end diameter"

end ShapeEstimator.Standard
