/-
  ShapeEstimator.Catalog.Standard.Plates
  ────────────────────────────────
  **STANDARD PLATES.**

  Flat shapes cut from plate: a rectangle, a disc and a ring.
-/
import ShapeEstimator.Catalog.Standard.Parts

namespace ShapeEstimator.Standard

/-- The formulas that use the length or the width of a rectangular plate. -/
def outlineFormulas : List String :=
  ["volume", "weight", "surfaceArea", "finishedArea", "blankArea", "scrapPercentage",
    "perimeter", "edgeLength", "blank"]

/-- A rectangular plate. -/
def rectangularPlate : Shape :=
  (Shape.new "rectangular_plate" "Rectangular Plate" .rectangularPlate)
    |>.withDescription "Flat plate cut to length and width from stock"
    |>.withParameter ((dimension "L" "Length" 1 20000).usedIn outlineFormulas)
    |>.withParameter ((dimension "W" "Width" 1 4000).usedIn outlineFormulas)
    |>.withParameter (thickness.usedIn ["volume", "weight", "surfaceArea"])
    |>.withParameter (allowance.usedIn ["blankArea", "scrapPercentage", "blank"])
    |>.withFormula "volume" (volume "L * W * t" ["L", "W", "t"])
    |>.withFormula "weight" (weight "L * W * t" ["L", "W", "t"])
    |>.withFormula "surfaceArea"
      (area "2 * L * W + 2 * t * (L + W)" ["L", "W", "t"] "Both faces plus edges")
    |>.withFormula "finishedArea" (area "L * W" ["L", "W"] "Finished face area")
    |>.withFormula "blankArea"
      (area "(L + 2*a) * (W + 2*a)" ["L", "W", "a"] "Blank face area")
    |>.withFormula "scrapPercentage"
      (scrapShare "((L + 2*a) * (W + 2*a) - L * W) / ((L + 2*a) * (W + 2*a)) * 100"
        ["L", "W", "a"])
    |>.withFormula "perimeter" (length "2 * (L + W)" ["L", "W"] "Cutting length")
    |>.withFormula "edgeLength" (length "2 * (L + W)" ["L", "W"] "Edges to prepare")
    |>.withBlank "blank"
      (rectangularBlank "L + 2*a" ["L", "a"] "W + 2*a" ["W", "a"]
        "Rectangular blank with allowance all round")
    |>.withRule "width_exceeds_thickness" "W - t" "Width should exceed thickness"

/-- A disc. -/
def circularPlate : Shape :=
  (Shape.new "circular_plate" "Circular Plate" .circularPlate)
    |>.withDescription "Disc profile-cut from a square blank"
    |>.withParameter (dimension "D" "Diameter" 10 6000)
    |>.withParameter thickness
    |>.withParameter allowance
    |>.withFormula "volume" (volume "pi * D^2 / 4 * t" ["D", "t"])
    |>.withFormula "weight" (weight "pi * D^2 / 4 * t" ["D", "t"])
    |>.withFormula "surfaceArea"
      (area "2 * pi * D^2 / 4 + pi * D * t" ["D", "t"] "Both faces plus rim")
    |>.withFormula "finishedArea" (area "pi * D^2 / 4" ["D"] "Finished face area")
    |>.withFormula "blankArea" (area "(D + 2*a)^2" ["D", "a"] "Square blank area")
    |>.withFormula "scrapPercentage"
      (scrapShare "(1 - pi * D^2 / 4 / (D + 2*a)^2) * 100" ["D", "a"])
    |>.withFormula "perimeter" (length "pi * D" ["D"] "Cutting length")
    |>.withFormula "edgeLength" (length "pi * D" ["D"] "Edges to prepare")
    |>.withBlank "blank"
      (rectangularBlank "D + 2*a" ["D", "a"] "D + 2*a" ["D", "a"] "Square blank")

/-- The area of a ring. -/
def ringArea : String := "pi / 4 * (OD^2 - ID^2)"

/-- A ring. -/
def annularPlate : Shape :=
  (Shape.new "annular_plate" "Annular Plate" .annularPlate)
    |>.withDescription "Ring plate for flanges, stiffeners and base rings"
    |>.withParameter (dimension "OD" "Outside Diameter" 20 6000)
    |>.withParameter (dimension "ID" "Inside Diameter" 0 5990)
    |>.withParameter thickness
    |>.withParameter allowance
    |>.withFormula "volume" (volume (ringArea ++ " * t") ["OD", "ID", "t"])
    |>.withFormula "weight" (weight (ringArea ++ " * t") ["OD", "ID", "t"])
    |>.withFormula "surfaceArea"
      (area "2 * pi / 4 * (OD^2 - ID^2) + pi * (OD + ID) * t" ["OD", "ID", "t"]
        "Both faces plus rims")
    |>.withFormula "finishedArea" (area ringArea ["OD", "ID"] "Finished face area")
    |>.withFormula "blankArea" (area "(OD + 2*a)^2" ["OD", "a"] "Square blank area")
    |>.withFormula "perimeter" (length "pi * (OD + ID)" ["OD", "ID"] "Outer and inner cut")
    |>.withFormula "edgeLength" (length "pi * (OD + ID)" ["OD", "ID"] "Edges to prepare")
    |>.withRule "ring_has_width" "OD - ID" "Outside diameter must exceed inside diameter"

end ShapeEstimator.Standard
