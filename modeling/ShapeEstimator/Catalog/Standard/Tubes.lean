/-
  ShapeEstimator.Catalog.Standard.Tubes
  ────────────────────────────────
  **STANDARD TUBES AND NOZZLES.**

  Cylinders with a wall: a tube rolled from plate, a pipe without a seam, and the
  neck of a nozzle.
-/
import ShapeEstimator.Catalog.Standard.Parts

namespace ShapeEstimator.Standard

/-- The volume of the wall of a tube. -/
def shellVolume : String := "pi * ((OD/2)^2 - (OD/2 - t)^2) * L"

/-- What to say about a wall that fills the tube. -/
def wallMessage : String := "Wall thickness must be less than half the outside diameter"

/-- A tube rolled from plate. -/
def rolledTube : Shape :=
  (Shape.new "rolled_tube" "Rolled Tube" .rolledTube)
    |>.withDescription "Plate rolled to a cylinder with one longitudinal seam"
    |>.withParameter (dimension "OD" "Outside Diameter" 50 8000)
    |>.withParameter thickness
    |>.withParameter (dimension "L" "Length" 10 12000)
    |>.withParameter allowance
    |>.withFormula "volume" (volume shellVolume ["OD", "t", "L"])
    |>.withFormula "weight" (weight shellVolume ["OD", "t", "L"])
    |>.withFormula "outerSurfaceArea" (area "pi * OD * L" ["OD", "L"] "Outside surface")
    |>.withFormula "innerSurfaceArea"
      (area "pi * (OD - 2*t) * L" ["OD", "t", "L"] "Inside surface")
    |>.withFormula "surfaceArea"
      (area "pi * OD * L + pi * (OD - 2*t) * L" ["OD", "t", "L"] "Inside plus outside surface")
    |>.withFormula "wettedArea"
      (area "pi * (OD - 2*t) * L" ["OD", "t", "L"] "Surface in contact with contents")
    |>.withFormula "finishedArea"
      (area "pi * (OD - t) * L" ["OD", "t", "L"] "Developed plate at mean diameter")
    |>.withFormula "blankArea"
      (area "(pi * (OD - t) + 2*a) * (L + 2*a)" ["OD", "t", "L", "a"] "Blank plate area")
    |>.withFormula "perimeter"
      (length "2 * (pi * (OD - t) + L)" ["OD", "t", "L"] "Blank cutting length")
    |>.withFormula "edgeLength"
      (length "2 * L + 2 * pi * (OD - t)" ["OD", "t", "L"] "Seam and end edges to bevel")
    |>.withFormula "weldLength" (length "L" ["L"] "Longitudinal seam")
    |>.withBlank "blank"
      (rectangularBlank "pi * (OD - t) + 2*a" ["OD", "t", "a"] "L + 2*a" ["L", "a"]
        "Flat plate before rolling")
    |>.withRule "wall_fits" "OD - 2*t" wallMessage

/-- A pipe without a seam. -/
def seamlessPipe : Shape :=
  (Shape.new "seamless_pipe" "Seamless Pipe" .seamlessPipe)
    |>.withDescription "Pipe cut to length, both ends bevelled"
    |>.withParameter (dimension "OD" "Outside Diameter" 10 1200)
    |>.withParameter thickness
    |>.withParameter (dimension "L" "Length" 10 12000)
    |>.withFormula "volume" (volume shellVolume ["OD", "t", "L"])
    |>.withFormula "weight" (weight shellVolume ["OD", "t", "L"])
    |>.withFormula "outerSurfaceArea" (area "pi * OD * L" ["OD", "L"] "Outside surface")
    |>.withFormula "innerSurfaceArea"
      (area "pi * (OD - 2*t) * L" ["OD", "t", "L"] "Inside surface")
    |>.withFormula "surfaceArea"
      (area "pi * OD * L + pi * (OD - 2*t) * L" ["OD", "t", "L"] "Inside plus outside surface")
    |>.withFormula "wettedArea"
      (area "pi * (OD - 2*t) * L" ["OD", "t", "L"] "Surface in contact with contents")
    |>.withFormula "perimeter" (length "2 * pi * OD" ["OD"] "Two end cuts")
    |>.withFormula "edgeLength" (length "2 * pi * OD" ["OD"] "Two end bevels")
    |>.withRule "wall_fits" "OD - 2*t" wallMessage

/-- The volume of the wall of a nozzle neck. -/
def neckVolume : String := "pi * ((d/2)^2 - (d/2 - t)^2) * h"

/-- The neck of a nozzle. -/
def nozzle : Shape :=
  (Shape.new "nozzle" "Nozzle Neck" .nozzle)
    |>.withDescription "Set-on nozzle neck welded to the shell and to its flange"
    |>.withParameter (dimension "d" "Neck Outside Diameter" 20 2000)
    |>.withParameter thickness
    |>.withParameter ((dimension "h" "Projection" 20 1000).withDefault 150)
    |>.withFormula "volume" (volume neckVolume ["d", "t", "h"])
    |>.withFormula "weight" (weight neckVolume ["d", "t", "h"])
    |>.withFormula "outerSurfaceArea" (area "pi * d * h" ["d", "h"] "Outside surface")
    |>.withFormula "innerSurfaceArea"
      (area "pi * (d - 2*t) * h" ["d", "t", "h"] "Inside surface")
    |>.withFormula "surfaceArea"
      (area "pi * d * h + pi * (d - 2*t) * h" ["d", "t", "h"] "Inside plus outside surface")
    |>.withFormula "wettedArea"
      (area "pi * (d - 2*t) * h" ["d", "t", "h"] "Surface in contact with contents")
    |>.withFormula "perimeter" (length "2 * pi * d" ["d"] "Two end cuts")
    |>.withFormula "edgeLength" (length "2 * pi * d" ["d"] "Two end bevels")
    |>.withFormula "weldLength"
      (length "2 * pi * d" ["d"] "Shell and flange attachment welds")
    |>.withCustomFormulas "reinforcement"
      [⟨"openingArea", area "pi * (d - 2*t)^2 / 4" ["d", "t"] "Shell opening"⟩,
        ⟨"padDiameter", length "2 * d" ["d"] "Reinforcement pad outside diameter"⟩]
    |>.withMaterials MaterialCategory.steels
    |>.withFabricationCost { baseCost := some 750, laborHours := some 1.5 }
    |>.withRule "wall_fits" "d - 2*t"
      "Wall thickness must be less than half the neck diameter"

end ShapeEstimator.Standard
