/-
  ShapeEstimator.Catalog.Standard
  ────────────────────────────────
  **THE STANDARD CATALOG.**

  Nine shapes: three plates, two tubes, a nozzle neck, two heads and a cone.
-/
import ShapeEstimator.Catalog.Listing
import ShapeEstimator.Catalog.Standard.Heads
import ShapeEstimator.Catalog.Standard.Plates
import ShapeEstimator.Catalog.Standard.Tubes

namespace ShapeEstimator

/-- The shapes that come with the library. -/
def Catalog.standard : Catalog where
  shapes :=
    [Standard.rectangularPlate, Standard.circularPlate, Standard.annularPlate,
      Standard.rolledTube, Standard.seamlessPipe, Standard.nozzle, Standard.hemisphericalHead,
      Standard.ellipsoidalHead, Standard.conicalSection]

end ShapeEstimator
