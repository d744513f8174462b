import ShapeEstimator.Catalog.Consistency
import ShapeEstimator.Catalog.Record
import ShapeEstimator.Catalog.Standard
import ShapeEstimator.Catalog.Structure
import ShapeEstimator.CommandLine.Run
import ShapeEstimator.Estimate.Record
import ShapeEstimator.Estimate.Run
import ShapeEstimator.Formula.Outcomes
import ShapeEstimator.Formula.Record
import ShapeEstimator.Json.Reader
import ShapeEstimator.Json.Writer
import ShapeEstimator.Main
import ShapeEstimator.Measure
import ShapeEstimator.Pricing.Record
import ShapeEstimator.Pricing.Resolution
import ShapeEstimator.Proofs.Catalog.Defaults
import ShapeEstimator.Proofs.Catalog.Listing
import ShapeEstimator.Proofs.Catalog.Standard
import ShapeEstimator.Proofs.Catalog.Usage
import ShapeEstimator.Proofs.CommandLine.Equivalence
import ShapeEstimator.Proofs.CommandLine.Evaluation
import ShapeEstimator.Proofs.Estimate.Collisions
import ShapeEstimator.Proofs.Estimate.FailingFormulas
import ShapeEstimator.Proofs.Estimate.Prices
import ShapeEstimator.Proofs.Estimate.Readable
import ShapeEstimator.Proofs.Estimate.Scrap
import ShapeEstimator.Proofs.Formula.Calls
import ShapeEstimator.Proofs.Formula.Classification
import ShapeEstimator.Proofs.Formula.ExactValue
import ShapeEstimator.Proofs.Formula.FirstFault
import ShapeEstimator.Proofs.Formula.FractionalPower
import ShapeEstimator.Proofs.Formula.Height
import ShapeEstimator.Proofs.Formula.Isolation
import ShapeEstimator.Proofs.Formula.Layout
import ShapeEstimator.Proofs.Formula.Levels
import ShapeEstimator.Proofs.Formula.Literal
import ShapeEstimator.Proofs.Formula.Power
import ShapeEstimator.Proofs.Formula.ReservedWords
import ShapeEstimator.Proofs.Formula.RoundTrip
import ShapeEstimator.Proofs.Formula.ZeroSign
import ShapeEstimator.Proofs.Pricing.Precedence
import ShapeEstimator.Proofs.Pricing.WallThickness
