/-
  ShapeEstimator.Proofs.Pricing.Precedence
  ────────────────────────────────
  **WHICH SOURCE A RATE COMES FROM.**

  The eight rates are fields of three records: those a request gives, those a shape
  gives, and those of the settings.  Read and written by field, every rate obeys

      rate f  =  request f  else  shape f  else  default f × factor f

  and from this law the records follow as wholes: what a shape gives may as well be
  given by the request, where this leaves it open; a rate that is given changes no other;
  and the factors of the material reach the defaults only.
-/
import ShapeEstimator.Pricing.Resolution

namespace ShapeEstimator

/-! ## §1. Records of rates by field. -/

/-- The fields of a record of rates. -/
inductive RateField where
  /-- Cost of cutting a metre. -/
  | cuttingPerMeter
  /-- Cost of preparing a metre of edge. -/
  | edgePreparationPerMeter
  /-- Cost of welding a metre. -/
  | weldingPerMeter
  /-- Cost of treating a square metre of surface. -/
  | surfaceTreatmentPerSqm
  /-- Fixed cost of a piece. -/
  | baseCost
  /-- Cost per kilogram. -/
  | costPerKg
  /-- Hours of labour for a piece. -/
  | laborHours
  /-- Cost of an hour of labour. -/
  | laborRatePerHour
  deriving DecidableEq, Repr

namespace Rates

/-- The rate of a field. -/
def get (r : Rates) : RateField → Float
  | .cuttingPerMeter => r.cuttingPerMeter
  | .edgePreparationPerMeter => r.edgePreparationPerMeter
  | .weldingPerMeter => r.weldingPerMeter
  | .surfaceTreatmentPerSqm => r.surfaceTreatmentPerSqm
  | .baseCost => r.baseCost
  | .costPerKg => r.costPerKg
  | .laborHours => r.laborHours
  | .laborRatePerHour => r.laborRatePerHour

/-- The rates with another rate for a field. -/
def set (r : Rates) (f : RateField) (v : Float) : Rates :=
  match f with
  | .cuttingPerMeter => { r with cuttingPerMeter := v }
  | .edgePreparationPerMeter => { r with edgePreparationPerMeter := v }
  | .weldingPerMeter => { r with weldingPerMeter := v }
  | .surfaceTreatmentPerSqm => { r with surfaceTreatmentPerSqm := v }
  | .baseCost => { r with baseCost := v }
  | .costPerKg => { r with costPerKg := v }
  | .laborHours => { r with laborHours := v }
  | .laborRatePerHour => { r with laborRatePerHour := v }

variable {a b : Rates} {f g : RateField} {v : Float}

theorem get_set : (a.set f v).get g = if g = f then v else a.get g := by
  cases f <;> cases g <;> rfl

/-- Rates are determined by their fields. -/
theorem ext_get (h : ∀ f, a.get f = b.get f) : a = b := by
  obtain ⟨a₁, a₂, a₃, a₄, a₅, a₆, a₇, a₈⟩ := a
  obtain ⟨b₁, b₂, b₃, b₄, b₅, b₆, b₇, b₈⟩ := b
  congr 1
  · exact h .cuttingPerMeter
  · exact h .edgePreparationPerMeter
  · exact h .weldingPerMeter
  · exact h .surfaceTreatmentPerSqm
  · exact h .baseCost
  · exact h .costPerKg
  · exact h .laborHours
  · exact h .laborRatePerHour

end Rates

namespace RateOverrides

/-- The rate that is given for a field. -/
def get (o : RateOverrides) : RateField → Option Float
  | .cuttingPerMeter => o.cuttingPerMeter
  | .edgePreparationPerMeter => o.edgePreparationPerMeter
  | .weldingPerMeter => o.weldingPerMeter
  | .surfaceTreatmentPerSqm => o.surfaceTreatmentPerSqm
  | .baseCost => o.baseCost
  | .costPerKg => o.costPerKg
  | .laborHours => o.laborHours
  | .laborRatePerHour => o.laborRatePerHour

/-- The rates that are given, and one more or another one. -/
def give (o : RateOverrides) (f : RateField) (v : Float) : RateOverrides :=
  match f with
  | .cuttingPerMeter => { o with cuttingPerMeter := some v }
  | .edgePreparationPerMeter => { o with edgePreparationPerMeter := some v }
  | .weldingPerMeter => { o with weldingPerMeter := some v }
  | .surfaceTreatmentPerSqm => { o with surfaceTreatmentPerSqm := some v }
  | .baseCost => { o with baseCost := some v }
  | .costPerKg => { o with costPerKg := some v }
  | .laborHours => { o with laborHours := some v }
  | .laborRatePerHour => { o with laborRatePerHour := some v }

/-- The rates that are given by the first of two, and where it leaves a field open, by the
second. -/
def orElse (u s : RateOverrides) : RateOverrides where
  cuttingPerMeter := u.cuttingPerMeter.or s.cuttingPerMeter
  edgePreparationPerMeter := u.edgePreparationPerMeter.or s.edgePreparationPerMeter
  weldingPerMeter := u.weldingPerMeter.or s.weldingPerMeter
  surfaceTreatmentPerSqm := u.surfaceTreatmentPerSqm.or s.surfaceTreatmentPerSqm
  baseCost := u.baseCost.or s.baseCost
  costPerKg := u.costPerKg.or s.costPerKg
  laborHours := u.laborHours.or s.laborHours
  laborRatePerHour := u.laborRatePerHour.or s.laborRatePerHour

variable {o u s : RateOverrides} {f g : RateField} {v : Float}

theorem get_give : (o.give f v).get g = if g = f then some v else o.get g := by
  cases f <;> cases g <;> rfl

theorem get_orElse : (u.orElse s).get f = (u.get f).or (s.get f) := by
  cases f <;> rfl

theorem get_empty : ({} : RateOverrides).get f = none := by
  cases f <;> rfl

end RateOverrides

/-- The rate that the settings have for a field: the default, and for work on the material the
default times the factor of its family. -/
def Settings.engineRate (s : Settings) (shape : Category) (material : MaterialCategory) :
    RateField → Float
  | .cuttingPerMeter => s.defaultRates.cuttingPerMeter * (s.factorsFor material).cutting
  | .edgePreparationPerMeter =>
    s.defaultRates.edgePreparationPerMeter * (s.factorsFor material).edgePreparation
  | .weldingPerMeter => s.defaultRates.weldingPerMeter * (s.factorsFor material).welding
  | .surfaceTreatmentPerSqm =>
    s.defaultRates.surfaceTreatmentPerSqm * (s.factorsFor material).surfaceTreatment
  | .baseCost => s.defaultRates.baseCost
  | .costPerKg => s.defaultRates.costPerKg
  | .laborHours => s.laborHoursFor shape * (s.factorsFor material).labor
  | .laborRatePerHour => s.defaultRates.laborRatePerHour

/-! ## §2. The law of one field. -/

namespace RateRequest

/-- The rate that the request gives for a field, or else the shape. -/
def given (r : RateRequest) (f : RateField) : Option Float :=
  (r.userOverrides.bind (·.get f)).or (r.shapeRates.bind (·.get f))

/-- The request that gives itself what the shape gives besides. -/
def merged (r : RateRequest) : RateRequest :=
  { r with
    shapeRates := none
    userOverrides := some ((r.userOverrides.getD {}).orElse (r.shapeRates.getD {})) }

/-- The request that gives one more rate, or another one. -/
def giving (r : RateRequest) (f : RateField) (v : Float) : RateRequest :=
  { r with userOverrides := some ((r.userOverrides.getD {}).give f v) }

variable {r : RateRequest} {s : Settings} {f g : RateField} {v : Float}

/-- A rate is the one that is given, and if none is, that of the settings. -/
theorem get_resolve :
    (r.resolve s).get f
      = (r.given f).getD (s.engineRate r.shapeCategory r.materialCategory f) := by
  cases f <;> rfl

theorem get_getD_empty {o : Option RateOverrides} : (o.getD {}).get f = o.bind (·.get f) := by
  cases o with
  | none => exact RateOverrides.get_empty
  | some o => rfl

theorem given_merged : r.merged.given f = r.given f := by
  change (((r.userOverrides.getD {}).orElse (r.shapeRates.getD {})).get f).or none = r.given f
  rw [RateOverrides.get_orElse, get_getD_empty, get_getD_empty, Option.or_none]
  rfl

theorem given_giving : (r.giving f v).given g = if g = f then some v else r.given g := by
  change (((r.userOverrides.getD {}).give f v).get g).or (r.shapeRates.bind (·.get g)) = _
  rw [RateOverrides.get_give, get_getD_empty]
  split
  · rfl
  · rfl

/-! ## §3. Precedence. -/

theorem resolve_merged : r.merged.resolve s = r.resolve s := by
  apply Rates.ext_get
  intro f
  rw [get_resolve, get_resolve, given_merged]
  rfl

theorem resolve_giving : (r.giving f v).resolve s = (r.resolve s).set f v := by
  apply Rates.ext_get
  intro g
  rw [get_resolve, given_giving, Rates.get_set]
  by_cases hg : g = f
  · rw [if_pos hg, if_pos hg]
    rfl
  · rw [if_neg hg, if_neg hg, get_resolve]
    rfl

/-- **Which source counts.**  What the shape gives counts as given by the request where this leaves
it open.  To give a rate in the request sets this rate and no other, whatever its value.  A rate
that is given by either is the same for all settings, categories and families of material, and a
rate that is given by none is that of the settings. -/
theorem resolve_precedence (r : RateRequest) :
    (∀ s, r.resolve s = r.merged.resolve s)
      ∧ (∀ s f v, (r.giving f v).resolve s = (r.resolve s).set f v)
      ∧ (∀ f v, r.given f = some v → ∀ s shape material,
          ({ r with shapeCategory := shape, materialCategory := material }.resolve s).get f = v)
      ∧ ∀ f, r.given f = none → ∀ s,
          (r.resolve s).get f = s.engineRate r.shapeCategory r.materialCategory f := by
  refine ⟨fun s => resolve_merged.symm, fun s f v => resolve_giving, ?_, ?_⟩
  · intro f v hgiven s shape material
    -- categories play no part in what is given
    change ({ r with shapeCategory := shape, materialCategory := material } : RateRequest).given f
      = some v at hgiven
    rw [get_resolve, hgiven]
    rfl
  · intro f hgiven s
    rw [get_resolve, hgiven]
    rfl

/-- A titanium pipe whose shape gives a rate of welding, and whose request refunds the cutting. -/
def refundedPipe : RateRequest where
  shapeRates := some { weldingPerMeter := some 600, cuttingPerMeter := some 40 }
  shapeCategory := .seamlessPipe
  materialCategory := .titanium
  userOverrides := some { cuttingPerMeter := some (-5) }

/-- For the pipe, cutting comes from the request and welding from the shape, both as they are; the
preparation of edges costs the default times the factor of titanium. -/
theorem refundedPipe_rates :
    (refundedPipe.given .cuttingPerMeter = some (-5)
      ∧ (refundedPipe.resolve {}).get .cuttingPerMeter = -5)
    ∧ (refundedPipe.given .weldingPerMeter = some 600
      ∧ (refundedPipe.resolve {}).get .weldingPerMeter = 600)
    ∧ (refundedPipe.given .edgePreparationPerMeter = none
      ∧ (refundedPipe.resolve {}).get .edgePreparationPerMeter = 100 * 2) := by
  obtain ⟨_, _, hgiven, hopen⟩ := resolve_precedence refundedPipe
  exact ⟨⟨rfl, hgiven .cuttingPerMeter (-5) rfl {} .seamlessPipe .titanium⟩,
    ⟨rfl, hgiven .weldingPerMeter 600 rfl {} .seamlessPipe .titanium⟩,
    rfl, hopen .edgePreparationPerMeter rfl {}⟩

end RateRequest

end ShapeEstimator
