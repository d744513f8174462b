/-
  ShapeEstimator.Proofs.Catalog.Standard
  ────────────────────────────────
  **THE STANDARD SHAPES ARE SANE, SAVE FOR ONE ROOT.**

  Eight of the nine standard shapes are sane on the whole of their domains.  The
  formulas of the cone take the root of

      H^2 + ((D1 - D2) / 2)^2

  which is positive there, and whose approximations need not come to rest: for a
  cone that is all but a cylinder they can alternate for ever.  The cone is sane
  exactly where they come to rest.
-/
import ShapeEstimator.Catalog.Standard
import ShapeEstimator.Proofs.Catalog.Domain

namespace ShapeEstimator

open Formula (DoubleFunctions Expr Scope parse)

/-! ## §1. Roots in standard formulas. -/

namespace Standard

/-- The root in the blank of a hemisphere. -/
def rootOfTwo : Expr := .call .sqrt [.number .two]

/-- The square of the slant height of a cone. -/
def slantSquare : Expr :=
  .binary .add (.binary .pow (.variable "H") (.number .two))
    (.binary .pow
      (.binary .div (.binary .sub (.variable "D1") (.variable "D2")) (.number .two))
      (.number .two))

/-- The slant height of a cone. -/
def slantRoot : Expr := .call .sqrt [slantSquare]

theorem parse_slantHeight : parse slantHeight = .ok slantRoot :=
  Formula.parse_eq_ok (by decide +kernel)

variable {lib : DoubleFunctions} {scope : Scope}

theorem evaluateWith_sqrt (e : Expr) :
    (Expr.call .sqrt [e]).evaluateWith lib scope
      = e.evaluateWith lib scope >>= Formula.squareRoot := by
  rw [Expr.evaluateWith, Expr.evaluateAllWith, Expr.evaluateAllWith]
  cases e.evaluateWith lib scope <;> rfl

/-- A root whose approximations do not come to rest is aborted. -/
theorem evaluateWith_sqrt_unsettled {e : Expr} {x : Decimal}
    (hx : e.evaluateWith lib scope = .ok x) (h : x.sqrt = .error .unsettled) :
    (Expr.call .sqrt [e]).evaluateWith lib scope = .error (.abort .unsettledRoot) := by
  have hroot : Formula.squareRoot x = .error (.abort .unsettledRoot) := by
    rw [Formula.squareRoot, h]
  rw [evaluateWith_sqrt, hx, ← hroot]
  rfl

/-- The value of a root. -/
theorem evaluateWith_sqrt_eq_ok {e : Expr} {v : Decimal} :
    (Expr.call .sqrt [e]).evaluateWith lib scope = .ok v ↔
      ∃ x, e.evaluateWith lib scope = .ok x ∧ x.sqrt = .ok v := by
  rw [evaluateWith_sqrt, Formula.bind_eq_ok]
  refine exists_congr fun x => and_congr_right fun _ => ?_
  unfold Formula.squareRoot
  split <;> simp_all

theorem rootOfTwo_value : ∃ v, rootOfTwo.evaluateWith lib scope = .ok v := by
  obtain ⟨v, hv⟩ : ∃ v, Decimal.two.sqrt = .ok v :=
    Decimal.exists_sqrt (by rw [Decimal.value_two]; norm_num) (by decide +kernel)
  exact ⟨v, evaluateWith_sqrt_eq_ok.2 ⟨.two, by rw [Expr.evaluateWith], hv⟩⟩

/-! ## §2. The checks. -/

/-- The standard shapes without a slant. -/
def upright : List Shape :=
  [rectangularPlate, circularPlate, annularPlate, rolledTube, seamlessPipe, nozzle,
    hemisphericalHead, ellipsoidalHead]

theorem upright_checks : ∀ s ∈ upright, s.checks [rootOfTwo] = true := by
  -- one shape after the other, since all of them together take much memory
  unfold upright
  simp only [List.forall_mem_cons]
  refine ⟨?_, ?_, ?_, ?_, ?_, ?_, ?_, ?_, fun s hs => absurd hs List.not_mem_nil⟩ <;>
    decide +kernel

theorem cone_checks : conicalSection.checks [slantRoot] = true := by decide +kernel

/-- The square of the slant height is positive on the domain of the cone. -/
theorem slantSquare_range :
    ∃ r, (conicalSection.knowledge []).range ((conicalSection.knowledge []).atMost 1) slantSquare
      = some r ∧ 0 < r.lower := by
  have hfound : (((conicalSection.knowledge []).range
      ((conicalSection.knowledge []).atMost 1) slantSquare).any fun r => decide (0 < r.lower))
        = true := by
    decide +kernel
  obtain ⟨r, hr, hpos⟩ := (Option.any_eq_true _ _).1 hfound
  exact ⟨r, hr, of_decide_eq_true hpos⟩

/-- The cone reports its slant height. -/
theorem slantHeight_mem : ∃ e ∈ conicalSection.compositeEntries, ∃ f ∈ e.2.subFormulas,
    f.2.expression = slantHeight := by
  decide +kernel

end Standard

open Standard (conicalSection slantSquare slantRoot)

/-! ## §3. The catalog. -/

section

variable {lib : DoubleFunctions} {scope : Scope}

/-- On the domain of the cone there is a slant height unless its approximations do not come to
rest. -/
theorem Standard.slantRoot_value (hatan : lib.AtanWithin)
    (h : conicalSection.InDomain lib scope)
    (hrest : ∀ x, slantSquare.evaluateWith lib scope = .ok x → x.sqrt ≠ .error .unsettled) :
    ∃ v, slantRoot.evaluateWith lib scope = .ok v := by
  have hk := h.knowledge_holds [] fun _ he => absurd he List.not_mem_nil
  obtain ⟨r, hr, hpos⟩ := slantSquare_range
  obtain ⟨x, hx, hcontains⟩ :=
    Formula.Knowledge.range_sound hk hatan (Formula.Knowledge.atMost_sound hk hatan 1) _ hr
  have hpositive : 0 < x.value :=
    lt_of_lt_of_le (by exact_mod_cast hpos) hcontains.lower_le
  obtain ⟨v, hv⟩ := Decimal.exists_sqrt hpositive (hrest x hx)
  exact ⟨v, evaluateWith_sqrt_eq_ok.2 ⟨x, hx, hv⟩⟩

/-- **A standard shape is sane on its domain**, and the cone is where the approximations of its slant
height come to rest. -/
theorem Catalog.standard_sane_iff (hatan : lib.AtanWithin) {s : Shape}
    (hs : s ∈ Catalog.standard.shapes) (h : s.InDomain lib scope) :
    s.Sane lib scope ↔
      (s = conicalSection →
        ∀ x, slantSquare.evaluateWith lib scope = .ok x → x.sqrt ≠ .error .unsettled) := by
  constructor
  · rintro hsane rfl x hx hunsettled
    obtain ⟨e, he, f, hf, hslant⟩ := Standard.slantHeight_mem
    obtain ⟨v, tree, htree, hv⟩ := hsane.composite e he f hf
    rw [hslant, Standard.parse_slantHeight] at htree
    cases htree
    obtain ⟨y, hy, hroot⟩ := Standard.evaluateWith_sqrt_eq_ok.1 hv
    rw [Formula.Knowledge.value_unique hx hy, hroot] at hunsettled
    exact nomatch hunsettled
  · intro hrest
    have hsplit : s ∈ Standard.upright ++ [conicalSection] := hs
    rcases List.mem_append.1 hsplit with hupright | hcone
    · -- the only root of these shapes is that of two, which exists
      refine Shape.sane_of_checks (h.knowledge_holds _ ?_) hatan (Standard.upright_checks s hupright)
      intro e he
      rw [List.mem_singleton.1 he]
      exact Standard.rootOfTwo_value
    · -- the root of the cone exists where its approximations come to rest
      obtain rfl := List.mem_singleton.1 hcone
      refine Shape.sane_of_checks (h.knowledge_holds _ ?_) hatan Standard.cone_checks
      intro e he
      rw [List.mem_singleton.1 he]
      exact Standard.slantRoot_value hatan h (hrest rfl)

end

/-! ## §4. A cone with a slant height, and one without. -/

/-- The values of the parameters of a cone, 10 thick and of steel. -/
def coneScope (largeEnd smallEnd height : Decimal) : Scope := fun name =>
  [("D1", largeEnd), ("D2", smallEnd), ("H", height), ("t", .ten),
    ("density",
      { negative := false, coefficient := 7850, scale := 0
        scale_le := Decimal.zero_le_maxScale })].lookup name

theorem parse_largeEndIsLarger :
    parse "D1 - D2" = .ok (.binary .sub (.variable "D1") (.variable "D2")) :=
  Formula.parse_eq_ok (by decide +kernel)

section

variable {lib : DoubleFunctions}

theorem coneScope_inDomain {largeEnd smallEnd height : Decimal} (difference : Decimal)
    (hparameters : ∀ p ∈ conicalSection.parameters,
      ∃ x ∈ coneScope largeEnd smallEnd height p.name, p.domain.Admits x.value)
    (hdifference : largeEnd.sub smallEnd = some difference) (hpositive : 0 < difference.value) :
    conicalSection.InDomain lib (coneScope largeEnd smallEnd height) where
  parameters := hparameters
  rules := by
    intro r hr
    obtain rfl := List.mem_singleton.1 hr
    refine ⟨_, parse_largeEndIsLarger, difference, ?_, hpositive⟩
    exact Formula.evaluateWith_binary_eq_ok.2 ⟨largeEnd, by rw [Expr.evaluateWith]; rfl, smallEnd,
      by rw [Expr.evaluateWith]; rfl, by rw [Formula.applyOperator, hdifference]; rfl⟩
  density := ⟨_, rfl, by decide +kernel, by decide +kernel⟩

/-! A cone whose wall leans by an eighth of a turn: `(D1 - D2) / (2 * H)` is one. -/

/-- An inverse tangent that is known at one. -/
def eighthTurnAtOne : DoubleFunctions :=
  { DoubleFunctions.system with atan := fun x => if x = 1 then 0.7853981633974483 else 0 }

theorem eighthTurnAtOne_within : eighthTurnAtOne.AtanWithin := by
  have hvalues : ∀ y ∈ [(0.7853981633974483 : Float), 0], y.isFinite = true
      ∧ ∀ q ∈ Binary64.value? y, |q| ≤ 1 := by
    decide +kernel
  intro x _
  have hmem : eighthTurnAtOne.atan x ∈ [(0.7853981633974483 : Float), 0] := by
    show (if x = 1 then (0.7853981633974483 : Float) else 0) ∈ _
    split <;> simp
  obtain ⟨hfinite, hsize⟩ := hvalues _ hmem
  refine ⟨hfinite, fun q hq => ?_⟩
  have hone : |(q : ℝ)| ≤ 1 := by exact_mod_cast hsize q hq
  linarith [Real.two_le_pi]

/-- The values of the leaning cone. -/
def leaningCone : Scope :=
  coneScope
    { negative := false, coefficient := 300, scale := 0, scale_le := Decimal.zero_le_maxScale }
    { negative := false, coefficient := 100, scale := 0, scale_le := Decimal.zero_le_maxScale }
    { negative := false, coefficient := 100, scale := 0, scale_le := Decimal.zero_le_maxScale }

/-- The leaning cone has a slant height, and so is sane. -/
theorem leaningCone_sane :
    eighthTurnAtOne.AtanWithin ∧ conicalSection.InDomain eighthTurnAtOne leaningCone
      ∧ conicalSection.Sane eighthTurnAtOne leaningCone := by
  have hdomain : conicalSection.InDomain eighthTurnAtOne leaningCone :=
    coneScope_inDomain { negative := false, coefficient := 200, scale := 0 } (by decide +kernel)
      (by decide +kernel) (by decide +kernel)
  have hsquare : slantSquare.evaluateWith eighthTurnAtOne leaningCone
      = .ok { negative := false, coefficient := 20000, scale := 0 } := by
    decide +kernel
  refine ⟨eighthTurnAtOne_within, hdomain, (Catalog.standard_sane_iff eighthTurnAtOne_within
    (by decide +kernel) hdomain).2 fun _ x hx => ?_⟩
  rw [hsquare] at hx
  cases hx
  decide +kernel

/-! A cone that is all but a cylinder: `D1` is greater than `D2` by some billionths of a micron. -/

/-- The values of the slender cone: `50.0000000000022`, `50` and `80`. -/
def slenderCone : Scope :=
  coneScope { negative := false, coefficient := 500000000000022, scale := 13 }
    { negative := false, coefficient := 50, scale := 0, scale_le := Decimal.zero_le_maxScale }
    { negative := false, coefficient := 80, scale := 0, scale_le := Decimal.zero_le_maxScale }

/-- The square of the slant height of the slender cone: `6400`, and `12` in the last places. -/
def slenderSquare : Decimal :=
  { negative := false, coefficient := 64000000000000000000000000012, scale := 25 }

/-- The approximations of this root end in `80.00000000000000000000000001` and `80` in turn. -/
theorem slenderSquare_sqrt : slenderSquare.sqrt = .error .unsettled :=
  Decimal.sqrt_eq_unsettled 12
    (a := { negative := false, coefficient := 8000000000000000000000000001, scale := 26 })
    (b := { negative := false, coefficient := 800000000000000000000, scale := 19 })
    rfl rfl (by decide) (by decide +kernel)
    ⟨by decide +kernel, by decide +kernel, by decide +kernel⟩

theorem slantRoot_slenderCone :
    slantRoot.evaluateWith .system slenderCone = .error (.abort .unsettledRoot) :=
  Standard.evaluateWith_sqrt_unsettled (x := slenderSquare) (by decide +kernel) slenderSquare_sqrt

/-- The length around a cone, at the middle of its wall. -/
def meanGirth : Expr :=
  .binary .div
    (.binary .mul (.constant .pi)
      (.binary .add (.binary .add (.variable "D1") (.variable "D2"))
        (.binary .mul (.number .two) (.variable "t"))))
    (.number .two)

theorem parse_coneVolume : parse Standard.coneVolume
    = .ok (.binary .mul (.binary .mul meanGirth slantRoot) (.variable "t")) :=
  Formula.parse_eq_ok (by decide +kernel)

theorem coneVolume_slenderCone : ∃ e, parse Standard.coneVolume = .ok e
    ∧ e.evaluateWith .system slenderCone = .error (.abort .unsettledRoot) := by
  have hgirth : meanGirth.evaluateWith .system slenderCone
      = .ok { negative := false, coefficient := 18849555921539105005967755177, scale := 26 } := by
    decide +kernel
  have hmantle : (Expr.binary .mul meanGirth slantRoot).evaluateWith .system slenderCone
      = .error (.abort .unsettledRoot) := by
    rw [Expr.evaluateWith, hgirth, slantRoot_slenderCone]
    rfl
  refine ⟨_, parse_coneVolume, ?_⟩
  rw [Expr.evaluateWith, hmantle]
  rfl

/-- The slender cone is in the domain and has no volume, and so is not sane. -/
theorem slenderCone_not_sane :
    conicalSection.InDomain .system slenderCone
      ∧ (∃ f e, ("volume", f) ∈ conicalSection.plainFormulas ∧ parse f.expression = .ok e
        ∧ e.evaluateWith .system slenderCone = .error (.abort .unsettledRoot))
      ∧ ¬ conicalSection.Sane .system slenderCone := by
  have hdomain : conicalSection.InDomain .system slenderCone :=
    coneScope_inDomain { negative := false, coefficient := 22, scale := 13 } (by decide +kernel)
      (by decide +kernel) (by decide +kernel)
  obtain ⟨e, hparse, hfails⟩ := coneVolume_slenderCone
  have hmem : ("volume", Standard.volume Standard.coneVolume ["D1", "D2", "H", "t"])
      ∈ conicalSection.plainFormulas := by
    decide +kernel
  refine ⟨hdomain, ⟨_, e, hmem, hparse, hfails⟩, fun hsane => ?_⟩
  obtain ⟨v, e', hread, hv⟩ := hsane.plain _ hmem
  obtain rfl : e = e' := Except.ok.inj (hparse.symm.trans hread)
  rw [hfails] at hv
  exact nomatch hv

end

end ShapeEstimator
