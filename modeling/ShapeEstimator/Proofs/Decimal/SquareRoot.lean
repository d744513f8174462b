/-
  ShapeEstimator.Proofs.Decimal.SquareRoot
  ────────────────────────────────
  **APPROXIMATIONS OF A SQUARE ROOT.**

  The Newton steps toward the root of a number stay within the bounds of the number,
  so a root, where there is one, is within them:

      2 ≤ v ≤ n   →   1 ≤ x ≤ n  for every approximation x

  The steps need not come to rest: with rounded quotients two approximations can
  follow each other for ever, and then there is no root.
-/
import ShapeEstimator.Decimal.Root
import ShapeEstimator.Proofs.Decimal.Quotient

namespace ShapeEstimator.Decimal

variable {v x last next root : Decimal} {n : ℤ}

/-! ## §1. Bounds. -/

theorem value_two : two.value = 2 := by
  simp [value, size, signed, two]

/-- A step that has a result. -/
theorem value_sqrtStep (h : sqrtStep v x = some next) :
    next.value = rounded (rounded (x.value + rounded (v.value / x.value)) / 2) := by
  unfold sqrtStep at h
  split at h
  · exact nomatch h
  · rename_i hx
    obtain ⟨q, hq, h⟩ := Option.bind_eq_some_iff.1 h
    obtain ⟨s, hs, h⟩ := Option.bind_eq_some_iff.1 h
    rw [(div_rounds s rfl).value_eq next h, (add_rounds x q).value_eq s hs,
      (div_rounds v (Bool.eq_false_iff.2 hx)).value_eq q hq, value_two]

/-- **A step keeps the bounds of the number.** -/
theorem sqrtStep_bounds (hv : 2 ≤ v.value) (hvn : v.value ≤ n) (hx : 1 ≤ x.value)
    (hxn : x.value ≤ n) (h : sqrtStep v x = some next) : 1 ≤ next.value ∧ next.value ≤ n := by
  have hxpos : 0 < x.value := by linarith
  have hquotient : v.value / x.value ≤ n := (div_le_self (by linarith) hx).trans hvn
  have hsum : 2 ≤ rounded (x.value + rounded (v.value / x.value)) := by
    have htwo : ((2 : ℤ) : ℚ) ≤ x.value + rounded (v.value / x.value) := by
      push_cast
      rcases le_or_gt 2 x.value with hge | hlt
      · have hpos : 0 ≤ rounded (v.value / x.value) := rounded_nonneg (by positivity)
        linarith
      · -- the approximation is at most two, so the number holds it at least once
        have hone : ((1 : ℤ) : ℚ) ≤ v.value / x.value := by
          rw [Int.cast_one, le_div_iff₀ hxpos]
          linarith
        have hround := le_rounded hone
        rw [Int.cast_one] at hround
        linarith
    exact_mod_cast le_rounded htwo
  have hsum' : rounded (x.value + rounded (v.value / x.value)) ≤ 2 * n := by
    have htwice : x.value + rounded (v.value / x.value) ≤ ((2 * n : ℤ) : ℚ) := by
      have hround := rounded_le hquotient
      push_cast
      linarith
    exact_mod_cast rounded_le htwice
  rw [value_sqrtStep h]
  constructor
  · have hhalf : ((1 : ℤ) : ℚ) ≤ rounded (x.value + rounded (v.value / x.value)) / 2 := by
      push_cast
      linarith
    exact_mod_cast le_rounded hhalf
  · exact rounded_le (by linarith)

/-- What the steps come to rest at is within the bounds. -/
theorem sqrtFrom_bounds (hv : 2 ≤ v.value) (hvn : v.value ≤ n) (steps : ℕ) (hx : 1 ≤ x.value)
    (hxn : x.value ≤ n) (h : sqrtFrom v steps last x = some root) :
    1 ≤ root.value ∧ root.value ≤ n := by
  induction steps generalizing last x with
  | zero => exact nomatch h
  | succ steps ih =>
    unfold sqrtFrom at h
    split at h
    · cases h
      exact ⟨hx, hxn⟩
    · obtain ⟨next, hnext, h⟩ := Option.bind_eq_some_iff.1 h
      obtain ⟨hlow, hhigh⟩ := sqrtStep_bounds hv hvn hx hxn hnext
      exact ih hlow hhigh h

/-- **A square root is within the bounds of the number.** -/
theorem sqrt_bounds (hv : 2 ≤ v.value) (hvn : v.value ≤ n) (h : v.sqrt = .ok root) :
    1 ≤ root.value ∧ root.value ≤ n := by
  unfold sqrt at h
  split at h
  · exact nomatch h
  · split at h
    · rename_i hzero
      rw [value_of_isZero hzero] at hv
      linarith
    · split at h
      · rename_i r hroot
        cases h
        obtain ⟨start, hstart, hroot⟩ := Option.bind_eq_some_iff.1 hroot
        obtain ⟨last, _, hroot⟩ := Option.bind_eq_some_iff.1 hroot
        obtain ⟨half, hhalf, rfl⟩ := Option.map_eq_some_iff.1 hstart
        have hvalue := (div_rounds v (y := two) rfl).value_eq half hhalf
        rw [value_two] at hvalue
        have hone : 1 ≤ half.value := by
          have hlow : ((1 : ℤ) : ℚ) ≤ v.value / 2 := by
            push_cast
            linarith
          rw [hvalue]
          exact_mod_cast le_rounded hlow
        have hle : half.value ≤ n := by
          rw [hvalue]
          exact rounded_le (by linarith)
        have hnonzero : half.isZero = false := by
          apply Bool.eq_false_iff.2
          intro hzero
          rw [value_of_isZero hzero] at hone
          linarith
        rw [hnonzero] at hroot
        exact sqrtFrom_bounds hv hvn _ hone hle hroot
      · exact nomatch h

/-- A positive number has a square root, if the approximations come to rest. -/
theorem exists_sqrt (hv : 0 < v.value) (h : v.sqrt ≠ .error .unsettled) :
    ∃ root, v.sqrt = .ok root := by
  have hsign : v.negative = false := by
    apply Bool.eq_false_iff.2
    intro hnegative
    unfold value signed at hv
    rw [if_pos hnegative] at hv
    linarith [v.size_nonneg]
  unfold sqrt at h ⊢
  rw [hsign] at h ⊢
  simp only [Bool.false_eq_true, if_false] at h ⊢
  split
  · exact ⟨_, rfl⟩
  · rename_i hzero
    rw [if_neg hzero] at h
    split
    · exact ⟨_, rfl⟩
    · rename_i hnone
      rw [hnone] at h
      exact absurd rfl h

/-! ## §2. Approximations that alternate. -/

/-- Two different approximations of which each is the step from the other. -/
structure Alternate (v a b : Decimal) : Prop where
  /-- The step from the first one. -/
  forth : sqrtStep v a = some b
  /-- The step from the second one. -/
  back : sqrtStep v b = some a
  /-- They differ. -/
  differ : a.value ≠ b.value

/-- **Alternating approximations do not come to rest**, however many steps there are. -/
theorem Alternate.sqrtFrom_eq_none {a b : Decimal} (h : Alternate v a b) (steps : ℕ) :
    sqrtFrom v steps a b = none ∧ sqrtFrom v steps b a = none := by
  have hab : a.sameValue b = false :=
    Bool.eq_false_iff.2 fun hsame => h.differ ((sameValue_iff a b).1 hsame)
  have hba : b.sameValue a = false :=
    Bool.eq_false_iff.2 fun hsame => h.differ ((sameValue_iff b a).1 hsame).symm
  induction steps with
  | zero => exact ⟨rfl, rfl⟩
  | succ steps ih =>
    constructor
    · unfold sqrtFrom
      rw [hab, h.back]
      exact ih.2
    · unfold sqrtFrom
      rw [hba, h.forth]
      exact ih.1

/-- The approximation after some steps and the one before it, while the steps do not come to rest. -/
def sqrtPath (v : Decimal) : ℕ → (last x : Decimal) → Option (Decimal × Decimal)
  | 0, last, x => some (last, x)
  | steps + 1, last, x =>
    if last.sameValue x then none else (sqrtStep v x).bind fun next => sqrtPath v steps x next

theorem sqrtFrom_of_path {steps : ℕ} {y z : Decimal} (more : ℕ)
    (h : sqrtPath v steps last x = some (y, z)) :
    sqrtFrom v (more + steps) last x = sqrtFrom v more y z := by
  induction steps generalizing last x with
  | zero =>
    cases h
    rfl
  | succ steps ih =>
    unfold sqrtPath at h
    split at h
    · exact nomatch h
    · rename_i hsame
      obtain ⟨next, hnext, h⟩ := Option.bind_eq_some_iff.1 h
      show (if last.sameValue x then some x
        else (sqrtStep v x).bind fun next => sqrtFrom v (more + steps) x next) = _
      rw [if_neg hsame, hnext]
      exact ih h

/-- The two approximations that a number ends in, after some steps from its first one. -/
def sqrtEnd (v : Decimal) (steps : ℕ) : Option (Decimal × Decimal) :=
  (sqrtStart v).bind fun start => (start.add one).bind fun last => sqrtPath v steps last start

/-- **A positive number has no square root where its approximations end in alternating ones.** -/
theorem sqrt_eq_unsettled (steps : ℕ) {a b : Decimal} (hsign : v.negative = false)
    (hzero : v.isZero = false) (hsteps : steps ≤ sqrtSteps) (hend : sqrtEnd v steps = some (a, b))
    (h : Alternate v a b) : v.sqrt = .error .unsettled := by
  obtain ⟨start, hstart, hend⟩ := Option.bind_eq_some_iff.1 hend
  obtain ⟨last, hlast, hend⟩ := Option.bind_eq_some_iff.1 hend
  -- the first steps are taken one by one, and the rest need not be counted
  have hnone : sqrtFrom v sqrtSteps last start = none := by
    rw [← Nat.sub_add_cancel hsteps, sqrtFrom_of_path _ hend]
    exact (h.sqrtFrom_eq_none _).1
  unfold sqrt
  rw [hsign, hzero, hstart, Option.bind_some, hlast, Option.bind_some, hnone]
  rfl

end ShapeEstimator.Decimal
