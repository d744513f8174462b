/-
  ShapeEstimator.Proofs.Decimal.Logarithm
  ────────────────────────────────
  **THE LOGARITHM OF A NUMBER THAT IS NOT SMALL.**

  Factors of ten are taken out of a number, and nothing is lost with them.  Factors of e come next,
  each with a rounding, until the number is between the inverse of e and one.  What is left has the
  logarithm

      log r  =  2 · (z + z³ / 3 + z⁵ / 5 + …)          z = (r - 1) / (r + 1)

  The number z is at most a half, so the terms shrink fast and none of the steps runs out of room.
  Near one the logarithm is off by some units of the last of 28 places, whatever its size.
-/
import Mathlib.Analysis.Complex.ExponentialBounds
import Mathlib.Analysis.SpecialFunctions.Log.Deriv
import ShapeEstimator.Proofs.Decimal.Exponential

namespace ShapeEstimator

/-! ## §1. Logarithms of neighbours. -/

section Neighbours

variable {ε m x y c : ℝ}

theorem log_sub_log_le (hm : 0 < m) (hx : m ≤ x) (hy : m ≤ y) (h : |x - y| ≤ ε) :
    Real.log x - Real.log y ≤ ε / m := by
  have hxpos : 0 < x := hm.trans_le hx
  have hypos : 0 < y := hm.trans_le hy
  have hquotient : x / y - 1 = (x - y) / y := by
    rw [sub_div, div_self hypos.ne']
  calc Real.log x - Real.log y = Real.log (x / y) := (Real.log_div hxpos.ne' hypos.ne').symm
    _ ≤ x / y - 1 := Real.log_le_sub_one_of_pos (div_pos hxpos hypos)
    _ = (x - y) / y := hquotient
    _ ≤ |x - y| / y := div_le_div_of_nonneg_right (le_abs_self _) hypos.le
    _ ≤ ε / m := div_le_div₀ ((abs_nonneg _).trans h) h hm hy

theorem abs_log_sub_log_le (hm : 0 < m) (hx : m ≤ x) (hy : m ≤ y) (h : |x - y| ≤ ε) :
    |Real.log x - Real.log y| ≤ ε / m := by
  have hflip := log_sub_log_le hm hy hx ((abs_sub_comm y x).trans_le h)
  rw [abs_le]
  exact ⟨by linarith, log_sub_log_le hm hx hy h⟩

/-- A share of a number is a difference of its logarithm. -/
theorem CloseTo.abs_log_sub_le (h : CloseTo ε x y) (hε : 0 ≤ ε) (hε1 : ε < 1) (hy : 0 < y) :
    |Real.log x - Real.log y| ≤ ε / (1 - ε) := by
  have hm : 0 < (1 - ε) * y := mul_pos (by linarith) hy
  have hle : (1 - ε) * y ≤ y := mul_le_of_le_one_left hy.le (by linarith)
  refine (abs_log_sub_log_le hm h.ge hle h).trans_eq ?_
  rw [mul_div_mul_right _ _ hy.ne']

theorem CloseTo.mul_right (h : CloseTo ε x y) (hc : 0 ≤ c) : CloseTo ε (x * c) (y * c) := by
  unfold CloseTo at h ⊢
  rw [← sub_mul, abs_mul, abs_of_nonneg hc, ← mul_assoc]
  exact mul_le_mul_of_nonneg_right h hc

end Neighbours

namespace Decimal

open Wide (ofDecimal)

/-! ## §2. Scaling. -/

section Scaling

variable {condition : Decimal → Bool} {step : Decimal → Option Decimal} {count : ℤ}
  {I : ℕ → Scaled → Prop}

theorem scaleWhile_of_false {x : Scaled} (h : condition x.1 = false) (steps : ℕ) :
    scaleWhile condition step count steps x = some x := by
  cases steps with
  | zero => rfl
  | succ steps => simp [scaleWhile, h]

/-- **Scaling.**  What every step keeps, and knows the number of steps from, holds in the end. -/
theorem scaleWhile_of_invariant (last : ℕ)
    (hstep : ∀ n x, I n x → condition x.1 = true →
      n < last ∧ ∃ y, step x.1 = some y ∧ I (n + 1) (y, x.2 + count)) :
    ∀ steps n x, I n x → last ≤ n + steps →
      ∃ m y, scaleWhile condition step count steps x = some y ∧ I m y ∧ condition y.1 = false := by
  intro steps
  -- the condition fails before the steps run out
  induction steps with
  | zero =>
    intro n x h hlast
    refine ⟨n, x, rfl, h, ?_⟩
    rw [Bool.eq_false_iff]
    intro hcondition
    have hlt := (hstep n x h hcondition).1
    omega
  | succ steps ih =>
    intro n x h hlast
    by_cases hcondition : condition x.1 = true
    · obtain ⟨-, y, hy, hkept⟩ := hstep n x h hcondition
      obtain ⟨m, z, hz, hm⟩ := ih (n + 1) (y, x.2 + count) hkept (by omega)
      refine ⟨m, z, ?_, hm⟩
      rw [scaleWhile, if_pos hcondition, hy, Option.bind_some]
      exact hz
    · rw [Bool.not_eq_true] at hcondition
      exact ⟨n, x, scaleWhile_of_false hcondition _, h, hcondition⟩

end Scaling

/-! ## §3. Factors of ten. -/

section Tens

variable {b x y : Decimal}

theorem le_iff (x y : Decimal) : x.le y = true ↔ x.value ≤ y.value := by
  have hx : x.scale ≤ Max.max x.scale y.scale := le_max_left _ _
  have hy : y.scale ≤ Max.max x.scale y.scale := le_max_right _ _
  have hpow : (0 : ℚ) < 10 ^ Max.max x.scale y.scale := by positivity
  unfold le
  rw [decide_eq_true_iff, ← Int.cast_le (R := ℚ), unitsAt_cast x hx, unitsAt_cast y hy]
  exact mul_le_mul_iff_left₀ hpow

theorem lt_of_not_le (h : x.le y = false) : y.value < x.value := by
  rw [Bool.eq_false_iff, ne_eq, le_iff] at h
  exact not_le.1 h

theorem value_ten : ten.value = 10 := by
  norm_num [ten, value, size, signed]

/-- A tenth of a number from ten on is a decimal: such a number has less than 28 places. -/
theorem isDecimal_tenth (h : 10 ≤ x.value) : IsDecimal (x.value / 10) := by
  have hdigits : ((x.digits : ℤ) : ℚ) < 2 ^ 96 := by
    exact_mod_cast (abs_lt.1 x.abs_digits_lt).2
  have hscale : x.scale ≤ 27 := by
    by_contra hlong
    have hpow : (10 : ℚ) ^ 28 ≤ 10 ^ x.scale := pow_le_pow_right₀ (by norm_num) (by omega)
    rw [value_eq_digits, le_div_iff₀ (by positivity)] at h
    norm_num at hdigits hpow
    linarith
  refine ⟨x.digits, x.scale + 1, x.abs_digits_lt, by omega, ?_⟩
  rw [value_eq_digits, div_div, pow_succ]

/-- A decimal has at most 28 factors of ten. -/
theorem le_of_ten_pow_le {k : ℕ} (hpow : (10 : ℚ) ^ k ≤ b.value) : k ≤ 28 := by
  by_contra hmany
  have hlarge : (10 : ℚ) ^ 29 ≤ 10 ^ k := pow_le_pow_right₀ (by norm_num) (by omega)
  have hmax := (abs_le.1 (isDecimal_value b).abs_le).2
  norm_num at hmax hlarge
  linarith

/-- What is left of a number without some factors of ten, with the count of them. -/
structure IsTenth (b : Decimal) (n : ℕ) (x : Scaled) : Prop where
  /-- The factors are counted. -/
  count_eq : x.2 = n
  /-- A factor is taken out only of a number from ten on. -/
  one_le : 1 ≤ x.1.value
  /-- Nothing is lost. -/
  value_eq : b.value = x.1.value * 10 ^ n

/-- A step of taking tens out. -/
theorem IsTenth.next {n : ℕ} {x : Scaled} (h : IsTenth b n x) (hten : ten.le x.1 = true) :
    n < 28 ∧ ∃ y, x.1.div ten = some y ∧ IsTenth b (n + 1) (y, x.2 + 1) := by
  obtain ⟨hcount, -, hvalue⟩ := h
  rw [le_iff, value_ten] at hten
  obtain ⟨y, hy, hyvalue⟩ := (value_ten ▸ div_rounds x.1 (y := ten) rfl).exact
    (isDecimal_tenth hten)
  refine ⟨?_, y, hy, ?_, ?_, ?_⟩
  · have hpow : (10 : ℚ) ^ (n + 1) ≤ b.value := by
      rw [hvalue, pow_succ']
      exact mul_le_mul_of_nonneg_right hten (by positivity)
    have hfew := le_of_ten_pow_le hpow
    omega
  · rw [hcount]
    push_cast
    rfl
  · rw [hyvalue]
    linarith
  · rw [hyvalue, hvalue]
    ring

/-- **Tens** are taken out of a number without a loss. -/
theorem exists_withoutTens (hb : 1 ≤ b.value) :
    ∃ (y : Decimal) (k : ℕ), withoutTens b = some (y, (k : ℤ)) ∧ 1 ≤ y.value ∧ y.value < 10
      ∧ b.value = y.value * 10 ^ k := by
  have hlarge : b.lt one = false := by
    rw [Bool.eq_false_iff, ne_eq, lt_iff, value_one]
    exact not_lt.2 hb
  have hstart : IsTenth b 0 (b, 0) := ⟨rfl, hb, by rw [pow_zero, mul_one]⟩
  obtain ⟨k, ⟨y, j⟩, hy, ⟨rfl, hone, hvalue⟩, hend⟩ :
      ∃ k x, scaleWhile (fun y => ten.le y) (fun y => y.div ten) 1 scalingSteps (b, 0) = some x
        ∧ IsTenth b k x ∧ ten.le x.1 = false :=
    scaleWhile_of_invariant 28 (fun n x h hten => h.next hten) scalingSteps 0 _ hstart (by decide)
  have hless := lt_of_not_le hend
  rw [value_ten] at hless
  refine ⟨y, k, ?_, hone, hless, hvalue⟩
  unfold withoutTens
  rw [scaleWhile_of_false (x := (b, 0)) hlarge, Option.bind_some]
  exact hy

end Tens

/-! ## §4. Factors of e. -/

section Es

variable {y : Decimal} {n : ℕ} {x : Scaled}

theorem value_inverseE : inverseE.value = 3678794411714423215955237702 / 10 ^ 28 := by
  norm_num [inverseE, value, size, signed]

theorem inverseE_closeTo : CloseTo (2 / 10 ^ 28) (inverseE.value * Real.exp 1) 1 := by
  have hclose := abs_e_sub_le
  rw [value_e, abs_le] at hclose
  push_cast at hclose
  unfold CloseTo
  rw [value_inverseE, abs_le]
  push_cast
  constructor <;> linarith

/-- What is left of a number without some factors of e, with the count of them. -/
structure IsShare (y : Decimal) (n : ℕ) (x : Scaled) : Prop where
  /-- The factors are counted. -/
  count_eq : x.2 = n
  /-- There are not many factors. -/
  few : n ≤ 3
  /-- A factor is taken out only of a number from one on. -/
  inverse_le : inverseE.value ≤ x.1.value
  /-- Every factor costs a rounding. -/
  off : CloseTo (n * (6 / 10 ^ 28)) (x.1.value * Real.exp n) y.value

/-- A product with the inverse, instead of a quotient. -/
theorem mul_inverseE_closeTo {x z : Decimal} (hx : 1 ≤ x.value) (hz : x.mul inverseE = some z) :
    inverseE.value ≤ z.value ∧ CloseTo (5 / 10 ^ 28) (z.value * Real.exp 1) x.value := by
  have hvalue := (mul_rounds x inverseE).value_eq z hz
  have hinverse : (36 / 100 : ℚ) ≤ inverseE.value := by
    rw [value_inverseE]
    norm_num
  have hleast : inverseE.value ≤ x.value * inverseE.value :=
    le_mul_of_one_le_left (by linarith) hx
  constructor
  · have hmono := rounded_mono hleast
    rwa [rounded_value, ← hvalue] at hmono
  · have hoff : |z.value - x.value * inverseE.value|
        ≤ 28 / 10 ^ 29 * (x.value * inverseE.value) := by
      have hmax : Max.max 1 |x.value * inverseE.value| ≤ 28 / 10 * (x.value * inverseE.value) := by
        rw [abs_of_nonneg (by linarith)]
        exact max_le (by linarith) (by linarith)
      have hround := abs_rounded_sub_le (x.value * inverseE.value)
      rw [hvalue]
      unfold unitRoundoff at hround
      linarith
    have hxpos : (0 : ℝ) ≤ x.value := by exact_mod_cast zero_le_one.trans hx
    have hproduct : CloseTo (28 / 10 ^ 29) (z.value * Real.exp 1)
        (x.value * (inverseE.value * Real.exp 1)) := by
      rw [← mul_assoc, ← Rat.cast_mul]
      refine ((CloseTo.of_rat hoff).mono ?_ (by norm_num)).mul_right (Real.exp_pos 1).le
      exact_mod_cast show (0 : ℚ) ≤ x.value * inverseE.value by linarith
    have hone := inverseE_closeTo.mul_right hxpos
    rw [one_mul, mul_comm] at hone
    exact (hproduct.trans hone (by norm_num)).mono hxpos (by norm_num)

/-- A step of taking factors of e out. -/
theorem IsShare.next (hy : 0 < y.value) (hten : y.value < 10) (h : IsShare y n x)
    (hone : one.le x.1 = true) :
    n < 3 ∧ ∃ z, x.1.mul inverseE = some z ∧ IsShare y (n + 1) (z, x.2 + 1) := by
  obtain ⟨hcount, hfew, -, hoff⟩ := h
  rw [le_iff, value_one] at hone
  have hyR : (0 : ℝ) < y.value := by exact_mod_cast hy
  have htenR : (y.value : ℝ) < 10 := by exact_mod_cast hten
  have hfewR : (n : ℝ) ≤ 3 := by exact_mod_cast hfew
  -- three factors make more than ten
  have hless : n < 3 := by
    by_contra hmany
    obtain rfl : n = 3 := by omega
    have hcube : (2.7 : ℝ) ^ 3 ≤ Real.exp (3 : ℕ) := by
      rw [← mul_one ((3 : ℕ) : ℝ), Real.exp_nat_mul]
      exact pow_le_pow_left₀ (by norm_num) (by linarith [Real.exp_one_gt_d9]) 3
    have hall : Real.exp (3 : ℕ) ≤ x.1.value * Real.exp (3 : ℕ) :=
      le_mul_of_one_le_left (Real.exp_pos _).le (by exact_mod_cast hone)
    have hupper := hoff.le
    norm_num at hcube hall hupper
    linarith
  have hroom : |x.1.value * inverseE.value| ≤ 2 ^ 96 - 1 := by
    have hinverse : |inverseE.value| ≤ 1 := by
      rw [value_inverseE]
      norm_num [abs_of_pos]
    rw [abs_mul]
    exact (mul_le_of_le_one_right (abs_nonneg _) hinverse).trans (isDecimal_value x.1).abs_le
  obtain ⟨z, hz⟩ := (mul_rounds x.1 inverseE).exists_eq hroom
  obtain ⟨hleast, hclose⟩ := mul_inverseE_closeTo hone hz
  refine ⟨hless, z, hz, ?_, hless, hleast, ?_⟩
  · rw [hcount]
    push_cast
    rfl
  · have hstep := hclose.mul_right (Real.exp_pos n).le
    rw [mul_assoc, ← Real.exp_add] at hstep
    push_cast
    rw [add_comm (n : ℝ) 1]
    exact (hstep.trans hoff (by norm_num)).mono hyR.le (by linarith)

/-- A number without its factors of e, with the count of them. -/
structure IsReduced (y : Decimal) (x : Scaled) : Prop where
  /-- The number is not below the inverse of e. -/
  inverse_le : inverseE.value ≤ x.1.value
  /-- The number is not above one, but for a rounding. -/
  le : x.1.value ≤ 1 + 1 / 10 ^ 28
  /-- The number is not one. -/
  ne_one : x.1.value ≠ 1
  /-- There are not many factors. -/
  few : |x.2| ≤ 3
  /-- The factors make up for the logarithm. -/
  off : |Real.log x.1.value + x.2 - Real.log y.value| ≤ 25 / 10 ^ 28

theorem IsShare.abs_log_sub_le (hy : 0 < y.value) (h : IsShare y n x) :
    |Real.log x.1.value + n - Real.log y.value| ≤ 19 / 10 ^ 28 := by
  have hyR : (0 : ℝ) < y.value := by exact_mod_cast hy
  have hfewR : (n : ℝ) ≤ 3 := by exact_mod_cast h.few
  have hclose : CloseTo (18 / 10 ^ 28) (x.1.value * Real.exp n) y.value :=
    h.off.mono hyR.le (by linarith)
  have hxpos : (0 : ℝ) < x.1.value := by
    have hinverse : 0 < inverseE.value := by
      rw [value_inverseE]
      norm_num
    exact_mod_cast hinverse.trans_le h.inverse_le
  have hlog := hclose.abs_log_sub_le (by norm_num) (by norm_num) hyR
  rw [Real.log_mul hxpos.ne' (Real.exp_pos _).ne', Real.log_exp] at hlog
  exact hlog.trans (by norm_num)

theorem IsShare.isReduced (hy : 0 < y.value) (hx : x.1.value < 1) (h : IsShare y n x) :
    IsReduced y x := by
  have hfew := h.few
  refine ⟨h.inverse_le, by linarith, hx.ne, ?_, ?_⟩
  · rw [h.count_eq, Nat.abs_cast]
    exact_mod_cast hfew
  · rw [h.count_eq, Int.cast_natCast]
    exact (h.abs_log_sub_le hy).trans (by norm_num)

/-- The inverse of e times e is a number next to one. -/
theorem mul_e_eq {x : Decimal} (hx : x.value = inverseE.value) :
    ∃ z, x.mul e = some z ∧ z.value = 1 + 1 / 10 ^ 28 := by
  have hproduct : ∃ w, inverseE.mul e = some w ∧ w.value = 1 + 1 / 10 ^ 28 := by
    refine ⟨⟨false, 10 ^ 28 + 1, 28, by decide, by decide⟩, by decide +kernel, ?_⟩
    norm_num [value, size, signed]
  obtain ⟨w, hw, hwvalue⟩ := hproduct
  have hsize : |x.value * e.value| ≤ 2 ^ 96 - 1 := by
    rw [hx, value_inverseE, value_e]
    norm_num [abs_of_pos]
  obtain ⟨z, hz⟩ := (mul_rounds x e).exists_eq hsize
  refine ⟨z, hz, ?_⟩
  rw [(mul_rounds x e).value_eq z hz, hx, ← (mul_rounds inverseE e).value_eq w hw, hwvalue]

/-- The second loop ends after one step at most: only the inverse of e itself is scaled up again. -/
theorem IsShare.scaledUp (hy : 0 < y.value) (h : IsShare y n x)
    (hle : x.1.le inverseE = true) :
    ∃ z, x.1.mul e = some z ∧ IsReduced y (z, x.2 + -1) ∧ inverseE.value < z.value := by
  have hvalue : x.1.value = inverseE.value := le_antisymm ((le_iff _ _).1 hle) h.inverse_le
  have hlog := h.abs_log_sub_le hy
  obtain ⟨z, hz, hzvalue⟩ := mul_e_eq hvalue
  have hinverse : inverseE.value < z.value := by
    rw [value_inverseE, hzvalue]
    norm_num
  refine ⟨z, hz, ⟨hinverse.le, hzvalue.le, ?_, ?_, ?_⟩, hinverse⟩
  · rw [hzvalue]
    norm_num
  · have hfew := h.few
    rw [h.count_eq, abs_le]
    constructor <;> omega
  · -- the logarithms of the inverse of e and of the number next to one
    have hinversepos : (0 : ℝ) < inverseE.value := by
      rw [value_inverseE]
      norm_num
    have hinverselog : |Real.log inverseE.value + 1| ≤ 3 / 10 ^ 28 := by
      have hclose := inverseE_closeTo.abs_log_sub_le (by norm_num) (by norm_num) one_pos
      rw [Real.log_mul hinversepos.ne' (Real.exp_pos _).ne', Real.log_exp, Real.log_one,
        sub_zero] at hclose
      exact hclose.trans (by norm_num)
    have hnext : |Real.log z.value| ≤ 1 / 10 ^ 28 := by
      have hone : (1 : ℝ) ≤ z.value := by
        rw [hzvalue]
        norm_num
      rw [abs_of_nonneg (Real.log_nonneg hone)]
      refine (Real.log_le_sub_one_of_pos (by linarith)).trans ?_
      rw [hzvalue]
      norm_num
    rw [hvalue] at hlog
    rw [h.count_eq]
    push_cast
    rw [abs_le] at hlog hinverselog hnext ⊢
    constructor <;> linarith

/-- **Factors of e** are taken out of a number below ten, and at most three of them. -/
theorem exists_withoutEs (hy : 1 ≤ y.value) (hten : y.value < 10) :
    ∃ x, withoutEs y = some x ∧ IsReduced y x := by
  have hpos : 0 < y.value := by linarith
  have hstart : IsShare y 0 (y, 0) := by
    refine ⟨rfl, by norm_num, ?_, ?_⟩
    · rw [value_inverseE]
      linarith
    · norm_num [CloseTo]
  obtain ⟨n, x, hx, hshare, hless⟩ :
      ∃ n x, scaleWhile (fun y => one.le y) (fun y => y.mul inverseE) 1 scalingSteps (y, 0) = some x
        ∧ IsShare y n x ∧ one.le x.1 = false :=
    scaleWhile_of_invariant 3 (fun n x h hone => h.next hpos hten hone) scalingSteps 0 _ hstart
      (by decide)
  have hbelow := lt_of_not_le hless
  rw [value_one] at hbelow
  obtain ⟨m, z, hz, hend, -⟩ :
      ∃ m z, scaleWhile (fun y => y.le inverseE) (fun y => y.mul e) (-1) scalingSteps x = some z
        ∧ (m = 0 ∧ z = x ∨ IsReduced y z ∧ inverseE.value < z.1.value)
        ∧ z.1.le inverseE = false := by
    refine scaleWhile_of_invariant 1 ?_ scalingSteps 0 x (Or.inl ⟨rfl, rfl⟩) (by decide)
    rintro m z (⟨rfl, rfl⟩ | ⟨-, hlarge⟩) hle
    · obtain ⟨w, hw, hreduced⟩ := hshare.scaledUp hpos hle
      exact ⟨by norm_num, w, hw, Or.inr hreduced⟩
    · exact absurd ((le_iff _ _).1 hle) (not_le.2 hlarge)
  refine ⟨z, ?_, ?_⟩
  · unfold withoutEs
    rw [hx, Option.bind_some]
    exact hz
  · rcases hend with ⟨-, rfl⟩ | ⟨hreduced, -⟩
    · exact hshare.isReduced hpos hbelow
    · exact hreduced

end Es

/-! ## §5. The series of the logarithm. -/

/-- A term of the series, for half of the logarithm. -/
def logTerm (q : ℚ) (n : ℕ) : ℚ := q ^ (2 * n + 1) / (2 * n + 1 : ℕ)

/-- The first terms of the series. -/
def logSum (q : ℚ) (n : ℕ) : ℚ := ∑ j ∈ Finset.range n, logTerm q j

section Terms

variable {q : ℚ}

theorem logSum_succ (q : ℚ) (n : ℕ) : logSum q (n + 1) = logSum q n + logTerm q n :=
  Finset.sum_range_succ _ n

theorem abs_logTerm (q : ℚ) (n : ℕ) : |logTerm q n| = |q| ^ (2 * n + 1) / (2 * n + 1 : ℕ) := by
  rw [logTerm, abs_div, abs_pow, Nat.abs_cast]

theorem abs_logTerm_succ_le (hq : |q| ≤ 1 / 2) (n : ℕ) :
    |logTerm q (n + 1)| ≤ |logTerm q n| * (1 / 4) := by
  have hsquare : |q| ^ 2 ≤ 1 / 4 :=
    (pow_le_pow_left₀ (abs_nonneg q) hq 2).trans (by norm_num)
  have hdivisor : ((2 * n + 1 : ℕ) : ℚ) ≤ (2 * (n + 1) + 1 : ℕ) := by
    exact_mod_cast (by omega : 2 * n + 1 ≤ 2 * (n + 1) + 1)
  rw [abs_logTerm, abs_logTerm, div_mul_eq_mul_div,
    show 2 * (n + 1) + 1 = 2 * n + 1 + 2 by ring, pow_add]
  exact div_le_div₀ (by positivity) (mul_le_mul_of_nonneg_left hsquare (by positivity))
    (by positivity) hdivisor

/-- The terms shrink by four at least. -/
theorem abs_logTerm_add_le (hq : |q| ≤ 1 / 2) (n k : ℕ) :
    |logTerm q (k + n)| ≤ |logTerm q n| * (1 / 4) ^ k := by
  induction k with
  | zero => rw [zero_add, pow_zero, mul_one]
  | succ k ih =>
    rw [show k + 1 + n = k + n + 1 by ring, pow_succ, ← mul_assoc]
    exact (abs_logTerm_succ_le hq _).trans (mul_le_mul_of_nonneg_right ih (by norm_num))

theorem abs_logTerm_le (hq : |q| ≤ 1 / 2) (n : ℕ) : |logTerm q n| ≤ 1 / 2 * (1 / 4) ^ n := by
  have hfirst : |logTerm q 0| = |q| := by
    rw [abs_logTerm]
    norm_num
  have hterm := abs_logTerm_add_le hq 0 n
  rw [add_zero, hfirst] at hterm
  exact hterm.trans (mul_le_mul_of_nonneg_right hq (by positivity))

theorem abs_logSum_le_one (hq : |q| ≤ 1 / 2) (n : ℕ) : |logSum q n| ≤ 1 := by
  have hsum : |logSum q n| ≤ 1 - (1 / 4) ^ n := by
    induction n with
    | zero => simp [logSum]
    | succ n ih =>
      have hterm := abs_logTerm_le hq n
      have hpow : (0 : ℚ) < (1 / 4) ^ n := by positivity
      rw [logSum_succ, pow_succ]
      have htriangle := abs_add_le (logSum q n) (logTerm q n)
      linarith
  have hpow : (0 : ℚ) < (1 / 4) ^ n := by positivity
  linarith

/-- The terms that are left make no more than a third above the first of them. -/
theorem abs_logSum_sub_le (hq : |q| ≤ 1 / 2) (n : ℕ) :
    |2 * (logSum q n : ℝ) - (Real.log (1 + q) - Real.log (1 - q))|
      ≤ 8 / 3 * ((|logTerm q n| : ℚ) : ℝ) := by
  have hqR : |(q : ℝ)| < 1 := by
    have hlt : |q| < 1 := by linarith
    exact_mod_cast hlt
  have hseries : HasSum (fun k => 2 * ((logTerm q k : ℚ) : ℝ))
      (Real.log (1 + q) - Real.log (1 - q)) := by
    have hterms : (fun k : ℕ => 2 * (1 / (2 * (k : ℝ) + 1)) * (q : ℝ) ^ (2 * k + 1))
        = fun k => 2 * ((logTerm q k : ℚ) : ℝ) := by
      funext k
      unfold logTerm
      push_cast
      ring
    exact hterms ▸ Real.hasSum_log_sub_log_of_abs_lt_one hqR
  have hrest := (hasSum_nat_add_iff' n).2 hseries
  have hgeometric : HasSum (fun k : ℕ => 2 * ((|logTerm q n| : ℚ) : ℝ) * (1 / 4) ^ k)
      (2 * ((|logTerm q n| : ℚ) : ℝ) * (1 - 1 / 4)⁻¹) :=
    (hasSum_geometric_of_lt_one (by norm_num) (by norm_num)).mul_left _
  have hbound := hrest.norm_le_of_bounded hgeometric fun k => by
    have hterm : ((|logTerm q (k + n)| : ℚ) : ℝ) ≤ (|logTerm q n| * (1 / 4) ^ k : ℚ) :=
      Rat.cast_le.2 (abs_logTerm_add_le hq n k)
    push_cast at hterm ⊢
    rw [Real.norm_eq_abs, abs_mul, abs_of_pos (two_pos : (0 : ℝ) < 2)]
    linarith
  rw [← Finset.mul_sum, Real.norm_eq_abs, abs_sub_comm] at hbound
  have hcast : (logSum q n : ℝ) = ∑ j ∈ Finset.range n, ((logTerm q j : ℚ) : ℝ) := by
    unfold logSum
    push_cast
    rfl
  rw [hcast]
  refine hbound.trans_eq ?_
  ring

end Terms

/-! ## §6. The series in working precision. -/

/-- What is known of the running value and of the sum in front of the term with this index. -/
structure LogNear (q : ℚ) (index : ℕ) (t s : Wide) : Prop where
  /-- The running value has at most 57 places. -/
  term_scale : t.scale ≤ 57
  /-- The sum has at most 57 places. -/
  sum_scale : s.scale ≤ 57
  /-- The running value is next to the power before. -/
  term_off : |t.value - q ^ (2 * index - 1)| ≤ 1 / 10 ^ 54
  /-- The sum is next to the sum of the terms before. -/
  sum_off : |s.value - logSum q index| ≤ index / 10 ^ 48

/-- The sum of the series, next to half of a logarithm. -/
def IsHalfLog (q : ℚ) (w : Wide) : Prop :=
  w.scale ≤ 57 ∧ |((2 * w.value : ℚ) : ℝ) - (Real.log (1 + q) - Real.log (1 - q))|
    ≤ ((3 / 10 ^ 28 : ℚ) : ℝ)

section Series

variable {q : ℚ} {index : ℕ} {t s square : Wide}

theorem abs_pow_le_half (hq : |q| ≤ 1 / 2) {k : ℕ} (hk : k ≠ 0) : |q ^ k| ≤ 1 / 2 := by
  rw [abs_pow]
  exact (pow_le_of_le_one (abs_nonneg q) (by linarith) hk).trans hq

/-- The next power: a product with the square. -/
theorem exists_logPower {k : ℕ} (hq : |q| ≤ 1 / 2)
    (hsquare : |square.value - q ^ 2| ≤ 1 / 10 ^ 55) (hk : k ≠ 0)
    (ht : |t.value - q ^ k| ≤ 1 / 10 ^ 54) :
    ∃ t', t.mul square = some t' ∧ t'.scale ≤ 57 ∧ |t'.value - q ^ (k + 2)| ≤ 1 / 10 ^ 54 := by
  have hpow := abs_pow_le_half hq hk
  have hsquaresize : |square.value| ≤ 1 / 2 := by
    have hpowsize : |q ^ 2| ≤ 1 / 4 := by
      rw [abs_pow]
      exact (pow_le_pow_left₀ (abs_nonneg q) hq 2).trans (by norm_num)
    have htriangle := abs_sub_abs_le_abs_sub square.value (q ^ 2)
    linarith
  have htsize : |t.value| ≤ 1 := by
    have htriangle := abs_sub_abs_le_abs_sub t.value (q ^ k)
    linarith
  obtain ⟨t', ht', hts', htoff⟩ := Wide.exists_product (x := t) (y := square) (by
    rw [← Wide.abs_value, ← Wide.abs_value]
    have hmul := mul_le_mul htsize hsquaresize (abs_nonneg _) zero_le_one
    linarith)
  refine ⟨t', ht', hts', ?_⟩
  -- what both factors are off by
  have hsplit : t.value * square.value - q ^ (k + 2)
      = (t.value - q ^ k) * square.value + q ^ k * (square.value - q ^ 2) := by
    rw [pow_add]
    ring
  have hfirst : |(t.value - q ^ k) * square.value| ≤ 1 / 10 ^ 54 * (1 / 2) := by
    rw [abs_mul]
    exact mul_le_mul ht hsquaresize (abs_nonneg _) (by norm_num)
  have hsecond : |q ^ k * (square.value - q ^ 2)| ≤ 1 / 2 * (1 / 10 ^ 55) := by
    rw [abs_mul]
    exact mul_le_mul hpow hsquare (abs_nonneg _) (by norm_num)
  have hproduct : |t.value * square.value - q ^ (k + 2)| ≤ 6 / 10 ^ 55 := by
    rw [hsplit]
    refine (abs_add_le _ _).trans ?_
    linarith
  have htriangle := abs_sub_le t'.value (t.value * square.value) (q ^ (k + 2))
  linarith

/-- A term: a quotient of a power. -/
theorem divSmall_logTerm {n : ℕ} (hq : |q| ≤ 1 / 2) (ht : t.scale ≤ 57)
    (hoff : |t.value - q ^ (2 * n + 1)| ≤ 1 / 10 ^ 54) :
    (t.divSmall (2 * n + 1)).scale ≤ 57
      ∧ |(t.divSmall (2 * n + 1)).value - logTerm q n| ≤ 2 / 10 ^ 49 := by
  have hsize : t.size ≤ 6 := by
    rw [← Wide.abs_value]
    have hpow := abs_pow_le_half hq (show 2 * n + 1 ≠ 0 by omega)
    have htriangle := abs_sub_abs_le_abs_sub t.value (q ^ (2 * n + 1))
    linarith
  obtain ⟨hscale, hdoff⟩ := Wide.divSmall_off (show 0 < 2 * n + 1 by omega) ht hsize
  refine ⟨hscale, ?_⟩
  have hdivisor : (1 : ℚ) ≤ (2 * n + 1 : ℕ) := by exact_mod_cast Nat.succ_pos _
  have hshare : |t.value / (2 * n + 1 : ℕ) - logTerm q n| ≤ 1 / 10 ^ 54 := by
    rw [logTerm, ← sub_div, abs_div, Nat.abs_cast]
    exact (div_le_self (abs_nonneg _) hdivisor).trans hoff
  have htriangle := abs_sub_le (t.divSmall (2 * n + 1)).value (t.value / (2 * n + 1 : ℕ))
    (logTerm q n)
  linarith

/-- A step of the series. -/
theorem LogNear.next (hq : |q| ≤ 1 / 2) (hsquare : |square.value - q ^ 2| ≤ 1 / 10 ^ 55)
    (hindex : 1 ≤ index) (hlast : index < 100) (h : LogNear q index t s) :
    ∃ t' s', t.mul square = some t' ∧ s.add (t'.divSmall (2 * index + 1)) = some s'
      ∧ LogNear q (index + 1) t' s'
      ∧ |(t'.divSmall (2 * index + 1)).value - logTerm q index| ≤ 2 / 10 ^ 49 := by
  obtain ⟨-, hss, hterm, hsum⟩ := h
  obtain ⟨t', ht', hts', hterm'⟩ := exists_logPower hq hsquare (by omega) hterm
  rw [show 2 * index - 1 + 2 = 2 * index + 1 by omega] at hterm'
  obtain ⟨hus, hu⟩ := divSmall_logTerm hq hts' hterm'
  have hlastQ : (index : ℚ) ≤ 100 := by exact_mod_cast hlast.le
  have hssize : s.size ≤ 2 := by
    rw [← Wide.abs_value]
    have htriangle := abs_sub_abs_le_abs_sub s.value (logSum q index)
    linarith [abs_logSum_le_one hq index]
  have husize : (t'.divSmall (2 * index + 1)).size ≤ 1 := by
    rw [← Wide.abs_value]
    have hpower : (1 / 4 : ℚ) ^ index ≤ 1 := pow_le_one₀ (by norm_num) (by norm_num)
    have htriangle := abs_sub_abs_le_abs_sub (t'.divSmall (2 * index + 1)).value (logTerm q index)
    linarith [abs_logTerm_le hq index]
  obtain ⟨s', hs', hss', hsvalue⟩ := Wide.exists_add hss hus (by linarith)
  refine ⟨t', s', ht', hs', ⟨hts', hss', hterm', ?_⟩, hu⟩
  have hsplit : s'.value - logSum q (index + 1)
      = (s.value - logSum q index)
        + ((t'.divSmall (2 * index + 1)).value - logTerm q index) := by
    rw [hsvalue, logSum_succ]
    ring
  have htriangle := abs_add_le (s.value - logSum q index)
    ((t'.divSmall (2 * index + 1)).value - logTerm q index)
  rw [hsplit]
  push_cast
  linarith

/-- The sum is next to half of the logarithm as soon as the next term is small. -/
theorem LogNear.isHalfLog (hq : |q| ≤ 1 / 2) (hlast : index ≤ 100) (h : LogNear q index t s)
    (hsmall : |logTerm q index| ≤ 9 / 10 ^ 29) : IsHalfLog q s := by
  have hseries := abs_logSum_sub_le hq index
  have hsum : |(s.value : ℝ) - logSum q index| ≤ index / 10 ^ 48 :=
    abs_cast_sub_le h.sum_off (by push_cast; exact le_rfl)
  have hlastR : (index : ℝ) ≤ 100 := by exact_mod_cast hlast
  have hsmallR : ((|logTerm q index| : ℚ) : ℝ) ≤ 9 / 10 ^ 29 := by
    rw [← Rat.cast_le (K := ℝ)] at hsmall
    push_cast at hsmall ⊢
    exact hsmall
  refine ⟨h.sum_scale, ?_⟩
  push_cast
  rw [abs_le] at hseries hsum ⊢
  constructor <;> linarith

/-- **The series** of a number up to a half. -/
theorem exists_logSeries {z : Decimal} (hz : |z.value| ≤ 1 / 2)
    (hsquare : |square.value - z.value ^ 2| ≤ 1 / 10 ^ 55) :
    ∃ w, Wide.sumSeries (fun n t => (t.mul square).map fun t => (t, t.divSmall (2 * n + 1)))
        99 1 (ofDecimal z) (ofDecimal z) = some w ∧ IsHalfLog z.value w := by
  have hscale : (ofDecimal z).scale ≤ 57 := (Wide.inRange_ofDecimal z).scale_le
  have hfirst : LogNear z.value 1 (ofDecimal z) (ofDecimal z) := by
    refine ⟨hscale, hscale, ?_, ?_⟩
    · rw [Wide.value_ofDecimal, show 2 * 1 - 1 = 1 from rfl, pow_one, sub_self, abs_zero]
      positivity
    · have hsum : logSum z.value 1 = z.value := by
        norm_num [logSum, logTerm]
      rw [Wide.value_ofDecimal, hsum, sub_self, abs_zero]
      positivity
  refine Wide.sumSeries_of_invariant 100
    (I := fun index t s => 1 ≤ index ∧ LogNear z.value index t s) ?_ ?_ 99 1 _ _ rfl
    ⟨le_rfl, hfirst⟩
  · rintro index t s hlast ⟨hindex, h⟩
    obtain ⟨t', s', ht', hs', h', hu⟩ := h.next hz hsquare hindex hlast
    refine ⟨t', _, s', by rw [ht']; rfl, hs', ⟨by omega, h'⟩, fun htiny => ?_⟩
    have hterm : |logTerm z.value index| ≤ 9 / 10 ^ 29 := by
      have htinysize := Wide.abs_le_of_isTiny htiny
      have htriangle := abs_sub_abs_le_abs_sub (logTerm z.value index)
        (t'.divSmall (2 * index + 1)).value
      rw [abs_sub_comm] at hu
      linarith
    have hshrinks := abs_logTerm_succ_le hz index
    exact h'.isHalfLog hz hlast (by linarith [abs_nonneg (logTerm z.value index)])
  · rintro t s ⟨-, h⟩
    exact h.isHalfLog hz le_rfl ((abs_logTerm_le hz 100).trans (by norm_num))

end Series

/-! ## §7. The logarithm. -/

section Logarithm

variable {b r : Decimal}

/-- The two halves of the series: `r = (1 + z) / (1 - z)`. -/
theorem log_quotient {x : ℝ} (hx : 0 < x) :
    Real.log (1 + (x - 1) / (x + 1)) - Real.log (1 - (x - 1) / (x + 1)) = Real.log x := by
  have hbelow : x + 1 ≠ 0 := by linarith
  have hplus : 1 + (x - 1) / (x + 1) = 2 * x / (x + 1) := by
    field_simp
    ring
  have hminus : 1 - (x - 1) / (x + 1) = 2 / (x + 1) := by
    field_simp
    ring
  rw [hplus, hminus, Real.log_div (by linarith) hbelow, Real.log_div two_ne_zero hbelow,
    Real.log_mul two_ne_zero hx.ne']
  ring

/-- A decimal and an integer that make a small number make a decimal. -/
theorem isDecimal_add_intCast (x : Decimal) (n : ℤ) (h : |x.value + n| ≤ 3) :
    IsDecimal (x.value + n) := by
  have hpow : (0 : ℚ) < 10 ^ x.scale := by positivity
  have hvalue : x.value + n = ((x.digits + n * 10 ^ x.scale : ℤ) : ℚ) / 10 ^ x.scale := by
    rw [value_eq_digits]
    push_cast
    field_simp
  refine ⟨x.digits + n * 10 ^ x.scale, x.scale, ?_, x.scale_le, hvalue⟩
  have hplaces : (10 : ℚ) ^ x.scale ≤ 10 ^ 28 := pow_le_pow_right₀ (by norm_num) x.scale_le
  rw [hvalue, abs_div, abs_of_pos hpow, div_le_iff₀ hpow] at h
  have hlt : ((|x.digits + n * 10 ^ x.scale| : ℤ) : ℚ) < 2 ^ 96 := by
    rw [Int.cast_abs]
    refine lt_of_le_of_lt h ?_
    norm_num at hplaces ⊢
    linarith
  exact_mod_cast hlt

/-- The quotient of the series, next to the exact one. -/
theorem exists_quotient (hr : 36 / 100 ≤ r.value) (hr1 : r.value ≤ 1 + 1 / 10 ^ 28) :
    ∃ above below z, r.sub one = some above ∧ r.add one = some below ∧ above.div below = some z
      ∧ |(r.value - 1) / (r.value + 1)| ≤ 48 / 100
      ∧ |z.value - (r.value - 1) / (r.value + 1)| ≤ 1 / 10 ^ 28 := by
  obtain ⟨above, habove, habovevalue⟩ := (sub_rounds r one).exact (by
    rw [value_one, sub_eq_add_neg, show (-1 : ℚ) = ((-1 : ℤ) : ℚ) by norm_num]
    apply isDecimal_add_intCast
    rw [abs_le]
    push_cast
    constructor <;> linarith)
  obtain ⟨below, hbelow, hbelowvalue⟩ := (add_rounds r one).exact (by
    rw [value_one, show (1 : ℚ) = ((1 : ℤ) : ℚ) by norm_num]
    apply isDecimal_add_intCast
    rw [abs_le]
    push_cast
    constructor <;> linarith)
  rw [value_one] at habovevalue hbelowvalue
  have hpos : 0 < r.value + 1 := by linarith
  have hexact : |(r.value - 1) / (r.value + 1)| ≤ 48 / 100 := by
    rw [abs_le, le_div_iff₀ hpos, div_le_iff₀ hpos]
    constructor <;> linarith
  have hrounds := div_rounds above (isZero_eq_false (hbelowvalue ▸ hpos.ne'))
  rw [habovevalue, hbelowvalue] at hrounds
  obtain ⟨z, hz, hoff⟩ := hrounds.exists_off le_rfl (by norm_num) (hexact.trans (by norm_num))
  exact ⟨above, below, z, habove, hbelow, hz, hexact, hoff⟩

/-- The logarithm that the series stands for, at two quotients next to each other. -/
theorem abs_quotientLog_sub_le {q z : ℚ} (hq : |q| ≤ 1 / 2) (hz : |z| ≤ 1 / 2)
    (h : |z - q| ≤ 1 / 10 ^ 28) :
    |Real.log (1 + z) - Real.log (1 - z) - (Real.log (1 + q) - Real.log (1 - q))|
      ≤ 5 / 10 ^ 28 := by
  have hq := abs_le.1 (abs_cast_le (δ := 1 / 2) hq (by norm_num))
  have hz := abs_le.1 (abs_cast_le (δ := 1 / 2) hz (by norm_num))
  have hoff := abs_cast_sub_le (δ := 1 / 10 ^ 28) h (by norm_num)
  have hplusoff : |1 + (z : ℝ) - (1 + q)| ≤ 1 / 10 ^ 28 := by
    rwa [add_sub_add_left_eq_sub]
  have hminusoff : |1 - (z : ℝ) - (1 - q)| ≤ 1 / 10 ^ 28 := by
    rwa [sub_sub_sub_cancel_left, abs_sub_comm]
  have hplus := abs_log_sub_log_le (m := 1 / 2) (by norm_num) (by linarith) (by linarith) hplusoff
  have hminus := abs_log_sub_log_le (m := 1 / 2) (by norm_num) (by linarith) (by linarith)
    hminusoff
  rw [abs_le] at hplus hminus ⊢
  constructor <;> linarith

/-- The logarithm of a reduced number is not large. -/
theorem abs_log_le (hr : 36 / 100 ≤ r.value) (hr1 : r.value ≤ 1 + 1 / 10 ^ 28) :
    |Real.log r.value| ≤ 178 / 100 := by
  have hone : |r.value - 1| ≤ 64 / 100 := by
    rw [abs_le]
    constructor <;> linarith
  have honeR := abs_cast_sub_le (δ := 64 / 100) hone (by norm_num)
  rw [Rat.cast_one] at honeR
  have hleast : (36 / 100 : ℝ) ≤ r.value := by linarith [(abs_le.1 honeR).1]
  have hoff := abs_log_sub_log_le (by norm_num) hleast (by norm_num) honeR
  rw [Real.log_one, sub_zero] at hoff
  exact hoff.trans (by norm_num)

/-- Twice the sum of the series, as a decimal. -/
theorem exists_double {sum : Wide} (hsize : |2 * sum.value| ≤ 19 / 10) :
    ∃ w l, Wide.two.mul sum = some w ∧ w.toDecimal? = some l ∧ |l.value| ≤ 2
      ∧ |l.value - 2 * sum.value| ≤ 6 / 10 ^ 28 + 1 / 10 ^ 55 := by
  have htwo : Wide.two.value = 2 := by
    norm_num [Wide.two, Wide.value, Wide.size, signed]
  obtain ⟨w, hw, hscale, hoff⟩ := Wide.exists_product (x := Wide.two) (y := sum) (by
    rw [← Wide.abs_value, ← Wide.abs_value, ← abs_mul, htwo]
    linarith)
  rw [htwo] at hoff
  have hwsize : w.size ≤ 2 := by
    rw [← Wide.abs_value]
    have htriangle := abs_sub_abs_le_abs_sub w.value (2 * sum.value)
    linarith
  obtain ⟨l, hl⟩ := Wide.exists_toDecimal?
    ⟨Wide.lt_limit_of_le hscale (show w.size ≤ 6 by linarith), hscale⟩
    (by linarith) (Or.inl (by linarith))
  have hdouble : |l.value - 2 * sum.value| ≤ 6 / 10 ^ 28 + 1 / 10 ^ 55 := by
    have hround := Wide.toDecimal?_off hl
    have hmax : Max.max 1 w.size ≤ 2 := max_le (by norm_num) hwsize
    rw [Wide.abs_value] at hround
    unfold Wide.decimalRoundoff at hround
    have htriangle := abs_sub_le l.value w.value (2 * sum.value)
    linarith
  refine ⟨w, l, hw, hl, ?_, hdouble⟩
  have htriangle := abs_sub_abs_le_abs_sub l.value (2 * sum.value)
  linarith

/-- **The logarithm of a reduced number.** -/
theorem exists_lnSeries (hr : 36 / 100 ≤ r.value) (hr1 : r.value ≤ 1 + 1 / 10 ^ 28) :
    ∃ l, lnSeries r = some l ∧ |l.value| ≤ 2
      ∧ |(l.value : ℝ) - Real.log r.value| ≤ 15 / 10 ^ 28 := by
  obtain ⟨above, below, z, habove, hbelow, hz, hexact, hzoff⟩ := exists_quotient hr hr1
  have hzsize : |z.value| ≤ 1 / 2 := by
    have htriangle := abs_sub_abs_le_abs_sub z.value ((r.value - 1) / (r.value + 1))
    linarith
  have hzpow : |z.value * z.value| ≤ 1 / 4 := by
    rw [abs_mul]
    exact (mul_le_mul hzsize hzsize (abs_nonneg _) (by norm_num)).trans (by norm_num)
  obtain ⟨square, hsquare, -, hsquareoff⟩ :=
    Wide.exists_product (x := ofDecimal z) (y := ofDecimal z) (by
      rw [← Wide.abs_value, Wide.value_ofDecimal, ← abs_mul]
      linarith)
  rw [Wide.value_ofDecimal, ← pow_two] at hsquareoff
  obtain ⟨sum, hsum, -, hsumoff⟩ := exists_logSeries hzsize hsquareoff
  -- twice the sum is next to the logarithm
  have hquotient : |Real.log (1 + z.value) - Real.log (1 - z.value) - Real.log r.value|
      ≤ 5 / 10 ^ 28 := by
    have hpos : (0 : ℝ) < r.value := by
      have hlt : 0 < r.value := by linarith
      exact_mod_cast hlt
    have hlogs := abs_quotientLog_sub_le (hexact.trans (by norm_num)) hzsize hzoff
    push_cast at hlogs
    rwa [log_quotient hpos] at hlogs
  have hdouble : |((2 * sum.value : ℚ) : ℝ) - Real.log r.value| ≤ 8 / 10 ^ 28 := by
    have htriangle := abs_sub_le ((2 * sum.value : ℚ) : ℝ)
      (Real.log (1 + z.value) - Real.log (1 - z.value)) (Real.log r.value)
    push_cast at hsumoff htriangle ⊢
    linarith
  have hsize : |2 * sum.value| ≤ 19 / 10 := by
    have htriangle := abs_sub_abs_le_abs_sub ((2 * sum.value : ℚ) : ℝ) (Real.log r.value)
    have hle : |((2 * sum.value : ℚ) : ℝ)| ≤ ((19 / 10 : ℚ) : ℝ) := by
      have hlog := abs_log_le hr hr1
      push_cast at htriangle hdouble ⊢
      linarith
    exact_mod_cast hle
  obtain ⟨w, l, hw, hl, hlsize, hloff⟩ := exists_double hsize
  refine ⟨l, ?_, hlsize, ?_⟩
  · unfold lnSeries
    dsimp only
    rw [habove, Option.bind_some, hbelow, Option.bind_some, hz, Option.bind_some, hsquare,
      Option.bind_some, hsum, Option.bind_some, hw, Option.bind_some, hl]
  · have hloffR := abs_cast_sub_le (δ := 6 / 10 ^ 28 + 1 / 10 ^ 55) hloff (by norm_num)
    have htriangle := abs_sub_le (l.value : ℝ) ((2 * sum.value : ℚ) : ℝ) (Real.log r.value)
    linarith

theorem value_lnTen : lnTen.value = 2302585092994045684017991454 / 10 ^ 27 := by
  norm_num [lnTen, value, size, signed]

/-- The constant is the logarithm of ten, as far as it is needed. -/
theorem abs_lnTen_sub_le : |(lnTen.value : ℝ) - Real.log 10| ≤ 5 / 10 ^ 10 := by
  have htwo := Real.log_two_near_10
  have hquarter := Real.abs_log_sub_add_sum_range_le (x := 1 / 5) (by norm_num [abs_of_pos]) 14
  norm_num [Finset.sum_range_succ, abs_of_pos] at hquarter
  have hten : Real.log 10 = 3 * Real.log 2 - Real.log (4 / 5) := by
    have hparts : (10 : ℝ) = 2 ^ 3 / (4 / 5) := by norm_num
    rw [hparts, Real.log_div (by norm_num) (by norm_num), Real.log_pow]
    push_cast
    ring
  rw [hten, value_lnTen, abs_le]
  push_cast
  rw [abs_le] at htwo hquarter
  constructor <;> linarith

theorem exists_ofInt? {n : ℤ} (h : |n| < 2 ^ 96) : ∃ x, ofInt? n = some x ∧ x.value = n := by
  have hcoefficient : n.natAbs < 2 ^ 96 := by
    rw [← Int.ofNat_lt, Int.natCast_natAbs]
    exact_mod_cast h
  obtain ⟨x, hx⟩ := exists_make? (decide (n < 0)) hcoefficient (Nat.zero_le 28)
  refine ⟨x, hx, ?_⟩
  rw [value_make? hx, pow_zero, div_one]
  rcases lt_or_ge n 0 with hneg | hpos
  · rw [decide_eq_true hneg, signed, if_pos rfl, Nat.cast_natAbs, abs_of_neg hneg, Int.cast_neg,
      neg_neg]
  · rw [decide_eq_false (not_lt.2 hpos), signed, if_neg Bool.false_ne_true, Nat.cast_natAbs,
      abs_of_nonneg hpos]

/-- The logarithm of a power of ten. -/
theorem exists_lnOfPowerOfTen {k : ℕ} (hk : k ≤ 28) :
    ∃ base, lnOfPowerOfTen k = some base ∧ |base.value| ≤ 3 * k
      ∧ |(base.value : ℝ) - k * Real.log 10| ≤ k * (6 / 10 ^ 10) := by
  unfold lnOfPowerOfTen
  rcases Nat.eq_zero_or_pos k with rfl | hpos
  · exact ⟨zero, rfl, by simp, by simp⟩
  · obtain ⟨n, hn, hnvalue⟩ := exists_ofInt? (n := k) (by rw [Nat.abs_cast]; omega)
    rw [Int.cast_natCast] at hnvalue
    have hkQ : (1 : ℚ) ≤ k := by exact_mod_cast hpos
    have hkmax : (k : ℚ) ≤ 28 := by exact_mod_cast hk
    have hsize : |n.value * lnTen.value| ≤ 5 / 2 * k := by
      rw [hnvalue, value_lnTen, abs_of_nonneg (by positivity)]
      linarith
    obtain ⟨base, hbase, hoff⟩ :=
      (mul_rounds n lnTen).exists_off (by linarith) (by linarith) hsize
    rw [hnvalue] at hsize hoff
    refine ⟨base, ?_, ?_, ?_⟩
    · rw [if_neg (by exact_mod_cast hpos.ne'), hn, Option.bind_some, hbase]
    · have htriangle := abs_sub_abs_le_abs_sub base.value (k * lnTen.value)
      linarith
    · have hkR : (0 : ℝ) ≤ k := Nat.cast_nonneg k
      have hoffR := abs_cast_sub_le (δ := k / 10 ^ 27) hoff (by push_cast; linarith)
      have hconstant : |(k : ℝ) * lnTen.value - k * Real.log 10| ≤ k * (5 / 10 ^ 10) := by
        rw [← mul_sub, abs_mul, Nat.abs_cast]
        exact mul_le_mul_of_nonneg_left abs_lnTen_sub_le hkR
      have htriangle := abs_sub_le (base.value : ℝ) (k * lnTen.value) (k * Real.log 10)
      push_cast at hoffR
      linarith

/-- The three parts of a logarithm are summed up, with a rounding for each sum. -/
theorem exists_sums {base es l : Decimal} {k : ℚ} (hk : 0 ≤ k) (hkmax : k ≤ 28)
    (hbase : |base.value| ≤ 3 * k) (hes : |es.value| ≤ 3) (hl : |l.value| ≤ 2) :
    ∃ above sum, base.add es = some above ∧ above.add l = some sum
      ∧ |sum.value - (base.value + es.value + l.value)| ≤ (9 + 6 * k) / 10 ^ 28 := by
  have hfirst := abs_add_le base.value es.value
  obtain ⟨above, habove, haboveoff⟩ := (add_rounds base es).exists_off (m := 3 + 3 * k)
    (by linarith) (by linarith) (by linarith)
  have habovesize := abs_sub_abs_le_abs_sub above.value (base.value + es.value)
  have hsecond := abs_add_le above.value l.value
  obtain ⟨sum, hsum, hsumoff⟩ := (add_rounds above l).exists_off (m := 6 + 3 * k)
    (by linarith) (by linarith) (by linarith)
  refine ⟨above, sum, habove, hsum, ?_⟩
  have hsplit : sum.value - (base.value + es.value + l.value)
      = (sum.value - (above.value + l.value)) + (above.value - (base.value + es.value)) := by
    ring
  rw [hsplit]
  refine (abs_add_le _ _).trans ?_
  linarith

/-- **The logarithm of a number from one on** is off by little near one, and by some more for every
factor of ten. -/
theorem exists_ln (hb : 1 ≤ b.value) :
    ∃ (l : Decimal) (k : ℕ), ln b = some l ∧ (10 : ℚ) ^ k ≤ b.value
      ∧ |(l.value : ℝ) - Real.log b.value| ≤ 5 / 10 ^ 27 + k / 10 ^ 9 := by
  unfold ln
  by_cases hsame : b.sameValue one = true
  · have hone : b.value = 1 := by rw [(sameValue_iff _ _).1 hsame, value_one]
    rw [if_pos hsame]
    refine ⟨zero, 0, rfl, by rw [pow_zero]; exact hb, ?_⟩
    rw [hone, value_zero]
    norm_num
  · rw [if_neg hsame]
    obtain ⟨y, k, hy, hy1, hy10, hvalue⟩ := exists_withoutTens hb
    have hpow : (10 : ℚ) ^ k ≤ b.value := by
      rw [hvalue]
      exact le_mul_of_one_le_left (by positivity) hy1
    have hk := le_of_ten_pow_le hpow
    obtain ⟨base, hbase, hbasesize, hbaseoff⟩ := exists_lnOfPowerOfTen hk
    have hypos : (0 : ℝ) < y.value := by exact_mod_cast zero_lt_one.trans_le hy1
    have hlog : Real.log b.value = Real.log y.value + k * Real.log 10 := by
      rw [hvalue]
      push_cast
      rw [Real.log_mul hypos.ne' (by positivity), Real.log_pow]
    have hkR : (0 : ℝ) ≤ k := Nat.cast_nonneg k
    rw [hy, Option.bind_some]
    dsimp only
    rw [hbase, Option.bind_some]
    by_cases hyone : y.sameValue one = true
    · -- nothing but tens
      have hone : y.value = 1 := by rw [(sameValue_iff _ _).1 hyone, value_one]
      rw [if_pos hyone]
      refine ⟨base.norm, k, rfl, hpow, ?_⟩
      rw [value_norm, hlog, hone, Rat.cast_one, Real.log_one, zero_add]
      linarith
    · rw [if_neg hyone]
      obtain ⟨⟨r, n⟩, hr, hleast, hmost, hne, hfew, hoff⟩ := exists_withoutEs hy1 hy10
      rw [value_inverseE] at hleast
      obtain ⟨es, hes, hesvalue⟩ := exists_ofInt? (n := n) (by dsimp only at hfew; omega)
      have hessize : |es.value| ≤ 3 := by
        rw [hesvalue, ← Int.cast_abs]
        exact_mod_cast hfew
      have hrone : ¬ r.sameValue one = true := fun h => hne ((sameValue_iff _ _).1 h ▸ value_one)
      obtain ⟨l, hl, hlsize, hloff⟩ := exists_lnSeries (r := r) (by linarith) hmost
      obtain ⟨above, sum, habove, hsum, hsumoff⟩ := exists_sums (k := k) (Nat.cast_nonneg k)
        (by exact_mod_cast hk) hbasesize hessize hlsize
      rw [hr, Option.bind_some]
      dsimp only
      rw [hes, Option.bind_some, if_neg hrone, hl, Option.bind_some, habove, Option.bind_some, hsum]
      refine ⟨sum.norm, k, rfl, hpow, ?_⟩
      have hsums := abs_cast_sub_le (δ := (9 + 6 * k) / 10 ^ 28) hsumoff (by push_cast; exact le_rfl)
      rw [hesvalue] at hsums
      push_cast at hsums
      rw [value_norm, hlog]
      rw [abs_le] at hsums hbaseoff hoff hloff ⊢
      constructor <;> linarith

end Logarithm

end Decimal

end ShapeEstimator
