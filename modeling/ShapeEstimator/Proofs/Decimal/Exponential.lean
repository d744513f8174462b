/-
  ShapeEstimator.Proofs.Decimal.Exponential
  ────────────────────────────────
  **THE EXPONENTIAL IS ACCURATE WHEREVER THERE IS ROOM FOR IT.**

  The exponential of a number is a power of e for its whole part, times a Taylor sum for the rest:

      exp x  =  e ^ ⌊x⌋ · (1 + r + r² / 2! + …)          r = x - ⌊x⌋

  No term of the sum is greater than one, so none of the steps runs out of room.  What is lost on the
  way is some units of the last of 28 digits, and the inverse for negative numbers adds as many.
-/
import Mathlib.Analysis.Complex.ExponentialBounds
import ShapeEstimator.Decimal.Exponential
import ShapeEstimator.Proofs.Decimal.Exact
import ShapeEstimator.Proofs.Decimal.Series

namespace ShapeEstimator

/-! ## §1. Relative errors. -/

/-- A bound on a rational, as one on a real number. -/
theorem abs_cast_le {p ε : ℚ} {δ : ℝ} (h : |p| ≤ ε) (hε : (ε : ℝ) ≤ δ) : |(p : ℝ)| ≤ δ := by
  have hcast : |(p : ℝ)| ≤ ε := by exact_mod_cast h
  exact hcast.trans hε

/-- What rationals are off by, as real numbers. -/
theorem abs_cast_sub_le {p q ε : ℚ} {δ : ℝ} (h : |p - q| ≤ ε) (hε : (ε : ℝ) ≤ δ) :
    |(p : ℝ) - q| ≤ δ := by
  rw [← Rat.cast_sub]
  exact abs_cast_le h hε

/-- A number that is off from a positive one by a share of it. -/
def CloseTo (ε x y : ℝ) : Prop := |x - y| ≤ ε * y

namespace CloseTo

variable {ε δ x y z u v : ℝ}

theorem mono (h : CloseTo ε x y) (hy : 0 ≤ y) (hεδ : ε ≤ δ) : CloseTo δ x y :=
  le_trans h (mul_le_mul_of_nonneg_right hεδ hy)

theorem of_abs_le (h : |x - y| ≤ ε) (hε : 0 ≤ ε) (hy : 1 ≤ y) : CloseTo ε x y :=
  le_trans h (le_mul_of_one_le_right hε hy)

theorem le (h : CloseTo ε x y) : x ≤ (1 + ε) * y := by
  have hupper := (abs_le.1 h).2
  linarith

theorem ge (h : CloseTo ε x y) : (1 - ε) * y ≤ x := by
  have hlower := (abs_le.1 h).1
  linarith

theorem pos (h : CloseTo ε x y) (hε : ε < 1) (hy : 0 < y) : 0 < x :=
  lt_of_lt_of_le (mul_pos (by linarith) hy) h.ge

theorem trans (h : CloseTo ε x y) (h' : CloseTo δ y z) (hε : 0 ≤ ε) :
    CloseTo (ε + ε * δ + δ) x z := by
  have hyz := mul_le_mul_of_nonneg_left h'.le hε
  unfold CloseTo at h h' ⊢
  calc |x - z| ≤ |x - y| + |y - z| := abs_sub_le x y z
    _ ≤ ε * y + δ * z := add_le_add h h'
    _ ≤ (ε + ε * δ + δ) * z := by linarith

theorem mul (h : CloseTo ε x y) (h' : CloseTo δ u v) (hε : 0 ≤ ε) (hδ : δ < 1) (hy : 0 ≤ y)
    (hv : 0 < v) : CloseTo (ε + ε * δ + δ) (x * u) (y * v) := by
  have hu : |u| ≤ (1 + δ) * v := by
    rw [abs_of_pos (h'.pos hδ hv)]
    exact h'.le
  have hsplit : x * u - y * v = (x - y) * u + y * (u - v) := by ring
  unfold CloseTo at h h' ⊢
  rw [hsplit]
  calc |(x - y) * u + y * (u - v)| ≤ |x - y| * |u| + |y| * |u - v| := by
        rw [← abs_mul, ← abs_mul]
        exact abs_add_le _ _
    _ ≤ ε * y * ((1 + δ) * v) + y * (δ * v) := by
        rw [abs_of_nonneg hy]
        gcongr
    _ = (ε + ε * δ + δ) * (y * v) := by ring

/-- Powers are off by little more than as many shares as there are factors. -/
theorem pow (h : CloseTo ε x y) (hε : 0 ≤ ε) (hε1 : ε < 1) (hy : 0 < y) {n : ℕ}
    (hn : 2 * n * ε ≤ 1) : CloseTo (2 * n * ε) (x ^ n) (y ^ n) := by
  induction n with
  | zero => simp [CloseTo]
  | succ n ih =>
    push_cast at hn ⊢
    have hfew : 2 * n * ε ≤ 1 := by nlinarith
    have hshare : 0 ≤ 2 * n * ε := by positivity
    have hproduct : 2 * n * ε * ε ≤ 1 * ε := mul_le_mul_of_nonneg_right hfew hε
    rw [pow_succ, pow_succ]
    exact ((ih hfew).mul h hshare hε1 (pow_pos hy n).le hy).mono (by positivity) (by linarith)

/-- What rationals are off by, as a share. -/
theorem of_rat {p q δ : ℚ} (h : |p - q| ≤ δ * q) : CloseTo (δ : ℝ) p q := by
  unfold CloseTo
  exact_mod_cast h

end CloseTo

namespace Decimal

open Wide (ofDecimal)

/-! ## §2. The Taylor sum. -/

/-- A term of the exponential series. -/
def expTerm (q : ℚ) (n : ℕ) : ℚ := q ^ n / n.factorial

/-- The first terms of the exponential series. -/
def expSum (q : ℚ) (n : ℕ) : ℚ := ∑ j ∈ Finset.range n, expTerm q j

section Terms

variable {q : ℚ} {n : ℕ}

theorem expTerm_succ (q : ℚ) (n : ℕ) : expTerm q (n + 1) = q * (expTerm q n / (n + 1 : ℕ)) := by
  unfold expTerm
  rw [Nat.factorial_succ, pow_succ]
  push_cast
  field_simp

theorem expTerm_nonneg (hq : 0 ≤ q) (n : ℕ) : 0 ≤ expTerm q n := by
  unfold expTerm
  positivity

theorem expTerm_le_one (hq : 0 ≤ q) (hq1 : q ≤ 1) (n : ℕ) : expTerm q n ≤ 1 := by
  have hfactorial : (1 : ℚ) ≤ n.factorial := by exact_mod_cast n.factorial_pos
  unfold expTerm
  rw [div_le_one (by linarith)]
  exact (pow_le_one₀ hq hq1).trans hfactorial

theorem expTerm_succ_le (hq : 0 ≤ q) (hq1 : q ≤ 1) (n : ℕ) : expTerm q (n + 1) ≤ expTerm q n := by
  have hn : (1 : ℚ) ≤ (n + 1 : ℕ) := by exact_mod_cast Nat.succ_pos n
  have hterm := expTerm_nonneg hq n
  rw [expTerm_succ]
  calc q * (expTerm q n / (n + 1 : ℕ)) ≤ 1 * (expTerm q n / (n + 1 : ℕ)) :=
        mul_le_mul_of_nonneg_right hq1 (by positivity)
    _ ≤ expTerm q n := by
        rw [one_mul]
        exact div_le_self hterm hn

theorem expSum_succ (q : ℚ) (n : ℕ) : expSum q (n + 1) = expSum q n + expTerm q n :=
  Finset.sum_range_succ _ n

theorem cast_expSum (q : ℚ) (n : ℕ) :
    ((expSum q n : ℚ) : ℝ) = ∑ j ∈ Finset.range n, (q : ℝ) ^ j / j.factorial := by
  unfold expSum expTerm
  push_cast
  rfl

theorem expSum_le_exp (hq : 0 ≤ q) (n : ℕ) : ((expSum q n : ℚ) : ℝ) ≤ Real.exp q := by
  rw [cast_expSum]
  exact Real.sum_le_exp_of_nonneg (by exact_mod_cast hq) n

/-- The terms that are left make no more than twice the first of them. -/
theorem exp_le_expSum (hq : 0 ≤ q) (hq1 : q ≤ 1) (hn : 0 < n) :
    Real.exp q ≤ ((expSum q n + 2 * expTerm q n : ℚ) : ℝ) := by
  have hbound := Real.exp_bound' (x := (q : ℝ)) (by exact_mod_cast hq) (by exact_mod_cast hq1) hn
  have hn1 : (1 : ℝ) ≤ n := by exact_mod_cast hn
  have hrest : (q : ℝ) ^ n * (n + 1) / (n.factorial * n) ≤ 2 * (q ^ n / n.factorial) := by
    have hq0 : (0 : ℝ) ≤ q := by exact_mod_cast hq
    have hfactorial : (0 : ℝ) < n.factorial := by exact_mod_cast n.factorial_pos
    rw [mul_div_assoc', div_le_div_iff₀ (by positivity) hfactorial]
    have hpow : 0 ≤ (q : ℝ) ^ n * n.factorial := by positivity
    nlinarith
  have hterm : ((expTerm q n : ℚ) : ℝ) = (q : ℝ) ^ n / n.factorial := by
    unfold expTerm
    push_cast
    rfl
  rw [Rat.cast_add, Rat.cast_mul, cast_expSum, hterm]
  push_cast
  linarith

theorem expSum_le_three (hq : 0 ≤ q) (hq1 : q ≤ 1) (n : ℕ) : expSum q n ≤ 3 := by
  have hexp : Real.exp q ≤ Real.exp 1 := Real.exp_le_exp.2 (by exact_mod_cast hq1)
  have hle : ((expSum q n : ℚ) : ℝ) ≤ 3 := by
    linarith [expSum_le_exp hq n, Real.exp_one_lt_d9]
  exact_mod_cast hle

end Terms

/-! ## §3. The sum in working precision. -/

/-- What is known of the running value and of the sum in front of the term with this index. -/
structure ExpNear (q : ℚ) (index : ℕ) (t s : Wide) : Prop where
  /-- The running value has at most 57 places. -/
  term_scale : t.scale ≤ 57
  /-- The sum has at most 57 places. -/
  sum_scale : s.scale ≤ 57
  /-- The running value is next to the term before. -/
  term_off : |t.value - expTerm q (index - 1)| ≤ 1 / 10 ^ 48
  /-- The sum is next to the sum of the terms before. -/
  sum_off : |s.value - expSum q index| ≤ index / 10 ^ 48

/-- The sum of the series, next to the exponential. -/
def IsExp (q : ℚ) (w : Wide) : Prop :=
  w.scale ≤ 57 ∧ |(w.value : ℝ) - Real.exp q| ≤ ((1 / 10 ^ 27 : ℚ) : ℝ)

section Series

variable {r : Decimal} {index : ℕ} {t s : Wide}

theorem size_le_of_off {x : Wide} {q ε b : ℚ} (hq : 0 ≤ q) (h : |x.value - q| ≤ ε)
    (hb : q + ε ≤ b) : x.size ≤ b := by
  have hsize := abs_sub_abs_le_abs_sub x.value q
  rw [Wide.abs_value, abs_of_nonneg hq] at hsize
  linarith

/-- The next term: a product with the number, of a quotient by the index. -/
theorem exists_expTerm {n : ℕ} (hr : 0 ≤ r.value) (hr1 : r.value < 1) (hn : 2 ≤ n + 1)
    (ht : t.scale ≤ 57) (hoff : |t.value - expTerm r.value n| ≤ 1 / 10 ^ 48) :
    ∃ t', (ofDecimal r).mul (t.divSmall (n + 1)) = some t' ∧ t'.scale ≤ 57
      ∧ |t'.value - expTerm r.value (n + 1)| ≤ 1 / 10 ^ 48 := by
  have hT := expTerm_nonneg hr n
  have hT1 := expTerm_le_one hr hr1.le n
  have hindex : (2 : ℚ) ≤ (n + 1 : ℕ) := by exact_mod_cast hn
  have hshare : 0 ≤ expTerm r.value n / (n + 1 : ℕ) := by positivity
  have hshare1 : expTerm r.value n / (n + 1 : ℕ) ≤ 1 := (div_le_self hT (by linarith)).trans hT1
  -- the quotient, next to the quotient of the term
  obtain ⟨-, hdoff⟩ := Wide.divSmall_off n.succ_pos ht (size_le_of_off hT hoff (by linarith))
  have hquotient : |(t.divSmall (n + 1)).value - expTerm r.value n / (n + 1 : ℕ)| ≤ 6 / 10 ^ 49 := by
    have hscaled : |t.value / (n + 1 : ℕ) - expTerm r.value n / (n + 1 : ℕ)| ≤ 1 / 10 ^ 48 / 2 := by
      rw [← sub_div, abs_div, abs_of_pos (show (0 : ℚ) < (n + 1 : ℕ) by linarith)]
      exact div_le_div₀ (by norm_num) hoff (by norm_num) hindex
    have htriangle := abs_sub_le (t.divSmall (n + 1)).value (t.value / (n + 1 : ℕ))
      (expTerm r.value n / (n + 1 : ℕ))
    linarith
  -- the product, next to the next term
  have hproduct : (ofDecimal r).size * (t.divSmall (n + 1)).size ≤ 6 := by
    have hrsize : (ofDecimal r).size ≤ 1 := by
      rw [← Wide.abs_value, Wide.value_ofDecimal, abs_of_nonneg hr]
      exact hr1.le
    have hdsize : (t.divSmall (n + 1)).size ≤ 2 := size_le_of_off hshare hquotient (by linarith)
    have hmul := mul_le_mul hrsize hdsize (Wide.size_nonneg _) zero_le_one
    linarith
  obtain ⟨t', ht', hts', htoff⟩ := Wide.exists_product hproduct
  refine ⟨t', ht', hts', ?_⟩
  have hscaled : |(ofDecimal r).value * (t.divSmall (n + 1)).value - expTerm r.value (n + 1)|
      ≤ 6 / 10 ^ 49 := by
    rw [expTerm_succ, Wide.value_ofDecimal, ← mul_sub, abs_mul, abs_of_nonneg hr]
    exact (mul_le_of_le_one_left (abs_nonneg _) hr1.le).trans hquotient
  have htriangle := abs_sub_le t'.value ((ofDecimal r).value * (t.divSmall (n + 1)).value)
    (expTerm r.value (n + 1))
  linarith

/-- A step of the series. -/
theorem ExpNear.next (hr : 0 ≤ r.value) (hr1 : r.value < 1) (hindex : 2 ≤ index)
    (hlast : index < 100) (h : ExpNear r.value index t s) :
    ∃ t' s', (ofDecimal r).mul (t.divSmall index) = some t' ∧ s.add t' = some s'
      ∧ ExpNear r.value (index + 1) t' s' := by
  obtain ⟨n, rfl⟩ := Nat.exists_eq_succ_of_ne_zero (show index ≠ 0 by omega)
  obtain ⟨hts, hss, hterm, hsum⟩ := h
  rw [Nat.succ_eq_add_one, Nat.add_sub_cancel] at hterm
  obtain ⟨t', ht', hts', hterm'⟩ := exists_expTerm hr hr1 hindex hts hterm
  have hS : 0 ≤ expSum r.value n.succ := Finset.sum_nonneg fun j _ => expTerm_nonneg hr j
  have hS3 := expSum_le_three hr hr1.le n.succ
  have hT' := expTerm_nonneg hr n.succ
  have hT1' := expTerm_le_one hr hr1.le n.succ
  have hlastQ : ((n.succ : ℕ) : ℚ) ≤ 100 := by exact_mod_cast hlast.le
  have hssize : s.size ≤ 4 := size_le_of_off hS hsum (by linarith)
  have htsize : t'.size ≤ 2 := size_le_of_off hT' hterm' (by linarith)
  obtain ⟨s', hs', hss', hsvalue⟩ := Wide.exists_add hss hts' (by linarith)
  refine ⟨t', s', ht', hs', hts', hss', hterm', ?_⟩
  have hsplit : s'.value - expSum r.value (n.succ + 1)
      = (s.value - expSum r.value n.succ) + (t'.value - expTerm r.value n.succ) := by
    rw [hsvalue, expSum_succ]
    ring
  have htriangle := abs_add_le (s.value - expSum r.value n.succ) (t'.value - expTerm r.value n.succ)
  rw [hsplit]
  push_cast at hsum ⊢
  linarith

/-- The sum is next to the exponential as soon as the next term is small. -/
theorem ExpNear.isExp (hr : 0 ≤ r.value) (hr1 : r.value < 1) (hindex : 1 ≤ index)
    (hlast : index ≤ 100) (h : ExpNear r.value index t s)
    (hsmall : expTerm r.value index ≤ 9 / 10 ^ 29) : IsExp r.value s := by
  have hlower := expSum_le_exp hr index
  have hupper := exp_le_expSum hr hr1.le hindex
  have hsum : |(s.value : ℝ) - expSum r.value index| ≤ index / 10 ^ 48 :=
    abs_cast_sub_le h.sum_off (by push_cast; exact le_rfl)
  have hindexR : (index : ℝ) ≤ 100 := by exact_mod_cast hlast
  have hsmallR : ((expTerm r.value index : ℚ) : ℝ) ≤ 9 / 10 ^ 29 := by
    rw [← Rat.cast_le (K := ℝ)] at hsmall
    push_cast at hsmall
    exact hsmall
  push_cast at hupper
  refine ⟨h.sum_scale, ?_⟩
  rw [abs_le] at hsum ⊢
  constructor <;> linarith

/-- The sum starts with one and the number itself. -/
theorem exists_expStart (hr : 0 ≤ r.value) (hr1 : r.value < 1) :
    ∃ s, Wide.one.add (ofDecimal r) = some s ∧ ExpNear r.value 2 (ofDecimal r) s := by
  have hrsize : (ofDecimal r).size ≤ 1 := by
    rw [← Wide.abs_value, Wide.value_ofDecimal, abs_of_nonneg hr]
    exact hr1.le
  have hone : Wide.one.size ≤ 1 := by norm_num [Wide.size, Wide.one]
  have hscale : (ofDecimal r).scale ≤ 57 := (Wide.inRange_ofDecimal r).scale_le
  obtain ⟨s, hs, hsscale, hsvalue⟩ :=
    Wide.exists_add (x := Wide.one) (Nat.zero_le _) hscale (by linarith)
  refine ⟨s, hs, hscale, hsscale, ?_, ?_⟩
  · have hterm : expTerm r.value 1 = r.value := by
      norm_num [expTerm]
    rw [show 2 - 1 = 1 from rfl, hterm, Wide.value_ofDecimal, sub_self, abs_zero]
    positivity
  · have hsum : expSum r.value 2 = 1 + r.value := by
      norm_num [expSum, expTerm, Finset.sum_range_succ]
    rw [hsvalue, Wide.value_one, Wide.value_ofDecimal, hsum, sub_self, abs_zero]
    positivity

/-- The term at the end of the series is small for every number. -/
theorem expTerm_hundred_le {q : ℚ} (hq : 0 ≤ q) (hq1 : q ≤ 1) : expTerm q 100 ≤ 9 / 10 ^ 29 := by
  have hpow : q ^ 100 ≤ 1 := pow_le_one₀ hq hq1
  have hfactorial : (10 : ℚ) ^ 29 ≤ (Nat.factorial 100 : ℕ) := by
    exact_mod_cast (by decide +kernel : 10 ^ 29 ≤ Nat.factorial 100)
  unfold expTerm
  calc q ^ 100 / (Nat.factorial 100 : ℕ) ≤ 1 / 10 ^ 29 :=
        div_le_div₀ zero_le_one hpow (by positivity) hfactorial
    _ ≤ 9 / 10 ^ 29 := by norm_num

/-- **The Taylor sum** of a number from zero to one. -/
theorem exists_expSeries (hr : 0 ≤ r.value) (hr1 : r.value < 1) :
    ∃ w, expSeries r = some w ∧ IsExp r.value w := by
  unfold expSeries
  by_cases hzero : r.isZero = true
  · rw [if_pos hzero]
    refine ⟨Wide.one, rfl, Nat.zero_le _, ?_⟩
    rw [value_of_isZero hzero, Wide.value_one]
    norm_num
  · rw [if_neg hzero]
    obtain ⟨start, hstart, hfirst⟩ := exists_expStart hr hr1
    dsimp only
    rw [hstart, Option.bind_some]
    refine Wide.sumSeries_of_invariant 100
      (I := fun index t s => 2 ≤ index ∧ ExpNear r.value index t s) ?_ ?_ 98 2 _ _ rfl
      ⟨le_rfl, hfirst⟩
    · rintro index t s hlast ⟨hindex, h⟩
      obtain ⟨t', s', ht', hs', h'⟩ := h.next hr hr1 hindex hlast
      refine ⟨t', t', s', by rw [ht']; rfl, hs', ⟨by omega, h'⟩, fun htiny => ?_⟩
      -- what comes after a tiny term is small
      have hsmall : expTerm r.value index ≤ 9 / 10 ^ 29 := by
        have hoff := h'.term_off
        have htinysize := Wide.abs_le_of_isTiny htiny
        rw [Nat.add_sub_cancel] at hoff
        rw [abs_le] at hoff htinysize
        linarith
      exact h'.isExp hr hr1 (by omega) hlast
        ((expTerm_succ_le hr hr1.le index).trans hsmall)
    · rintro t s ⟨-, h⟩
      exact h.isExp hr hr1 (by norm_num) le_rfl (expTerm_hundred_le hr hr1.le)

/-- The exponential of a number from zero to one is from one to three. -/
theorem exp_between {q : ℚ} (hq : 0 ≤ q) (hq1 : q < 1) :
    1 ≤ Real.exp q ∧ Real.exp q ≤ 3 := by
  have hexp : Real.exp q ≤ Real.exp 1 := Real.exp_le_exp.2 (by exact_mod_cast hq1.le)
  exact ⟨Real.one_le_exp (by exact_mod_cast hq), by linarith [Real.exp_one_lt_d9]⟩

/-- The sum as a share of the exponential, and its size. -/
theorem IsExp.closeTo {q : ℚ} {w : Wide} (hq : 0 ≤ q) (hq1 : q < 1) (h : IsExp q w) :
    CloseTo (1 / 10 ^ 27) w.value (Real.exp q) ∧ 1 / 2 ≤ w.value ∧ w.value ≤ 4 ∧ w.InRange := by
  obtain ⟨hscale, hoff⟩ := h
  obtain ⟨hone, hthree⟩ := exp_between hq hq1
  have hclose : CloseTo (1 / 10 ^ 27) w.value (Real.exp q) :=
    CloseTo.of_abs_le (hoff.trans (by norm_num)) (by norm_num) hone
  have hhalf : 1 / 2 ≤ w.value := by
    have hle : ((1 / 2 : ℚ) : ℝ) ≤ w.value := by
      push_cast
      linarith [hclose.ge]
    exact_mod_cast hle
  have hfour : w.value ≤ 4 := by
    have hle : (w.value : ℝ) ≤ 4 := by linarith [hclose.le]
    exact_mod_cast hle
  have hsize : w.size ≤ 6 := by
    rw [← Wide.abs_value, abs_of_nonneg (by linarith)]
    linarith
  exact ⟨hclose, hhalf, hfour, Wide.lt_limit_of_le hscale hsize, hscale⟩

end Series

/-! ## §4. Whole part and rest. -/

section WholePart

variable {x : Decimal}

/-- The whole part of a number that is not negative. -/
def wholePart (x : Decimal) : ℕ := x.coefficient / 10 ^ x.scale

/-- The digits behind the point, as a number. -/
def rest (x : Decimal) : ℚ := (x.coefficient % 10 ^ x.scale : ℕ) / 10 ^ x.scale

theorem wholePart_add_rest (x : Decimal) : (x.wholePart : ℚ) + x.rest = x.size := by
  have hsplit : ((10 ^ x.scale * (x.coefficient / 10 ^ x.scale) + x.coefficient % 10 ^ x.scale : ℕ)
      : ℚ) = x.coefficient := by
    rw [Nat.div_add_mod]
  unfold wholePart rest size
  push_cast at hsplit
  field_simp
  linarith

theorem rest_nonneg (x : Decimal) : 0 ≤ x.rest := by
  unfold rest
  positivity

theorem rest_lt_one (x : Decimal) : x.rest < 1 := by
  have hmod : x.coefficient % 10 ^ x.scale < 10 ^ x.scale := Nat.mod_lt _ (by positivity)
  unfold rest
  rw [div_lt_one (by positivity)]
  exact_mod_cast hmod

theorem value_eq_size (h : 0 < x.value) : x.value = x.size := by
  rw [← abs_of_pos h]
  exact abs_signed _ x.size_nonneg

/-- The exponential of a number is that of its whole part times that of its rest. -/
theorem exp_value (h : 0 < x.value) :
    Real.exp x.value = Real.exp x.wholePart * Real.exp x.rest := by
  rw [← Real.exp_add, value_eq_size h, ← wholePart_add_rest]
  push_cast
  rfl

/-- A number whose whole part is not zero has an exponential from two on. -/
theorem two_le_exp (h : 0 < x.value) (hwhole : x.wholePart ≠ 0) : 2 ≤ Real.exp x.value := by
  have hone : (1 : ℚ) ≤ x.wholePart := by exact_mod_cast Nat.pos_of_ne_zero hwhole
  have hvalue := wholePart_add_rest x
  rw [← value_eq_size h] at hvalue
  have hle : (1 : ℝ) ≤ x.value := by
    have hle : 1 ≤ x.value := by linarith [x.rest_nonneg]
    exact_mod_cast hle
  linarith [Real.add_one_le_exp (x.value : ℝ)]

/-- A number below 28 has an exponential with few digits before the point. -/
theorem exp_le_of_wholePart_lt (h : 0 < x.value) (hwhole : x.wholePart < 28) :
    Real.exp x.value ≤ 10 ^ 13 := by
  have hpow : Real.exp x.wholePart ≤ 2.7183 ^ 27 := by
    rw [← mul_one (x.wholePart : ℝ), Real.exp_nat_mul]
    calc Real.exp 1 ^ x.wholePart ≤ 2.7183 ^ x.wholePart :=
          pow_le_pow_left₀ (Real.exp_pos _).le (by linarith [Real.exp_one_lt_d9]) _
      _ ≤ 2.7183 ^ 27 := pow_le_pow_right₀ (by norm_num) (by omega)
  have hrest := (exp_between x.rest_nonneg x.rest_lt_one).2
  rw [exp_value h]
  calc Real.exp x.wholePart * Real.exp x.rest ≤ 2.7183 ^ 27 * 3 :=
        mul_le_mul hpow hrest (Real.exp_pos _).le (by norm_num)
    _ ≤ 10 ^ 13 := by norm_num

/-- The rest is a decimal, so nothing is lost when the whole part is taken away. -/
theorem exists_rest (h : 0 < x.value) : ∃ r, x.sub x.trunc = some r ∧ r.value = x.rest := by
  have hwhole : x.trunc.size = x.wholePart := by
    show ((x.coefficient / 10 ^ x.scale : ℕ) : ℚ) / 10 ^ 0 = _
    rw [pow_zero, div_one]
    rfl
  have hnegative := negative_of_pos h
  have htrunc : x.trunc.value = x.wholePart := by
    rw [← hwhole]
    exact if_neg (by rw [show x.trunc.negative = x.negative from rfl, hnegative]; decide)
  have hrest : x.value - x.trunc.value = x.rest := by
    rw [htrunc, value_eq_size h, ← wholePart_add_rest]
    ring
  have hdecimal : IsDecimal x.rest := by
    refine ⟨(x.coefficient % 10 ^ x.scale : ℕ), x.scale, ?_, x.scale_le, by rw [rest, Int.cast_natCast]⟩
    rw [Nat.abs_cast]
    have hlt := lt_of_le_of_lt (Nat.mod_le x.coefficient (10 ^ x.scale)) x.coefficient_lt
    exact_mod_cast hlt
  exact (sub_rounds x x.trunc).exact (hrest ▸ hdecimal) |>.imp fun r hr => ⟨hr.1, hrest ▸ hr.2⟩

end WholePart

/-! ## §5. Powers of e. -/

/-- The constant e is the decimal next to the number. -/
theorem value_e : e.value = 27182818284590452353602874714 / 10 ^ 28 := by
  norm_num [e, value, size, signed]

theorem abs_e_sub_le : |(e.value : ℝ) - Real.exp 1| ≤ 1 / 10 ^ 28 := by
  have hupper := Real.exp_bound' (x := 1) zero_le_one le_rfl (n := 30) (by norm_num)
  have hlower := Real.sum_le_exp_of_nonneg (x := 1) zero_le_one 30
  norm_num [Finset.sum_range_succ, Nat.factorial] at hupper hlower
  rw [value_e, abs_le]
  push_cast
  constructor <;> linarith

section Powers

variable {n : ℕ}

/-- Powers of the constant are next to those of the number. -/
theorem pow_e_closeTo (hn : n ≤ 66) : CloseTo (1 / 10 ^ 24) (e.value ^ n : ℚ) (Real.exp n) := by
  have hnR : (n : ℝ) ≤ 66 := by exact_mod_cast hn
  have hone : (1 : ℝ) ≤ Real.exp 1 := by linarith [Real.exp_one_gt_d9]
  have hbase : CloseTo (1 / 10 ^ 28) e.value (Real.exp 1) :=
    CloseTo.of_abs_le abs_e_sub_le (by norm_num) hone
  have hfew : 2 * n * (1 / 10 ^ 28 : ℝ) ≤ 1 / 10 ^ 24 := by
    linarith
  have hpow := hbase.pow (by norm_num) (by norm_num) (by linarith) (hfew.trans (by norm_num))
  rw [← Real.exp_nat_mul, mul_one] at hpow
  rw [Rat.cast_pow]
  exact hpow.mono (Real.exp_pos _).le hfew

/-- There is room for the exponentials of whole numbers up to 66. -/
theorem le_sixtySix (h : Real.exp n ≤ 72 * 10 ^ 27) : n ≤ 66 := by
  by_contra hlt
  have hexp : Real.exp (67 : ℕ) ≤ Real.exp n := by
    apply Real.exp_le_exp.2
    exact_mod_cast (by omega : 67 ≤ n)
  have hpow : (2.718 : ℝ) ^ 67 ≤ Real.exp (67 : ℕ) := by
    rw [← mul_one ((67 : ℕ) : ℝ), Real.exp_nat_mul]
    exact pow_le_pow_left₀ (by norm_num) (by linarith [Real.exp_one_gt_d9]) 67
  have hlarge : (72 * 10 ^ 27 : ℝ) < 2.718 ^ 67 := by norm_num
  exact absurd (hpow.trans (hexp.trans h)) (not_le.2 hlarge)

end Powers

/-! ## §6. The exponential. -/

section Exponential

variable {x : Decimal}

theorem value_e_abs : (1 : ℚ) ≤ |e.value| := by
  rw [value_e]
  norm_num [abs_of_pos]

/-- The power of the constant for a whole part, in working precision. -/
theorem exists_power {n : ℕ} (hn : n ≤ 66) :
    ∃ w, bySquaring Wide.mul Wide.one (ofDecimal e) n = some w
      ∧ Min.min n 28 ≤ w.scale ∧ CloseTo (1 / 10 ^ 23) w.value (Real.exp n) := by
  have hdrift := drift_wide_le (n := n) (hn.trans (by norm_num))
  have hmoderate : |e.value ^ n| ≤ 7 * 10 ^ 28 := by
    rw [abs_pow]
    have hmono := pow_le_pow_right₀ value_e_abs hn
    refine hmono.trans ?_
    rw [value_e]
    norm_num [abs_of_pos]
  obtain ⟨hholds, hexists⟩ := wide_squaring_tracks (b := e) (d := 1)
    (moderate_of_drift_le (hdrift.trans (by norm_num)) hmoderate)
    (lt_of_le_of_lt hdrift (by norm_num)) (Or.inr ⟨rfl, value_e_abs, by decide⟩)
  obtain ⟨w, hw⟩ := hexists le_rfl le_rfl
  obtain ⟨-, hnear, hplaces⟩ := hholds w hw
  refine ⟨w, hw, ?_, ?_⟩
  · have hscale := hplaces le_rfl le_rfl
    rwa [one_mul] at hscale
  · -- next to the power of the constant, which is next to that of the number
    have hpositive : (1 : ℚ) ≤ e.value ^ n := by
      have hone : (1 : ℚ) ≤ e.value := by
        rw [value_e]
        norm_num
      exact one_le_pow₀ hone
    have hclose : CloseTo (1 / 10 ^ 28) w.value (e.value ^ n : ℚ) := by
      unfold Near at hnear
      rw [powerSize_eq, abs_of_nonneg (zero_le_one.trans hpositive), max_eq_right hpositive] at hnear
      have hoff : |w.value - e.value ^ n| ≤ 1 / 10 ^ 28 * e.value ^ n :=
        hnear.trans (mul_le_mul_of_nonneg_right hdrift (by linarith))
      refine (CloseTo.of_rat hoff).mono ?_ (by norm_num)
      exact_mod_cast zero_le_one.trans hpositive
    exact (hclose.trans (pow_e_closeTo hn) (by norm_num)).mono (Real.exp_pos _).le (by norm_num)

/-- The decimal of a wide number that is neither small nor too large. -/
theorem exists_decimal {w : Wide} (hw : w.InRange) (hhalf : 1 / 2 ≤ w.value)
    (hsize : w.value ≤ 75 * 10 ^ 27) (hplaces : w.value < 2 ^ 95 ∨ 28 ≤ w.scale) :
    ∃ z, w.toDecimal? = some z ∧ CloseTo (6 / 10 ^ 28) z.value w.value := by
  have hpos : 0 ≤ w.value := by linarith
  have hvalue : w.size = w.value := by rw [← Wide.abs_value, abs_of_nonneg hpos]
  obtain ⟨z, hz⟩ := Wide.exists_toDecimal? hw (hvalue ▸ hsize) (hvalue ▸ hplaces)
  refine ⟨z, hz, ?_⟩
  have hmax : Max.max 1 |w.value| ≤ 2 * w.value := by
    rw [abs_of_nonneg hpos]
    exact max_le (by linarith) (by linarith)
  have hoff : |z.value - w.value| ≤ 6 / 10 ^ 28 * w.value := by
    have hround := Wide.toDecimal?_off hz
    unfold Wide.decimalRoundoff at hround
    linarith
  exact (CloseTo.of_rat hoff).mono (by exact_mod_cast hpos) (by norm_num)

/-- The decimal of a product of wide numbers that is not too large. -/
theorem exists_product_decimal {u v : Wide} (hone : 1 ≤ u.value * v.value)
    (hsize : u.value * v.value ≤ 74 * 10 ^ 27)
    (hplaces : u.value * v.value < 2 ^ 94 ∨ 28 ≤ u.scale) :
    ∃ w z, u.mul v = some w ∧ w.toDecimal? = some z
      ∧ CloseTo (1 / 10 ^ 26) z.value (u.value * v.value : ℚ) := by
  have hpos : 0 ≤ u.value * v.value := zero_le_one.trans hone
  obtain ⟨w, hw⟩ := Wide.exists_mul (x := u) (y := v) (by
    rw [abs_of_nonneg hpos]
    exact lt_of_le_of_lt hsize (by norm_num))
  obtain ⟨hrange, hoff, hkeeps⟩ := Wide.mul_isProduct hw
  rw [abs_of_nonneg hpos, max_eq_right hone] at hoff
  rw [abs_of_nonneg hpos] at hkeeps
  have hnear := abs_le.1 hoff
  unfold Wide.productRoundoff at hoff hnear
  have hu : u.coefficient ≠ 0 := fun hzero => by
    rw [Wide.value_eq_zero hzero, zero_mul] at hone
    linarith
  have hv : v.coefficient ≠ 0 := fun hzero => by
    rw [Wide.value_eq_zero hzero, mul_zero] at hone
    linarith
  have hscale := hkeeps hu hv (hsize.trans (by norm_num))
  obtain ⟨z, hz, hclose⟩ := exists_decimal hrange (by linarith) (by linarith)
    (hplaces.imp (fun h => by linarith) fun h => by omega)
  refine ⟨w, z, hw, hz, ?_⟩
  have hproduct := (CloseTo.of_rat hoff).mono (δ := 1 / 10 ^ 28) (by exact_mod_cast hpos)
    (by norm_num)
  exact (hclose.trans hproduct (by norm_num)).mono (by exact_mod_cast hpos) (by norm_num)

/-- The whole part of a number that there is room for has few factors of e. -/
theorem wholePart_le (hx : 0 < x.value) (hmax : Real.exp x.value ≤ 72 * 10 ^ 27) :
    x.wholePart ≤ 66 := by
  apply le_sixtySix
  refine le_trans ?_ hmax
  rw [exp_value hx]
  exact le_mul_of_one_le_right (Real.exp_pos _).le (exp_between x.rest_nonneg x.rest_lt_one).1

/-- The exponential of a number from one on: the power and the sum are multiplied. -/
theorem exists_expProduct (hx : 0 < x.value) (hmax : Real.exp x.value ≤ 72 * 10 ^ 27)
    (hwhole : x.wholePart ≠ 0) {sum : Wide} (hsum : IsExp x.rest sum) :
    ∃ w z p, bySquaring Wide.mul Wide.one (ofDecimal e) x.wholePart = some w
      ∧ w.mul sum = some z ∧ z.toDecimal? = some p
      ∧ CloseTo (1 / 10 ^ 20) p.value (Real.exp x.value) := by
  obtain ⟨hclose, -⟩ := hsum.closeTo x.rest_nonneg x.rest_lt_one
  obtain ⟨w, hw, hplaces, hwclose⟩ := exists_power (wholePart_le hx hmax)
  have hproduct : CloseTo (1 / 10 ^ 22) (w.value * sum.value) (Real.exp x.value) := by
    rw [exp_value hx]
    exact (hwclose.mul hclose (by norm_num) (by norm_num) (Real.exp_pos _).le
      (Real.exp_pos _)).mono (by positivity) (by norm_num)
  have hone : 1 ≤ w.value * sum.value := by
    have hle : (1 : ℝ) ≤ w.value * sum.value := by linarith [hproduct.ge, two_le_exp hx hwhole]
    exact_mod_cast hle
  have hsize : w.value * sum.value ≤ 74 * 10 ^ 27 := by
    have hle : (w.value * sum.value : ℝ) ≤ 74 * 10 ^ 27 := by linarith [hproduct.le]
    exact_mod_cast hle
  -- a great power has many places, and a small one does not need them
  have hroom : w.value * sum.value < 2 ^ 94 ∨ 28 ≤ w.scale := by
    rcases le_or_gt 28 x.wholePart with h | h
    · exact Or.inr (by omega)
    · have hlt : (w.value * sum.value : ℝ) < 2 ^ 94 := by
        linarith [hproduct.le, exp_le_of_wholePart_lt hx h]
      exact Or.inl (by exact_mod_cast hlt)
  obtain ⟨z, p, hz, hp, hpclose⟩ := exists_product_decimal hone hsize hroom
  rw [Rat.cast_mul] at hpclose
  exact ⟨w, z, p, hw, hz, hp,
    (hpclose.trans hproduct (by norm_num)).mono (Real.exp_pos _).le (by norm_num)⟩

/-- **The exponential of a positive number** is there if it is not too large, and it is accurate. -/
theorem exists_expPositive (hx : 0 < x.value) (hmax : Real.exp x.value ≤ 72 * 10 ^ 27) :
    ∃ p, x.expPositive = some p ∧ CloseTo (1 / 10 ^ 20) p.value (Real.exp x.value) := by
  obtain ⟨r, hr, hrest⟩ := exists_rest hx
  obtain ⟨sum, hsum, hexp⟩ :=
    exists_expSeries (hrest ▸ x.rest_nonneg) (hrest ▸ x.rest_lt_one)
  rw [hrest] at hexp
  obtain ⟨hclose, hhalf, hfour, hrange⟩ := hexp.closeTo x.rest_nonneg x.rest_lt_one
  unfold expPositive
  dsimp only
  rw [show x.coefficient / 10 ^ x.scale = x.wholePart from rfl, hr, Option.bind_some, hsum,
    Option.bind_some]
  by_cases hzero : x.wholePart = 0
  · obtain ⟨p, hp, hpclose⟩ := exists_decimal hrange hhalf (by linarith) (Or.inl (by linarith))
    rw [if_pos hzero]
    refine ⟨p, hp, ?_⟩
    rw [exp_value hx, hzero, Nat.cast_zero, Real.exp_zero, one_mul]
    exact (hpclose.trans hclose (by norm_num)).mono (Real.exp_pos _).le (by norm_num)
  · obtain ⟨w, z, p, hw, hz, hp, hpclose⟩ := exists_expProduct hx hmax hzero hexp
    have hfew := wholePart_le hx hmax
    rw [if_neg hzero, if_neg (by omega), hw, Option.bind_some, hz, Option.bind_some, hp]
    refine ⟨p.norm, rfl, ?_⟩
    rw [value_norm]
    exact hpclose

/-- The inverse of what is off by a share is off by little more. -/
theorem abs_inv_sub_inv_le {p y : ℝ} (hy : 0 < y) (h : CloseTo (1 / 10 ^ 20) p y) :
    |p⁻¹ - y⁻¹| ≤ 2 / 10 ^ 20 * y⁻¹ := by
  have hp : 0 < p := h.pos (by norm_num) hy
  have hsplit : p⁻¹ - y⁻¹ = (y - p) / p * y⁻¹ := by
    field_simp
  rw [hsplit, abs_mul, abs_of_pos (inv_pos.2 hy), abs_div, abs_of_pos hp, abs_sub_comm]
  refine mul_le_mul_of_nonneg_right ?_ (inv_pos.2 hy).le
  rw [div_le_iff₀ hp]
  have hlower := h.ge
  unfold CloseTo at h
  linarith

/-- The inverse of a number that is neither small nor too large. -/
theorem exists_inverse {p : Decimal} {y : ℝ} (hone : 1 ≤ y) (hmax : y ≤ 2 * 10 ^ 20)
    (h : CloseTo (1 / 10 ^ 20) p.value y) :
    p.isZero = false ∧ ∃ z, one.div p = some z ∧ CloseTo (1 / 10 ^ 7) z.value y⁻¹ := by
  have hy : 0 < y := by linarith
  have hhalf : 1 / 2 ≤ p.value := by
    have hle : ((1 / 2 : ℚ) : ℝ) ≤ p.value := by
      push_cast
      linarith [h.ge]
    exact_mod_cast hle
  have hpos : 0 < p.value := by linarith
  have hzero : p.isZero = false := isZero_eq_false hpos.ne'
  have hsize : |one.value / p.value| ≤ 2 := by
    rw [value_one, abs_of_pos (by positivity), div_le_iff₀ hpos]
    linarith
  obtain ⟨z, hz, hoff⟩ := (div_rounds one hzero).exists_off (by norm_num) (by norm_num) hsize
  refine ⟨hzero, z, hz, ?_⟩
  have hround := abs_cast_sub_le (δ := 2 / 10 ^ 28) hoff (by norm_num)
  rw [value_one, one_div, Rat.cast_inv] at hround
  have hleast : (2 * 10 ^ 20 : ℝ)⁻¹ ≤ y⁻¹ := inv_anti₀ hy hmax
  have htriangle := abs_sub_le (z.value : ℝ) (p.value : ℝ)⁻¹ y⁻¹
  have hinverse := abs_inv_sub_inv_le hy h
  unfold CloseTo
  norm_num at hleast
  linarith

/-- The exponential of a negative number. -/
theorem exists_exp_of_neg {y : Decimal} (hneg : y.value < 0)
    (hmin : Real.exp (-y.value) ≤ 2 * 10 ^ 20) :
    ∃ z, y.exp = some z ∧ CloseTo (1 / 10 ^ 7) z.value (Real.exp y.value) := by
  have hopposite : 0 < y.neg.value := by
    rw [value_neg]
    linarith
  have hexp : Real.exp y.neg.value = Real.exp (-y.value) := by
    rw [value_neg, Rat.cast_neg]
  obtain ⟨p, hp, hclose⟩ := exists_expPositive hopposite (by linarith)
  rw [hexp] at hclose
  have hone : 1 ≤ Real.exp (-y.value) := by
    apply Real.one_le_exp
    have hle : 0 ≤ -y.value := by linarith
    exact_mod_cast hle
  obtain ⟨hp0, z, hz, hzclose⟩ := exists_inverse hone hmin hclose
  rw [← Real.exp_neg, neg_neg] at hzclose
  refine ⟨z, ?_, hzclose⟩
  unfold exp
  rw [isZero_eq_false hneg.ne, if_neg Bool.false_ne_true, if_pos (negative_of_neg hneg), hp,
    Option.bind_some, hp0, if_neg Bool.false_ne_true, hz]

/-- **The exponential** is there where there is room for it, and it is accurate where there are
places for it. -/
theorem exists_exp {y : Decimal} (hmax : Real.exp y.value ≤ 72 * 10 ^ 27)
    (hmin : Real.exp (-y.value) ≤ 2 * 10 ^ 20) :
    ∃ z, y.exp = some z ∧ CloseTo (1 / 10 ^ 7) z.value (Real.exp y.value) := by
  rcases lt_trichotomy y.value 0 with hneg | hzero | hpos
  · exact exists_exp_of_neg hneg hmin
  · refine ⟨one, if_pos ((value_eq_zero_iff y).1 hzero), ?_⟩
    rw [hzero, value_one]
    norm_num [CloseTo]
  · obtain ⟨p, hp, hclose⟩ := exists_expPositive hpos hmax
    refine ⟨p, ?_, hclose.mono (Real.exp_pos _).le (by norm_num)⟩
    unfold exp
    rw [isZero_eq_false hpos.ne', negative_of_pos hpos, if_neg Bool.false_ne_true,
      if_neg Bool.false_ne_true, hp]

end Exponential

end Decimal

end ShapeEstimator
