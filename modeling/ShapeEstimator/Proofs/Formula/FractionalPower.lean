/-
  ShapeEstimator.Proofs.Formula.FractionalPower
  ────────────────────────────────
  **POWERS WITH A FRACTION, AND EXPONENTIALS, IN FORMULAS.**

  A power whose exponent is not an integer is the exponential of a product:

      b ^ x  =  exp (x · ln b)

  It is between the powers with the integers next to the exponent, as far as rounding lets it be,
  and it fails or vanishes only if it is out of range.  The logarithm has 28 places whatever its size,
  so a base next to one is not told from its neighbours.  For an exponent that is not gigantic this
  does not matter.  For one that is, the bounds hold with neighbours of the base.
-/
import ShapeEstimator.Formula.Value
import ShapeEstimator.Proofs.Decimal.Logarithm
import ShapeEstimator.Proofs.Decimal.SquareRoot

namespace ShapeEstimator.Formula

open Decimal (rounded signed unitRoundoff)

/-! ## §1. What is asked for. -/

/-- A power with exponent `x` of a base that is between `low` and `high` is what it should be, where
it is in range: it is accurate for a positive exponent, and it does not vanish for a negative one. -/
structure Reaches (o : Outcome) (low high x : ℚ) : Prop where
  /-- The power is between those with the integers next to the exponent. -/
  accurate : 0 < x → high ^ ⌈x⌉₊ ≤ 7 * 10 ^ 28 →
    ∃ r, o = .ok r ∧ (1 - 1 / 10 ^ 6) * low ^ ⌊x⌋₊ ≤ r.value
      ∧ r.value ≤ (1 + 1 / 10 ^ 6) * high ^ ⌈x⌉₊
  /-- The inverse of a power of moderate size is not zero. -/
  nonzero : x < 0 → high ^ ⌈-x⌉₊ ≤ 10 ^ 20 → ∃ r, o = .ok r ∧ r.value ≠ 0

/-- By how much the logarithm of a number next to one may be off. -/
def logRoundoff : ℚ := 5 / 10 ^ 27

/-! ## §2. The exponent of e. -/

section Exponent

variable {b v : Decimal}

theorem logRoundoff_pos : (0 : ℝ) < logRoundoff := by
  norm_num [logRoundoff]

/-- There is no room for the exponential of 67. -/
theorem le_of_exp_le {t : ℝ} (h : Real.exp t ≤ 71 * 10 ^ 27) : t ≤ 67 := by
  by_contra hlarge
  have hexp : Real.exp (67 : ℕ) ≤ Real.exp t := Real.exp_le_exp.2 (by push_cast; linarith)
  have hfew := Decimal.le_sixtySix (hexp.trans (h.trans (by norm_num)))
  omega

/-- A number has no more factors of ten than half of its logarithm. -/
theorem two_mul_le_log {k : ℕ} {c : ℝ} (hpow : (10 : ℝ) ^ k ≤ c) : 2 * (k : ℝ) ≤ Real.log c := by
  have hten : (2 : ℝ) ≤ Real.log 10 := by
    rw [Real.le_log_iff_exp_le (by norm_num), show (2 : ℝ) = (2 : ℕ) * 1 by norm_num,
      Real.exp_nat_mul]
    calc Real.exp 1 ^ 2 ≤ 3 ^ 2 :=
          pow_le_pow_left₀ (Real.exp_pos 1).le (by linarith [Real.exp_one_lt_d9]) 2
      _ ≤ 10 := by norm_num
  have hlog := Real.log_le_log (by positivity) hpow
  rw [Real.log_pow] at hlog
  have hmul := mul_le_mul_of_nonneg_left hten (Nat.cast_nonneg (α := ℝ) k)
  linarith

/-- **The product** of a logarithm and an exponent.  Where the power is in range, there are few
factors of ten, and what the logarithm is off by for them does not matter. -/
theorem exists_exponent (hb : 1 ≤ b.value)
    (hsize : |(v.value : ℝ)| * (Real.log b.value + logRoundoff) ≤ 67) :
    ∃ l y, b.ln = some l ∧ l.mul v = some y
      ∧ |(y.value : ℝ) - v.value * Real.log b.value|
        ≤ |(v.value : ℝ)| * logRoundoff + 4 / 10 ^ 8 := by
  obtain ⟨l, k, hl, hpow, hoff⟩ := Decimal.exists_ln hb
  have hv := abs_nonneg (v.value : ℝ)
  have hrest := mul_nonneg hv logRoundoff_pos.le
  have hlog : 0 ≤ Real.log b.value := Real.log_nonneg (by exact_mod_cast hb)
  have hfew : |(v.value : ℝ)| * k ≤ 34 := by
    have htens := two_mul_le_log (c := b.value) (by exact_mod_cast hpow)
    have hmul := mul_le_mul_of_nonneg_left htens hv
    linarith
  -- the exact product, next to the one with the exact logarithm
  have hproduct : |((l.value * v.value : ℚ) : ℝ) - v.value * Real.log b.value|
      ≤ |(v.value : ℝ)| * logRoundoff + 34 / 10 ^ 9 := by
    have hsplit : ((l.value * v.value : ℚ) : ℝ) - v.value * Real.log b.value
        = v.value * (l.value - Real.log b.value) := by
      push_cast
      ring
    have hmul := mul_le_mul_of_nonneg_left hoff hv
    rw [hsplit, abs_mul]
    refine hmul.trans ?_
    unfold logRoundoff
    push_cast
    linarith
  have hproductsize : |l.value * v.value| ≤ 68 := by
    have hexact : |(v.value : ℝ) * Real.log b.value| = |(v.value : ℝ)| * Real.log b.value := by
      rw [abs_mul, abs_of_nonneg hlog]
    have htriangle := abs_sub_abs_le_abs_sub ((l.value * v.value : ℚ) : ℝ)
      (v.value * Real.log b.value)
    have hle : |((l.value * v.value : ℚ) : ℝ)| ≤ 68 := by linarith
    exact_mod_cast hle
  obtain ⟨y, hy, hyoff⟩ :=
    (Decimal.mul_rounds l v).exists_off (by norm_num) (by norm_num) hproductsize
  refine ⟨l, y, hl, hy, ?_⟩
  have hround := abs_cast_sub_le (δ := 68 / 10 ^ 28) hyoff (by norm_num)
  have htriangle := abs_sub_le (y.value : ℝ) ((l.value * v.value : ℚ) : ℝ)
    (v.value * Real.log b.value)
  linarith

/-- The exponential of a number that is off by `d` and a little. -/
theorem exp_of_abs_sub_le {y a d : ℝ} (h : |y - a| ≤ d + 4 / 10 ^ 8) :
    (1 - 4 / 10 ^ 8) * Real.exp (a - d) ≤ Real.exp y
      ∧ Real.exp y ≤ (1 + 5 / 10 ^ 8) * Real.exp (a + d) := by
  have hsmall : Real.exp (4 / 10 ^ 8) ≤ 1 + 5 / 10 ^ 8 :=
    (Real.exp_bound_div_one_sub_of_interval (by norm_num) (by norm_num)).trans (by norm_num)
  have hsmall' : 1 - 4 / 10 ^ 8 ≤ Real.exp (-(4 / 10 ^ 8)) := by
    linarith [Real.add_one_le_exp (-(4 / 10 ^ 8) : ℝ)]
  obtain ⟨hlower, hupper⟩ := abs_le.1 h
  constructor
  · calc (1 - 4 / 10 ^ 8) * Real.exp (a - d)
        ≤ Real.exp (-(4 / 10 ^ 8)) * Real.exp (a - d) :=
          mul_le_mul_of_nonneg_right hsmall' (Real.exp_pos _).le
      _ = Real.exp (-(4 / 10 ^ 8) + (a - d)) := (Real.exp_add _ _).symm
      _ ≤ Real.exp y := Real.exp_le_exp.2 (by linarith)
  · calc Real.exp y ≤ Real.exp (4 / 10 ^ 8 + (a + d)) := Real.exp_le_exp.2 (by linarith)
      _ = Real.exp (4 / 10 ^ 8) * Real.exp (a + d) := Real.exp_add _ _
      _ ≤ (1 + 5 / 10 ^ 8) * Real.exp (a + d) :=
          mul_le_mul_of_nonneg_right hsmall (Real.exp_pos _).le

end Exponent

/-! ## §3. How a power is computed. -/

section Power

variable {b v : Decimal}

/-- A number without a fraction is an integer. -/
theorem hasFraction_of_ne (hv : ∀ n : ℤ, v.value ≠ n) : v.hasFraction = true := by
  by_contra hwhole
  have hmod : v.coefficient % 10 ^ v.scale = 0 := by
    simpa [Decimal.hasFraction] using hwhole
  obtain ⟨c, hc⟩ := Nat.dvd_of_mod_eq_zero hmod
  have hsize : v.size = c := by
    rw [Decimal.size, hc]
    push_cast
    field_simp
  cases hsign : v.negative with
  | true =>
    apply hv (-c)
    rw [Decimal.value, hsize, hsign, signed, if_pos rfl]
    push_cast
    rfl
  | false =>
    apply hv c
    rw [Decimal.value, hsize, hsign, signed, if_neg Bool.false_ne_true, Int.cast_natCast]

/-- A power with a fraction of a number from one on. -/
theorem raise_of_fraction (hb : 1 ≤ b.value) (hv : ∀ n : ℤ, v.value ≠ n) {r : Decimal}
    (h : b.powDecimal v = some r) : raise b v = .ok r := by
  have hpos : 0 < b.value := by linarith
  unfold raise
  rw [hasFraction_of_ne hv, Decimal.negative_of_pos hpos, Decimal.isZero_eq_false hpos.ne', h]
  rfl

/-- **Powers with a fraction.**  There is a power where there is room for it and for its inverse,
and it is the exponential of a product in which the logarithm is off by a little. -/
theorem exists_powDecimal (hb : 1 ≤ b.value) (hv : ∀ n : ℤ, v.value ≠ n)
    (hmax : Real.exp (v.value * Real.log b.value + |(v.value : ℝ)| * logRoundoff) ≤ 71 * 10 ^ 27)
    (hmin : Real.exp (-(v.value * Real.log b.value) + |(v.value : ℝ)| * logRoundoff)
      ≤ 15 * 10 ^ 19) :
    ∃ r, b.powDecimal v = some r
      ∧ (1 - 2 / 10 ^ 7)
          * Real.exp (v.value * Real.log b.value - |(v.value : ℝ)| * logRoundoff) ≤ r.value
      ∧ r.value ≤ (1 + 2 / 10 ^ 7)
          * Real.exp (v.value * Real.log b.value + |(v.value : ℝ)| * logRoundoff) := by
  have hδ := mul_nonneg (abs_nonneg (v.value : ℝ)) logRoundoff_pos.le
  have hv0 : v.value ≠ 0 := by exact_mod_cast hv 0
  have hv1 : ¬ v.sameValue Decimal.one = true := fun h => by
    apply hv 1
    rw [(Decimal.sameValue_iff _ _).1 h, Decimal.value_one, Int.cast_one]
  unfold Decimal.powDecimal
  rw [Decimal.isZero_eq_false hv0, if_neg Bool.false_ne_true,
    Decimal.isZero_eq_false (show b.value ≠ 0 by linarith), if_neg Bool.false_ne_true]
  by_cases hone : b.sameValue Decimal.one = true
  · -- all powers of one are one
    have hb1 : b.value = 1 := by rw [(Decimal.sameValue_iff _ _).1 hone, Decimal.value_one]
    rw [if_pos hone]
    refine ⟨Decimal.one, rfl, ?_⟩
    rw [hb1, Decimal.value_one, Rat.cast_one, Real.log_one, mul_zero, zero_sub, zero_add]
    have hlow : Real.exp (-(|(v.value : ℝ)| * logRoundoff)) ≤ 1 := Real.exp_le_one_iff.2 (by linarith)
    have hhigh : 1 ≤ Real.exp (|(v.value : ℝ)| * logRoundoff) := Real.one_le_exp hδ
    constructor <;> linarith
  · rw [if_neg hone, if_neg hv1]
    have habs : b.abs.value = b.value := by
      rw [Decimal.value_abs, abs_of_nonneg (by linarith)]
    -- the power or its inverse is the greater one, and there is room for both
    have hsize : |(v.value : ℝ)| * (Real.log b.abs.value + logRoundoff) ≤ 67 := by
      rw [habs, mul_add]
      rcases abs_choice (v.value : ℝ) with h | h
      · rw [h] at hmax ⊢
        exact le_of_exp_le hmax
      · rw [h] at hmin ⊢
        rw [neg_mul]
        exact le_of_exp_le (hmin.trans (by norm_num))
    obtain ⟨l, y, hl, hy, hoff⟩ := exists_exponent (v := v) (habs.symm ▸ hb) hsize
    rw [habs] at hoff
    -- the exponential of the product and its inverse
    obtain ⟨hlow, hhigh⟩ := exp_of_abs_sub_le hoff
    have hopposite : |-(y.value : ℝ) - -(v.value * Real.log b.value)|
        ≤ |(v.value : ℝ)| * logRoundoff + 4 / 10 ^ 8 := by
      rwa [neg_sub_neg, abs_sub_comm]
    have hinverse := (exp_of_abs_sub_le hopposite).2
    obtain ⟨r, hr, hclose⟩ := Decimal.exists_exp (y := y) (by linarith) (by linarith)
    have hrlow := hclose.ge
    have hrhigh := hclose.le
    have hpositive := Real.exp_pos
      (v.value * Real.log b.value + |(v.value : ℝ)| * logRoundoff)
    have hpositive' := Real.exp_pos
      (v.value * Real.log b.value - |(v.value : ℝ)| * logRoundoff)
    refine ⟨r, ?_, by linarith, by linarith⟩
    rw [hl, Option.bind_some, hy, Option.bind_some]
    exact hr

end Power

/-! ## §4. Powers with the integers next to an exponent. -/

section Integers

variable {c u : ℝ} {n : ℕ}

theorem exp_mul_log_le_pow (hc : 1 ≤ c) (hn : u ≤ n) : Real.exp (u * Real.log c) ≤ c ^ n := by
  calc Real.exp (u * Real.log c) ≤ Real.exp (n * Real.log c) :=
        Real.exp_le_exp.2 (mul_le_mul_of_nonneg_right hn (Real.log_nonneg hc))
    _ = c ^ n := by rw [Real.exp_nat_mul, Real.exp_log (by linarith)]

theorem pow_le_exp_mul_log (hc : 1 ≤ c) (hn : n ≤ u) : c ^ n ≤ Real.exp (u * Real.log c) := by
  calc c ^ n = Real.exp (n * Real.log c) := by rw [Real.exp_nat_mul, Real.exp_log (by linarith)]
    _ ≤ Real.exp (u * Real.log c) :=
        Real.exp_le_exp.2 (mul_le_mul_of_nonneg_right hn (Real.log_nonneg hc))

end Integers

/-! ## §5. Bounds for a base. -/

/-- Two numbers whose powers are on both sides of a power with exponent `u`, as far as the logarithm
of the base is known. -/
structure IsBracket (low high b u : ℚ) : Prop where
  /-- The lower number is not negative. -/
  low_nonneg : 0 ≤ low
  /-- A power of the lower number is below. -/
  low_le : (1 - 7 / 10 ^ 7) * (low : ℝ) ^ ⌊u⌋₊
    ≤ Real.exp (u * Real.log b - u * logRoundoff)
  /-- A power of the higher number is above. -/
  le_high : Real.exp (u * Real.log b + u * logRoundoff)
    ≤ (1 + 7 / 10 ^ 7) * (high : ℝ) ^ ⌈u⌉₊
  /-- Where the powers are in range, what the logarithm is off by does not make up for everything. -/
  few : (high : ℝ) ^ ⌈u⌉₊ ≤ 7 * 10 ^ 28 → (u : ℝ) * logRoundoff ≤ 36

section Brackets

variable {b u : ℚ}

/-- Exponents that are not gigantic: the powers of the base itself. -/
theorem isBracket_self (hb : 1 ≤ b) (hu : 0 ≤ u) (hmax : u ≤ 10 ^ 20) : IsBracket b b b u := by
  have hbR : (1 : ℝ) ≤ b := by exact_mod_cast hb
  have huR : (0 : ℝ) ≤ u := by exact_mod_cast hu
  have hsmall : (u : ℝ) * logRoundoff ≤ 5 / 10 ^ 7 := by
    have hmaxR : (u : ℝ) ≤ 10 ^ 20 := by exact_mod_cast hmax
    unfold logRoundoff
    linarith
  have hceil : (u : ℝ) ≤ ⌈u⌉₊ := by exact_mod_cast Nat.le_ceil u
  have hfloor : (⌊u⌋₊ : ℝ) ≤ u := by exact_mod_cast Nat.floor_le hu
  have hnonneg : 0 ≤ (u : ℝ) * logRoundoff := mul_nonneg huR logRoundoff_pos.le
  refine ⟨by linarith, ?_, ?_, fun _ => hsmall.trans (by norm_num)⟩
  · have hlow := pow_le_exp_mul_log hbR hfloor
    have hoff : 1 - 7 / 10 ^ 7 ≤ Real.exp (-((u : ℝ) * logRoundoff)) := by
      linarith [Real.add_one_le_exp (-((u : ℝ) * logRoundoff))]
    rw [sub_eq_add_neg (_ * Real.log _), Real.exp_add, mul_comm]
    exact mul_le_mul hlow hoff (by norm_num) (Real.exp_pos _).le
  · have hhigh := exp_mul_log_le_pow hbR hceil
    have hoff : Real.exp ((u : ℝ) * logRoundoff) ≤ 1 + 7 / 10 ^ 7 := by
      refine (Real.exp_bound_div_one_sub_of_interval hnonneg (by linarith)).trans ?_
      rw [div_le_iff₀ (by linarith)]
      linarith
    rw [Real.exp_add, mul_comm]
    exact mul_le_mul hoff hhigh (Real.exp_pos _).le (by norm_num)

/-- The logarithm of the higher neighbour is nearly twice as far away as the one that is known. -/
theorem log_add_le_log_neighbour {c : ℝ} (hc : 0 < c) :
    Real.log c + 19 / 10 * logRoundoff ≤ Real.log (c * (1 + 1 / 10 ^ 26)) := by
  have hinverse := Real.one_sub_inv_le_log_of_pos (show (0 : ℝ) < 1 + 1 / 10 ^ 26 by norm_num)
  have hleast : 19 / 10 * logRoundoff ≤ 1 - (1 + 1 / 10 ^ 26 : ℝ)⁻¹ := by
    norm_num [logRoundoff]
  rw [Real.log_mul hc.ne' (by norm_num)]
  linarith

/-- The logarithm of the lower neighbour is twice as far away. -/
theorem neighbour_le_exp_log_sub {c : ℝ} (hc : 0 < c) :
    c * (1 - 1 / 10 ^ 26) ≤ Real.exp (Real.log c - 2 * logRoundoff) := by
  have htwice : 2 * (logRoundoff : ℝ) = 1 / 10 ^ 26 := by
    norm_num [logRoundoff]
  have hexp := Real.add_one_le_exp (-(2 * logRoundoff) : ℝ)
  rw [sub_eq_add_neg (Real.log _), Real.exp_add, Real.exp_log hc]
  exact mul_le_mul_of_nonneg_left (by linarith) hc.le

/-- A power of the lower neighbour is below. -/
theorem neighbour_pow_le {c v : ℝ} {n : ℕ} (hc : 1 ≤ c) (hn : n ≤ v) (hnext : v ≤ n + 1) :
    (1 - 7 / 10 ^ 7) * (c * (1 - 1 / 10 ^ 26)) ^ n
      ≤ Real.exp (v * Real.log c - v * logRoundoff) := by
  have hcpos : 0 < c := by linarith
  have hpow := pow_le_pow_left₀ (mul_nonneg hcpos.le (by norm_num)) (neighbour_le_exp_log_sub hcpos) n
  -- each factor leaves a roundoff to spare, and what is above the integer takes one at most
  have hexponent : (n : ℝ) * (Real.log c - 2 * logRoundoff)
      ≤ logRoundoff + (v * Real.log c - v * logRoundoff) := by
    have hmul := mul_le_mul_of_nonneg_right hn (Real.log_nonneg hc)
    have hoff := mul_le_mul_of_nonneg_right hnext logRoundoff_pos.le
    have hmany := mul_nonneg (Nat.cast_nonneg (α := ℝ) n) logRoundoff_pos.le
    linarith
  have hsmall : Real.exp logRoundoff ≤ 1 + 1 / 10 ^ 7 := by
    refine (Real.exp_bound_div_one_sub_of_interval logRoundoff_pos.le ?_).trans ?_ <;>
      norm_num [logRoundoff]
  rw [← Real.exp_nat_mul] at hpow
  have hupper : (c * (1 - 1 / 10 ^ 26)) ^ n
      ≤ (1 + 1 / 10 ^ 7) * Real.exp (v * Real.log c - v * logRoundoff) := by
    refine hpow.trans ((Real.exp_le_exp.2 hexponent).trans ?_)
    rw [Real.exp_add]
    exact mul_le_mul_of_nonneg_right hsmall (Real.exp_pos _).le
  have hpositive := Real.exp_pos (v * Real.log c - v * logRoundoff)
  linarith

/-- All exponents: the powers of neighbours of the base. -/
theorem isBracket_neighbours (hb : 1 ≤ b) (hu : 0 ≤ u) :
    IsBracket (b * (1 - 1 / 10 ^ 26)) (b * (1 + 1 / 10 ^ 26)) b u := by
  have hbR : (1 : ℝ) ≤ b := by exact_mod_cast hb
  have huR : (0 : ℝ) ≤ u := by exact_mod_cast hu
  have hfloor : (⌊u⌋₊ : ℝ) ≤ u := by exact_mod_cast Nat.floor_le hu
  have hnext : (u : ℝ) ≤ ⌊u⌋₊ + 1 := by exact_mod_cast (Nat.lt_floor_add_one u).le
  have hceil : (u : ℝ) ≤ ⌈u⌉₊ := by exact_mod_cast Nat.le_ceil u
  -- the power of the higher neighbour, and its exponent of e
  have hhigh1 : (1 : ℝ) ≤ b * (1 + 1 / 10 ^ 26) :=
    one_le_mul_of_one_le_of_one_le hbR (by norm_num)
  have hpow := exp_mul_log_le_pow hhigh1 hceil
  have hlog := mul_le_mul_of_nonneg_left (log_add_le_log_neighbour (zero_lt_one.trans_le hbR)) huR
  have hmore := mul_nonneg huR logRoundoff_pos.le
  refine ⟨mul_nonneg (by linarith) (by norm_num), ?_, ?_, ?_⟩
  · have hlow := neighbour_pow_le hbR hfloor hnext
    push_cast
    exact hlow
  · push_cast
    refine ((Real.exp_le_exp.2 (by linarith)).trans hpow).trans ?_
    exact le_mul_of_one_le_left (by positivity) (by norm_num)
  · intro hroom
    push_cast at hroom
    have hnonneg := mul_nonneg huR (Real.log_nonneg hbR)
    have htotal := le_of_exp_le (hpow.trans (hroom.trans (by norm_num)))
    linarith

end Brackets

/-! ## §6. Powers with a fraction. -/

section Fractions

variable {b v : Decimal} {low high : ℚ}

theorem exp_le_of_le_thirtySix {t : ℝ} (h : t ≤ 36) : Real.exp t ≤ 15 * 10 ^ 19 := by
  calc Real.exp t ≤ Real.exp (36 : ℕ) := Real.exp_le_exp.2 (by push_cast; exact h)
    _ = Real.exp 1 ^ 36 := by rw [← Real.exp_nat_mul, mul_one]
    _ ≤ 3 ^ 36 := pow_le_pow_left₀ (Real.exp_pos 1).le (by linarith [Real.exp_one_lt_d9]) 36
    _ ≤ 15 * 10 ^ 19 := by norm_num

/-- Powers with a positive exponent are accurate. -/
theorem raise_accurate (hb : 1 ≤ b.value) (hv : ∀ n : ℤ, v.value ≠ n) (hpos : 0 < v.value)
    (h : IsBracket low high b.value v.value) (hroom : high ^ ⌈v.value⌉₊ ≤ 7 * 10 ^ 28) :
    ∃ r, raise b v = .ok r ∧ (1 - 1 / 10 ^ 6) * low ^ ⌊v.value⌋₊ ≤ r.value
      ∧ r.value ≤ (1 + 1 / 10 ^ 6) * high ^ ⌈v.value⌉₊ := by
  obtain ⟨hlow0, hlow, hhigh, hfew⟩ := h
  have hlog : 0 ≤ Real.log b.value := Real.log_nonneg (by exact_mod_cast hb)
  have hposR : (0 : ℝ) < v.value := by exact_mod_cast hpos
  have hroomR : (high : ℝ) ^ ⌈v.value⌉₊ ≤ 7 * 10 ^ 28 := by exact_mod_cast hroom
  have hproduct := mul_nonneg hposR.le hlog
  obtain ⟨r, hr, hrlow, hrhigh⟩ := exists_powDecimal hb hv
    (by
      rw [abs_of_pos hposR]
      linarith)
    (by
      rw [abs_of_pos hposR]
      exact exp_le_of_le_thirtySix (by linarith [hfew hroomR]))
  rw [abs_of_pos hposR] at hrlow hrhigh
  refine ⟨r, raise_of_fraction hb hv hr, ?_, ?_⟩
  · have hpow : (0 : ℝ) ≤ (low : ℝ) ^ ⌊v.value⌋₊ := by exact_mod_cast pow_nonneg hlow0 _
    rw [← Rat.cast_le (K := ℝ)]
    push_cast
    linarith
  · have hpow := Real.exp_pos (v.value * Real.log b.value + v.value * logRoundoff)
    rw [← Rat.cast_le (K := ℝ)]
    push_cast
    linarith

/-- Powers with a negative exponent do not vanish. -/
theorem raise_ne_zero (hb : 1 ≤ b.value) (hv : ∀ n : ℤ, v.value ≠ n) (hneg : v.value < 0)
    (h : IsBracket low high b.value (-v.value)) (hroom : high ^ ⌈-v.value⌉₊ ≤ 10 ^ 20) :
    ∃ r, raise b v = .ok r ∧ r.value ≠ 0 := by
  obtain ⟨-, -, hhigh, hfew⟩ := h
  have hlog : 0 ≤ Real.log b.value := Real.log_nonneg (by exact_mod_cast hb)
  have hnegR : (v.value : ℝ) < 0 := by exact_mod_cast hneg
  have hroomR : (high : ℝ) ^ ⌈-v.value⌉₊ ≤ 10 ^ 20 := by exact_mod_cast hroom
  push_cast at hhigh hfew
  have hproduct := mul_nonneg (neg_nonneg.2 hnegR.le) hlog
  obtain ⟨r, hr, hrlow, -⟩ := exists_powDecimal hb hv
    (by
      rw [abs_of_neg hnegR]
      refine (exp_le_of_le_thirtySix ?_).trans (by norm_num)
      linarith [hfew (hroomR.trans (by norm_num))])
    (by
      rw [abs_of_neg hnegR, ← neg_mul]
      linarith)
  have hpositive := Real.exp_pos
    (v.value * Real.log b.value - |(v.value : ℝ)| * logRoundoff)
  have hrpos : (0 : ℝ) < r.value := by linarith
  exact ⟨r, raise_of_fraction hb hv hr, by exact_mod_cast hrpos.ne'⟩

/-- **Powers with a fraction** reach what the bounds for the base say. -/
theorem raise_reaches (hb : 1 ≤ b.value) (hv : ∀ n : ℤ, v.value ≠ n)
    (h : IsBracket low high b.value |v.value|) : Reaches (raise b v) low high v.value := by
  constructor
  · intro hpos hroom
    exact raise_accurate hb hv hpos (abs_of_pos hpos ▸ h) hroom
  · intro hneg hroom
    exact raise_ne_zero hb hv hneg (abs_of_neg hneg ▸ h) hroom

end Fractions

/-! ## §7. Exponentials. -/

section Exponentials

variable {n : ℕ}

/-- A power of the constant that is in range has few factors. -/
theorem le_sixtySix_of_pow (h : Decimal.e.value ^ n ≤ 7 * 10 ^ 28) : n ≤ 66 := by
  by_contra hmany
  have hone : 1 ≤ Decimal.e.value := by
    rw [Decimal.value_e]
    norm_num
  have hpow : Decimal.e.value ^ 67 ≤ Decimal.e.value ^ n :=
    pow_le_pow_right₀ hone (by omega)
  have hlarge : 7 * 10 ^ 28 < Decimal.e.value ^ 67 := by
    rw [Decimal.value_e]
    norm_num
  linarith

/-- Exponentials of positive numbers are accurate. -/
theorem exp_accurate {y : Decimal} (hpos : 0 < y.value)
    (hroom : Decimal.e.value ^ ⌈y.value⌉₊ ≤ 7 * 10 ^ 28) :
    ∃ r, y.exp = some r ∧ (1 - 1 / 10 ^ 6) * Decimal.e.value ^ ⌊y.value⌋₊ ≤ r.value
      ∧ r.value ≤ (1 + 1 / 10 ^ 6) * Decimal.e.value ^ ⌈y.value⌉₊ := by
  have hposR : (0 : ℝ) < y.value := by exact_mod_cast hpos
  have hceil : (y.value : ℝ) ≤ ⌈y.value⌉₊ := by exact_mod_cast Nat.le_ceil y.value
  have hfloor : (⌊y.value⌋₊ : ℝ) ≤ y.value := by exact_mod_cast Nat.floor_le hpos.le
  -- the powers of the constant, next to those of e
  have hfew := le_sixtySix_of_pow hroom
  have hupper := (Decimal.pow_e_closeTo hfew).ge
  have hlower := (Decimal.pow_e_closeTo ((Nat.floor_le_ceil y.value).trans hfew)).le
  have hroomR : ((Decimal.e.value ^ ⌈y.value⌉₊ : ℚ) : ℝ) ≤ 7 * 10 ^ 28 := by exact_mod_cast hroom
  have hexphigh : Real.exp y.value ≤ Real.exp ⌈y.value⌉₊ := Real.exp_le_exp.2 hceil
  have hexplow : Real.exp ⌊y.value⌋₊ ≤ Real.exp y.value := Real.exp_le_exp.2 hfloor
  have hinverse : Real.exp (-y.value) ≤ 1 := Real.exp_le_one_iff.2 (by linarith)
  obtain ⟨r, hr, hclose⟩ := Decimal.exists_exp (y := y) (by linarith) (by linarith)
  have hrlow := hclose.ge
  have hrhigh := hclose.le
  have hpositive := Real.exp_pos (y.value : ℝ)
  refine ⟨r, hr, ?_, ?_⟩
  · rw [← Rat.cast_le (K := ℝ), Rat.cast_mul]
    push_cast at hlower ⊢
    linarith
  · rw [← Rat.cast_le (K := ℝ), Rat.cast_mul]
    push_cast at hupper ⊢
    linarith

/-- Exponentials of negative numbers do not vanish. -/
theorem exp_ne_zero {y : Decimal} (hneg : y.value < 0)
    (hroom : Decimal.e.value ^ ⌈-y.value⌉₊ ≤ 10 ^ 20) :
    ∃ r, y.exp = some r ∧ r.value ≠ 0 := by
  have hnegR : (y.value : ℝ) < 0 := by exact_mod_cast hneg
  have hceil : -(y.value : ℝ) ≤ ⌈-y.value⌉₊ := by exact_mod_cast Nat.le_ceil (-y.value)
  have hfew := le_sixtySix_of_pow (hroom.trans (by norm_num))
  have hupper := (Decimal.pow_e_closeTo hfew).ge
  have hroomR : ((Decimal.e.value ^ ⌈-y.value⌉₊ : ℚ) : ℝ) ≤ 10 ^ 20 := by exact_mod_cast hroom
  have hexp : Real.exp (-y.value) ≤ Real.exp ⌈-y.value⌉₊ := Real.exp_le_exp.2 hceil
  have hone : Real.exp y.value ≤ 1 := Real.exp_le_one_iff.2 hnegR.le
  obtain ⟨r, hr, hclose⟩ := Decimal.exists_exp (y := y) (by linarith) (by linarith)
  have hrpos := hclose.pos (by norm_num) (Real.exp_pos _)
  exact ⟨r, hr, by exact_mod_cast hrpos.ne'⟩

/-- **Exponentials** reach what the bounds with powers of the constant say. -/
theorem exp_reaches (lib : DoubleFunctions) (y : Decimal) :
    Reaches (applyFunction lib .exp [y]) Decimal.e.value Decimal.e.value y.value := by
  have happly : ∀ {r : Decimal}, y.exp = some r → applyFunction lib .exp [y] = .ok r := by
    intro r hr
    simp only [applyFunction, applyTo, hr]
  constructor
  · intro hpos hroom
    obtain ⟨r, hr, hbounds⟩ := exp_accurate hpos hroom
    exact ⟨r, happly hr, hbounds⟩
  · intro hneg hroom
    obtain ⟨r, hr, hne⟩ := exp_ne_zero hneg hroom
    exact ⟨r, happly hr, hne⟩

end Exponentials

/-! ## §8. All powers with a fraction, and all exponentials. -/

/-- **Powers with a fraction, and exponentials.**  They are accurate where they are in range, and
they do not vanish where their inverse is of moderate size.  For gigantic exponents this is so with
the neighbours of the base, since its logarithm has 28 places. -/
theorem fractional_power (lib : DoubleFunctions) {b x : Decimal} (hb : 1 ≤ b.value)
    (hx : ∀ n : ℤ, x.value ≠ n) {o : Outcome}
    (ho : o ∈ [applyOperator .pow b x, applyFunction lib .pow [b, x]]) (y : Decimal) :
    (|x.value| ≤ 10 ^ 20 → Reaches o b.value b.value x.value)
      ∧ Reaches o (b.value * (1 - 1 / 10 ^ 26)) (b.value * (1 + 1 / 10 ^ 26)) x.value
      ∧ Reaches (applyFunction lib .exp [y]) Decimal.e.value Decimal.e.value y.value := by
  -- the operator and the function are computed alike
  obtain rfl : o = raise b x := by
    rw [List.mem_pair] at ho
    rcases ho with rfl | rfl
    · rfl
    · rfl
  refine ⟨fun hmax => ?_, ?_, exp_reaches lib y⟩
  · exact raise_reaches hb hx (isBracket_self hb (abs_nonneg _) hmax)
  · exact raise_reaches hb hx (isBracket_neighbours hb (abs_nonneg _))

theorem pi_between : 3 < Decimal.pi.value ∧ Decimal.pi.value < 4 := by
  norm_num [Decimal.pi, Decimal.value, Decimal.size, signed]

/-- The constant π is not an integer. -/
theorem pi_ne_intCast (n : ℤ) : Decimal.pi.value ≠ n := by
  intro h
  have hbetween := pi_between
  rw [h] at hbetween
  have hlower : 3 < n := by exact_mod_cast hbetween.1
  have hupper : n < 4 := by exact_mod_cast hbetween.2
  omega

/-- The power of two with exponent π is between eight and sixteen, and the inverse of e is not
zero. -/
theorem two_pow_pi_reached :
    1 ≤ Decimal.two.value ∧ (∀ n : ℤ, Decimal.pi.value ≠ n)
      ∧ (∃ r, applyOperator .pow Decimal.two Decimal.pi = .ok r
        ∧ (1 - 1 / 10 ^ 6) * 2 ^ 3 ≤ r.value ∧ r.value ≤ (1 + 1 / 10 ^ 6) * 2 ^ 4)
      ∧ ∃ r, applyFunction .system .exp [Decimal.one.neg] = .ok r ∧ r.value ≠ 0 := by
  have hbase : 1 ≤ Decimal.two.value := by
    rw [Decimal.value_two]
    norm_num
  have hpi := pi_between
  have hminus : Decimal.one.neg.value = -1 := by
    rw [Decimal.value_neg, Decimal.value_one]
  obtain ⟨hpower, -, hexp⟩ := fractional_power .system hbase pi_ne_intCast
    (List.mem_cons_self ..) Decimal.one.neg
  have hsize : |Decimal.pi.value| ≤ 10 ^ 20 := by
    rw [abs_of_pos (by linarith)]
    linarith
  have hpower := (hpower hsize).accurate
  have hexp := hexp.nonzero
  have hceil : ⌈Decimal.pi.value⌉₊ = 4 :=
    (Nat.ceil_eq_iff four_ne_zero).2 ⟨by norm_num; linarith, by norm_num; linarith⟩
  have hfloor : ⌊Decimal.pi.value⌋₊ = 3 :=
    (Nat.floor_eq_iff (by linarith)).2 ⟨by norm_num; linarith, by norm_num; linarith⟩
  rw [Decimal.value_two, hceil, hfloor] at hpower
  rw [hminus, neg_neg, Nat.ceil_one, pow_one, Decimal.value_e] at hexp
  exact ⟨hbase, pi_ne_intCast, hpower (by linarith) (by norm_num),
    hexp (by norm_num) (by norm_num)⟩

/-! ## §9. Powers that are missed. -/

/-- The least decimal above one. -/
def aboveOne : Decimal where
  negative := false
  coefficient := 10 ^ 28 + 1
  scale := 28
  scale_le := Decimal.e.scale_le

/-- A gigantic exponent with a fraction. -/
def giganticExponent : Decimal where
  negative := false
  coefficient := 4 * 10 ^ 28 + 5
  scale := 1
  scale_le := Decimal.one_le_maxScale

theorem value_aboveOne : aboveOne.value = 1 + 1 / 10 ^ 28 := by
  norm_num [aboveOne, Decimal.value, Decimal.size, signed]

theorem value_giganticExponent : giganticExponent.value = 4 * 10 ^ 27 + 1 / 2 := by
  norm_num [giganticExponent, Decimal.value, Decimal.size, signed]

/-- The logarithm of the number above one is rounded to zero, so all its powers are one. -/
theorem raise_aboveOne : raise aboveOne giganticExponent = .ok Decimal.one := by
  decide +kernel

/-- The powers of the number with the integers next to the exponent. -/
theorem pow_aboveOne {n : ℕ} (hn : 4 * 10 ^ 27 ≤ n) (hmax : n ≤ 5 * 10 ^ 27) :
    14 / 10 ≤ aboveOne.value ^ n ∧ aboveOne.value ^ n ≤ 2 := by
  have hnQ : (4 * 10 ^ 27 : ℚ) ≤ n := by exact_mod_cast hn
  have hmaxQ : (n : ℚ) ≤ 5 * 10 ^ 27 := by exact_mod_cast hmax
  rw [value_aboveOne]
  constructor
  · have hlower := one_add_mul_le_pow (show (-2 : ℚ) ≤ 1 / 10 ^ 28 by norm_num) n
    linarith
  · have hupper := drift_le (u := 1 / 10 ^ 28) (k := n) (by norm_num) (by linarith)
    unfold drift at hupper
    linarith

/-- **Gigantic powers are missed** at a base next to one. -/
theorem gigantic_power_missed :
    1 ≤ aboveOne.value ∧ (∀ n : ℤ, giganticExponent.value ≠ n)
      ∧ ¬ Reaches (raise aboveOne giganticExponent) aboveOne.value aboveOne.value
        giganticExponent.value := by
  refine ⟨?_, ?_, ?_⟩
  · rw [value_aboveOne]
    norm_num
  · intro n h
    have htwice : ((2 * n : ℤ) : ℚ) = (8 * 10 ^ 27 + 1 : ℤ) := by
      push_cast
      rw [← h, value_giganticExponent]
      norm_num
    have hodd : 2 * n = 8 * 10 ^ 27 + 1 := by exact_mod_cast htwice
    omega
  · rintro ⟨haccurate, -⟩
    have hpos : 0 < giganticExponent.value := by
      rw [value_giganticExponent]
      norm_num
    have hfloor : 4 * 10 ^ 27 ≤ ⌊giganticExponent.value⌋₊ := by
      apply Nat.le_floor
      rw [value_giganticExponent]
      norm_num
    have hceil : ⌈giganticExponent.value⌉₊ ≤ 5 * 10 ^ 27 := by
      apply Nat.ceil_le.2
      rw [value_giganticExponent]
      norm_num
    have horder := Nat.floor_le_ceil giganticExponent.value
    have hlower := (pow_aboveOne hfloor (horder.trans hceil)).1
    have hupper := (pow_aboveOne (hfloor.trans horder) hceil).2
    obtain ⟨r, hr, hlow, -⟩ := haccurate hpos (hupper.trans (by norm_num))
    rw [raise_aboveOne] at hr
    cases hr
    rw [Decimal.value_one] at hlow
    linarith

end ShapeEstimator.Formula
