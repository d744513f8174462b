/-
  ShapeEstimator.Proofs.Decimal.FewDigits
  ────────────────────────────────
  **A DECIMAL WITH SIX DIGITS IS READ, LIFTED AND FOUND AGAIN.**

  A double is not the decimal it was read from, but the nearest double.  Lifting it
  finds the decimal again, because the error of the double and that of the lift together
  are less than a unit of the last place that is kept:

      2^-n / 2 · 10^p  +  5 / 9  <  1

  This holds for all lengths of a double but the few where `2^n` hardly exceeds `10^p`.
  There a decimal with six digits has so few places that its double is an integer, or
  nearer to it than half a unit.
-/
import ShapeEstimator.Proofs.Decimal.Lifted

namespace ShapeEstimator.Decimal

open Binary64 (Magnitude)
open Binary64.Magnitude (decimalValue nearest)

/-! ## §1. Whole numbers of units. -/

variable {b c M N n p : ℕ} {e z : ℤ} {y : ℚ} {m : Magnitude}

/-- Digits that make a great number are shifted far to the left. -/
theorem lt_shift (hc : c < 10 ^ 6) {k : ℤ} (h : (10 : ℚ) ^ (6 + k) ≤ decimalValue c z) : k < z := by
  have hdigits : (c : ℚ) < 10 ^ (6 : ℤ) := by exact_mod_cast hc
  have hlt : (10 : ℚ) ^ (6 + k) < 10 ^ (6 + z) := by
    calc (10 : ℚ) ^ (6 + k) ≤ c * 10 ^ z := h
      _ < 10 ^ (6 : ℤ) * 10 ^ z := mul_lt_mul_of_pos_right hdigits (by positivity)
      _ = 10 ^ (6 + z) := (zpow_add₀ (by norm_num) _ _).symm
  have := (zpow_lt_zpow_iff_right₀ (by norm_num)).1 hlt
  omega

/-- Digits that are not shifted to the right make an integer. -/
theorem exists_integer (c : ℕ) (hz : 0 ≤ z) : ∃ N : ℕ, decimalValue c z = N := by
  obtain ⟨k, rfl⟩ := Int.eq_ofNat_of_zero_le hz
  refine ⟨c * 10 ^ k, ?_⟩
  unfold decimalValue
  push_cast
  rw [zpow_natCast]

theorem decimalValue_mul_pow (c : ℕ) (e : ℤ) (p : ℕ) :
    decimalValue c e * 10 ^ p = decimalValue c (e + p) := by
  unfold decimalValue
  rw [zpow_add₀ (by norm_num), zpow_natCast, mul_assoc]

/-- Digits that are off by little are those of the integer that is near. -/
theorem eq_of_near (hlower : y * (1 - 1 / 2 ^ 80) - 4 / 9 ≤ M) (hupper : M ≤ y + 5 / 9)
    (hy : y ≤ 2 ^ 53) (hoff : |y - N| < 4 / 9) : M = N := by
  obtain ⟨hbelow, habove⟩ := abs_lt.1 hoff
  apply Magnitude.eq_of_abs_sub_lt_one
  rw [abs_lt]
  constructor <;> linarith

/-! ## §2. Half a unit of a double. -/

/-- The lengths of a double at which half a unit is great in decimal places. -/
theorem half_unit_cases : ∀ p ≤ 28, ∀ n ≤ 86, (8 * 2 ^ n ≤ 9 * 10 ^ p
    ∧ 2 ^ 53 * 10 ^ p ≤ (2 ^ 53 + 1) * 2 ^ n) → n = 0 ∨ p ≤ 9 ∨ (p = 12 ∧ n = 40) := by
  decide +kernel

/-- Hundredths that are nearest to a fraction with 40 bits are nearer than half a unit. -/
theorem abs_hundredths_sub_lt (h : |(b : ℚ) / 2 ^ 40 - N / 100| ≤ 1 / 2 ^ 41) :
    |(b : ℚ) / 2 ^ 40 * 10 ^ 12 - (N * 10 ^ 10 : ℕ)| < 4 / 9 := by
  obtain ⟨hbelow, habove⟩ := abs_le.1 h
  obtain ⟨k, hk⟩ : ∃ k : ℤ, (k : ℚ) = 25 * b - N * 2 ^ 38 :=
    ⟨25 * b - N * 2 ^ 38, by push_cast; rfl⟩
  -- the difference is `k / (25 · 2 ^ 40)`, and `k` is twelve at most
  have hlow : (-13 : ℤ) < k := by
    have hlt : (-13 : ℚ) < k := by linarith
    exact_mod_cast hlt
  have hhigh : k < (13 : ℤ) := by
    have hlt : (k : ℚ) < 13 := by linarith
    exact_mod_cast hlt
  have hlow' : (-12 : ℚ) ≤ k := by exact_mod_cast (by omega : -12 ≤ k)
  have hhigh' : (k : ℚ) ≤ 12 := by exact_mod_cast (by omega : k ≤ 12)
  push_cast
  rw [abs_lt]
  constructor <;> linarith

/-! ## §3. Six digits. -/

section Halves

variable (h : Lifted ((b : ℚ) / 2 ^ n) M p) (hleading : 2 ^ 52 ≤ b) (hbits : b < 2 ^ 53) (hn : 0 < n)

include h hbits hn in
/-- The digits that are kept of a fraction have 52 bits. -/
theorem Lifted.scaled_le : (b : ℚ) / 2 ^ n * 10 ^ p ≤ 2 ^ 52 + 1 / 2 := by
  have hlower := h.lower
  have hdigits : (M : ℚ) ≤ 2 ^ 52 := by
    rcases h.short with rfl | hshort
    · -- half of a number with 53 bits
      have hupper := h.upper
      have hb : (b : ℚ) ≤ 2 ^ 53 - 1 := by
        have hsucc : (b : ℚ) + 1 ≤ 2 ^ 53 := by exact_mod_cast hbits
        linarith
      have htwo : (2 : ℚ) ≤ 2 ^ n := le_self_pow₀ one_le_two hn.ne'
      have hhalf : (b : ℚ) / 2 ^ n ≤ (2 ^ 53 - 1) / 2 :=
        div_le_div₀ (by norm_num) hb two_pos htwo
      rw [pow_zero, mul_one] at hupper
      have hlt : (M : ℚ) < ((2 ^ 52 + 1 : ℕ) : ℚ) := by
        push_cast
        linarith
      have hle : M ≤ 2 ^ 52 := Nat.lt_succ_iff.1 (by exact_mod_cast hlt)
      exact_mod_cast hle
    · exact_mod_cast hshort.le
  linarith

include h hleading hbits hn in
/-- Half a unit of the double is not more than half a unit of the last place, but for little. -/
theorem Lifted.pow_le : 2 ^ 53 * 10 ^ p ≤ (2 ^ 53 + 1) * 2 ^ n := by
  have hscaled := h.scaled_le hbits hn
  have hb : (2 : ℚ) ^ 52 ≤ b := by exact_mod_cast hleading
  rw [div_mul_eq_mul_div, div_le_iff₀ (by positivity)] at hscaled
  have hpow : (2 : ℚ) ^ 52 * 10 ^ p ≤ (2 ^ 52 + 1 / 2) * 2 ^ n :=
    (mul_le_mul_of_nonneg_right hb (by positivity)).trans hscaled
  have hcast : ((2 ^ 53 * 10 ^ p : ℕ) : ℚ) ≤ ((2 ^ 53 + 1) * 2 ^ n : ℕ) := by
    push_cast
    linarith
  exact_mod_cast hcast

include h hleading hbits hn in
/-- **Many digits find the decimal again**, unless it is an integer. -/
theorem Lifted.eq_decimalValue (hhalves : n ≤ 86) (hmany : 10 ^ 6 < M) (hc : c < 10 ^ 6)
    (hoff : |(b : ℚ) / 2 ^ n - decimalValue c e| ≤ 1 / 2 ^ (n + 1)) :
    (M : ℚ) = decimalValue c e * 10 ^ p ∨ 0 ≤ e := by
  have hscaled := h.scaled_le hbits hn
  have hpow := h.pow_le hleading hbits hn
  have hlower := h.lower
  have hupper := h.upper
  have hb : (2 : ℚ) ^ 52 ≤ b := by exact_mod_cast hleading
  -- half a unit, in units of the last place
  have hhalf : |(b : ℚ) / 2 ^ n * 10 ^ p - decimalValue c (e + p)| ≤ 10 ^ p / 2 ^ n / 2 := by
    rw [← decimalValue_mul_pow, ← sub_mul, abs_mul, abs_of_pos (show (0 : ℚ) < 10 ^ p by positivity)]
    calc |(b : ℚ) / 2 ^ n - decimalValue c e| * 10 ^ p
        ≤ 1 / 2 ^ (n + 1) * 10 ^ p := mul_le_mul_of_nonneg_right hoff (by positivity)
      _ = 10 ^ p / 2 ^ n / 2 := by
        rw [pow_succ]
        field_simp
  have hunit : (10 : ℚ) ^ p / 2 ^ n ≤ 2 := by
    rw [div_le_iff₀ (by positivity)]
    have hcast : (2 ^ 53 * 10 ^ p : ℚ) ≤ (2 ^ 53 + 1) * 2 ^ n := by exact_mod_cast hpow
    have hpos : (0 : ℚ) < 2 ^ n := by positivity
    linarith
  obtain ⟨hbelow, habove⟩ := abs_le.1 hhalf
  have hmany' : (10 : ℚ) ^ 6 < M := by exact_mod_cast hmany
  have hsix : -1 < e + p := by
    apply lt_shift hc
    rw [show (6 + -1 : ℤ) = (5 : ℕ) from rfl, zpow_natCast]
    linarith
  obtain ⟨N, hN⟩ := exists_integer c (show 0 ≤ e + p by omega)
  rw [decimalValue_mul_pow, hN]
  by_cases hfine : 9 * 10 ^ p < 8 * 2 ^ n
  · left
    have hless : (10 : ℚ) ^ p / 2 ^ n / 2 < 4 / 9 := by
      have hcast : (9 * 10 ^ p : ℚ) < 8 * 2 ^ n := by exact_mod_cast hfine
      rw [div_div, div_lt_div_iff₀ (by positivity) (by norm_num)]
      linarith
    rw [hN] at hhalf
    exact_mod_cast eq_of_near hlower hupper (by linarith) (hhalf.trans_lt hless)
  · -- the number is so great that few of its digits stand behind the point
    have hgreat : 9 < e + p := by
      apply lt_shift hc
      have hcast : (8 * 2 ^ n : ℚ) ≤ 9 * 10 ^ p := by exact_mod_cast not_lt.1 hfine
      have hsize : (8 : ℚ) / 9 * 2 ^ 52 ≤ b / 2 ^ n * 10 ^ p := by
        rw [div_mul_eq_mul_div (b : ℚ), le_div_iff₀ (by positivity)]
        have hproduct := mul_le_mul_of_nonneg_right hb (show (0 : ℚ) ≤ 10 ^ p by positivity)
        linarith
      norm_num at hsize ⊢
      linarith
    rcases half_unit_cases p h.places_le n hhalves ⟨not_lt.1 hfine, hpow⟩ with
      hzero | hfew | ⟨rfl, rfl⟩
    · exact absurd hzero hn.ne'
    · right
      omega
    · left
      obtain ⟨K, hK⟩ := exists_integer c (show 0 ≤ e + (2 : ℕ) by push_cast at hgreat ⊢; omega)
      have hvalue : decimalValue c e = K / 100 := by
        rw [← hK, ← decimalValue_mul_pow]
        ring
      rw [hvalue] at hoff
      have hM := eq_of_near hlower hupper (by linarith) (abs_hundredths_sub_lt hoff)
      rw [hM, ← hN, ← decimalValue_mul_pow, hvalue]
      push_cast
      ring

end Halves

/-- A double that is not too small has all its bits. -/
theorem leading_of_le (hm : m.Canonical) (hlow : 1 / 10 ^ 10 ≤ m.value) :
    2 ^ 52 ≤ m.significand := by
  by_contra hshort
  have hexponent : m.exponent = -1074 := hm.exponent_eq (not_le.1 hshort)
  have hbits : (m.significand : ℚ) < 2 ^ 52 := by exact_mod_cast not_le.1 hshort
  have htiny : m.value ≤ 2 ^ 52 * (1 / 2 ^ 100) := by
    unfold Magnitude.value
    rw [hexponent]
    refine mul_le_mul hbits.le ?_ (by positivity) (by positivity)
    rw [zpow_neg, zpow_ofNat, inv_eq_one_div]
    exact one_div_le_one_div_of_le (by positivity) (pow_le_pow_right₀ one_le_two (by norm_num))
  norm_num at htiny hlow
  linarith

/-- **Six digits are found again.**  The digits of a lifted double are exact, or they are the decimal
that the double is nearest to. -/
theorem Lifted.of_nearest (h : Lifted m.value M p) (hm : m.Canonical)
    (hlow : 1 / 10 ^ 10 ≤ m.value) (hc : c < 10 ^ 6) (hnearest : nearest (decimalValue c e) = m) :
    ((M : ℚ) = m.value * 10 ^ p ∧ p ≤ 22) ∨ (M : ℚ) = decimalValue c e * 10 ^ p := by
  have hlong := leading_of_le hm hlow
  have hoff := Magnitude.abs_value_nearest_sub_le (Magnitude.decimalValue_nonneg c e)
  rw [hnearest] at hoff
  have hbits := hm.significand_lt
  obtain ⟨b, k⟩ := m
  dsimp only at hlong hbits hoff
  rcases le_or_gt 0 k with hsign | hsign
  · -- an integer
    obtain ⟨n, rfl⟩ := Int.eq_ofNat_of_zero_le hsign
    refine Or.inl (h.exact 0 (2 ^ n * b) ?_ (Or.inl rfl))
    rw [pow_zero, mul_one]
    exact Magnitude.value_of_nonneg b n
  · obtain ⟨n, rfl⟩ : ∃ n : ℕ, k = -(n : ℤ) := ⟨(-k).toNat, by omega⟩
    have hvalue := Magnitude.value_of_neg b n
    have hhalf : (2 : ℚ) ^ (-(n : ℤ)) / 2 = 1 / 2 ^ (n + 1) := by
      rw [zpow_neg, zpow_natCast, pow_succ]
      field_simp
    rw [hhalf] at hoff
    rw [hvalue] at h hlow hoff ⊢
    rcases h.precise with hexact | ⟨hmany, -⟩
    · exact Or.inl (h.exact p M hexact.symm h.short)
    · rcases h.eq_decimalValue hlong hbits (by omega) (halves_le hbits hlow) hmany hc hoff with
        hfound | hsign
      · exact Or.inr hfound
      · -- an integer is its own double
        left
        obtain ⟨N, hN⟩ := exists_integer c hsign
        have hsmall : N < 2 ^ 53 := by
          have htwo : (2 : ℚ) ≤ 2 ^ n := le_self_pow₀ one_le_two (by omega)
          have hb : (b : ℚ) ≤ 2 ^ 53 := by exact_mod_cast hbits.le
          have hsize : (b : ℚ) / 2 ^ n ≤ 2 ^ 53 / 2 := div_le_div₀ (by positivity) hb two_pos htwo
          have hunit : (1 : ℚ) / 2 ^ (n + 1) ≤ 1 :=
            (div_le_one (by positivity)).2 (one_le_pow₀ one_le_two)
          rw [hN] at hoff
          have hlt : (N : ℚ) < 2 ^ 53 := by linarith [(abs_le.1 hoff).1]
          exact_mod_cast hlt
        have hdouble : (b : ℚ) / 2 ^ n = N := by
          rw [← hvalue, ← hnearest, hN, (Magnitude.representable_natCast hsmall).value_nearest]
        exact h.exact 0 N (by rw [pow_zero, mul_one, hdouble]) (Or.inl rfl)

end ShapeEstimator.Decimal
