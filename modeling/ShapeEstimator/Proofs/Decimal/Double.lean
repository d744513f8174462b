/-
  ShapeEstimator.Proofs.Decimal.Double
  ────────────────────────────────
  **BETWEEN DOUBLES AND DECIMALS.**

  Every decimal has a finite double.  A double of at most `n`, a small integer, has
  a decimal, and that one is at most `n` too: digits are cut off, or rounded
  where an integer bound survives.
-/
import ShapeEstimator.Decimal.Double
import ShapeEstimator.Proofs.Binary64.Finite
import ShapeEstimator.Proofs.Decimal.Value

namespace ShapeEstimator.Decimal

open Binary64 (Magnitude)

/-! ## §1. From decimal to double. -/

/-- The powers of ten that a scale calls for: they are at least one, and not too big. -/
theorem powerOfTen_bounds :
    ∀ s ≤ 28, (powerOfTen s).Below 100
      ∧ (powerOfTen s).denominator ≤ (powerOfTen s).numerator
      ∧ (Magnitude.ofNat (10 ^ s)).denominator ≤ (Magnitude.ofNat (10 ^ s)).numerator := by
  have hall : ∀ s ≤ 28, ((powerOfTen s).significand < 2 ^ 53
      ∧ (powerOfTen s).exponent + 53 ≤ (100 : ℕ))
      ∧ (powerOfTen s).denominator ≤ (powerOfTen s).numerator
      ∧ (Magnitude.ofNat (10 ^ s)).denominator ≤ (Magnitude.ofNat (10 ^ s)).numerator := by
    -- there are 29 of them
    decide +kernel
  intro s hs
  obtain ⟨⟨hsignificand, hexponent⟩, hpower⟩ := hall s hs
  exact ⟨⟨hsignificand, hexponent⟩, hpower⟩

theorem lowerMagnitude_below {c s : ℕ} (hc : c < 2 ^ 96) (hs : s ≤ 28) :
    (lowerMagnitude c s).Below 1024 := by
  obtain ⟨hpower, hone, hten⟩ := powerOfTen_bounds s hs
  have hwhole := Magnitude.ofNat_below ((Nat.div_le_self c (10 ^ s)).trans hc.le)
  have hdigits := Magnitude.ofNat_below ((Nat.mod_le c (10 ^ s)).trans hc.le)
  unfold lowerMagnitude
  dsimp only
  split
  · exact (Magnitude.ofNat_below hc.le).mono (by norm_num)
  · split
    · exact hwhole.mono (by norm_num)
    · have hsum := (hwhole.mono (by norm_num)).add (hdigits.div hten)
      have hround := (hsum.mul hpower).roundToNat_le
      exact ((Magnitude.ofNat_below hround).div hone).mono (by norm_num)

/-- **The double of a decimal is finite.** -/
theorem isFinite_lower (x : Decimal) : x.lower.isFinite = true :=
  Magnitude.isFinite_toFloat (lowerMagnitude_below x.coefficient_lt x.scale_le) _

/-! ## §2. From double to decimal. -/

namespace Digits

variable {n m p B : ℕ} {x : Digits}

/-- The number that digits stand for. -/
def value (x : Digits) : ℚ := x.digits * 10 ^ x.exponent

theorem value_shift (d : ℕ) (e : ℤ) : (d : ℚ) / 2 * 10 ^ (e + 1) = 5 * (d * 10 ^ e) := by
  rw [zpow_add_one₀ (by norm_num)]
  ring

/-- Halvings traded for fives do not make the number greater. -/
theorem halve_value_le (n : ℕ) (x : Digits) : (halve n x).value ≤ 5 ^ n * x.value := by
  induction n generalizing x with
  | zero => rw [pow_zero, one_mul]; exact le_rfl
  | succ n ih =>
    have hstep : ∀ y : Digits, y.value ≤ 5 * x.value →
        (halve n y).value ≤ 5 ^ (n + 1) * x.value := by
      intro y hy
      refine (ih y).trans ?_
      rw [pow_succ, mul_assoc]
      gcongr
    have hcut : (Digits.mk (x.digits / 2) (x.exponent + 1)).value ≤ 5 * x.value := by
      have hhalf : ((x.digits / 2 : ℕ) : ℚ) ≤ x.digits / 2 := by
        rw [le_div_iff₀ (by norm_num)]
        exact_mod_cast Nat.div_mul_le_self x.digits 2
      calc ((x.digits / 2 : ℕ) : ℚ) * 10 ^ (x.exponent + 1)
          ≤ x.digits / 2 * 10 ^ (x.exponent + 1) :=
            mul_le_mul_of_nonneg_right hhalf (zpow_nonneg (by norm_num) _)
        _ = 5 * x.value := value_shift _ _
    unfold halve
    split
    · exact hstep _ hcut
    · split
      · refine hstep _ (le_of_eq ?_)
        show ((5 * x.digits : ℕ) : ℚ) * 10 ^ x.exponent = 5 * (x.digits * 10 ^ x.exponent)
        push_cast
        ring
      · exact hstep _ hcut

theorem appendZeros_eq (h : m * 10 ^ n < 2 ^ 96) : appendZeros n m = some (m * 10 ^ n) := by
  induction n generalizing m with
  | zero => simp [appendZeros]
  | succ n ih =>
    have hnext : 10 * m * 10 ^ n = m * 10 ^ (n + 1) := by ring
    have hroom : 10 * m < 2 ^ 96 := by
      have hpos : 0 < 10 ^ n := by positivity
      have := Nat.le_mul_of_pos_right (10 * m) hpos
      omega
    unfold appendZeros
    rw [if_pos hroom, ih (hnext ▸ h), hnext]

/-- Digits dropped behind the point keep an integer bound. -/
theorem dropOneByOne_le (h : m ≤ B * 10 ^ n) : dropOneByOne n m ≤ B := by
  induction n generalizing m with
  | zero =>
    rw [pow_zero, mul_one] at h
    exact h
  | succ n ih =>
    rw [pow_succ, ← mul_assoc] at h
    unfold dropOneByOne
    split
    · exact Nat.zero_le B
    · apply ih
      split <;> omega

theorem dropToPrecision_le (h : m ≤ B * 10 ^ p) :
    (dropToPrecision p m).2 ≤ p
      ∧ (dropToPrecision p m).1 ≤ B * 10 ^ (dropToPrecision p m).2 := by
  induction p generalizing m with
  | zero => exact ⟨le_rfl, h⟩
  | succ p ih =>
    unfold dropToPrecision
    split
    · have hnext : (m / 10 + if 5 ≤ m % 10 then 1 else 0) ≤ B * 10 ^ p := by
        rw [pow_succ, ← mul_assoc] at h
        split <;> omega
      obtain ⟨hplaces, hle⟩ := ih hnext
      exact ⟨hplaces.trans p.le_succ, hle⟩
    · exact ⟨le_rfl, h⟩

/-- Dropping the places beyond the greatest scale keeps an integer bound. -/
theorem dropToScale_le (h : m ≤ B * 10 ^ n) :
    dropOneByOne (n - maxScale) m ≤ B * 10 ^ Nat.min n maxScale := by
  apply dropOneByOne_le
  have hsplit : Nat.min n 28 + (n - 28) = n := by
    show Min.min n 28 + (n - 28) = n
    omega
  rwa [mul_assoc, ← pow_add, hsplit]

/-- Digits for a small number are those of a decimal. -/
theorem toDecimal?_bounds (negative : Bool) (hB : B * 10 ^ 28 < 2 ^ 96) (hvalue : x.value ≤ B) :
    ∃ w, toDecimal? negative x = some w ∧ |w.value| ≤ B := by
  unfold toDecimal?
  split
  · rename_i hsign
    obtain ⟨n, hn⟩ := Int.eq_ofNat_of_zero_le hsign
    have hdigits : x.digits * 10 ^ n ≤ B := by
      unfold value at hvalue
      rw [hn, zpow_natCast] at hvalue
      exact_mod_cast hvalue
    have hroom : x.digits * 10 ^ n < 2 ^ 96 := by omega
    obtain ⟨w, hw⟩ := exists_make? negative hroom zero_le_maxScale
    refine ⟨w, ?_, ?_⟩
    · rw [hn, Int.toNat_natCast, appendZeros_eq hroom]
      exact hw
    · rw [value_make? hw, abs_signed negative (by positivity), pow_zero, div_one]
      exact_mod_cast hdigits
  · rename_i hsign
    dsimp only
    obtain ⟨n, hn⟩ : ∃ n : ℕ, x.exponent = -(n : ℤ) := ⟨(-x.exponent).toNat, by omega⟩
    rw [show (-x.exponent).toNat = n by omega]
    have hdigits : x.digits ≤ B * 10 ^ n := by
      unfold value at hvalue
      rw [hn, zpow_neg, zpow_natCast, ← div_eq_mul_inv, div_le_iff₀ (by positivity)] at hvalue
      exact_mod_cast hvalue
    have hdrop := dropToScale_le hdigits
    generalize dropOneByOne (n - maxScale) x.digits = m at hdrop ⊢
    generalize hp : (if m = 0 then 0 else Nat.min n maxScale) = p
    have hkept : m ≤ B * 10 ^ p := by
      rw [← hp]
      split
      · rename_i hzero
        rw [hzero]
        exact Nat.zero_le _
      · exact hdrop
    have hplaces : p ≤ 28 := by
      rw [← hp]
      split
      · exact Nat.zero_le 28
      · exact Nat.min_le_right n 28
    obtain ⟨hscale, hle⟩ := dropToPrecision_le hkept
    generalize dropToPrecision p m = kept at hscale hle ⊢
    have hroom : (trimmed kept.1 kept.2).1 < 2 ^ 96 :=
      calc (trimmed kept.1 kept.2).1 ≤ kept.1 := trimmed_fst_le ..
        _ ≤ B * 10 ^ kept.2 := hle
        _ ≤ B * 10 ^ 28 :=
          Nat.mul_le_mul_left _ (Nat.pow_le_pow_right (by norm_num) (hscale.trans hplaces))
        _ < 2 ^ 96 := hB
    obtain ⟨w, hw⟩ := exists_make? negative hroom
      ((trimmed_snd_le kept.1 kept.2).trans (hscale.trans hplaces))
    refine ⟨w, hw, ?_⟩
    rw [value_make? hw, abs_signed negative (by positivity), trimmed_value,
      div_le_iff₀ (by positivity)]
    exact_mod_cast hle

end Digits

/-- The magnitude of a double has the leading bit, or the least exponent. -/
theorem magnitude?_leading {x : Float} {m : Magnitude} (h : Binary64.magnitude? x = some m) :
    m.exponent = Binary64.leastExponent ∨ 2 ^ 52 ≤ m.significand := by
  unfold Binary64.magnitude? at h
  dsimp only at h
  split at h
  · exact nomatch h
  · split at h
    · cases h
      exact Or.inl rfl
    · cases h
      exact Or.inr (Nat.le_add_right _ _)

/-- **A small double has a decimal**, and an integer bound of the one is a bound of the other. -/
theorem lift?_bounds {x : Float} {q : ℚ} {B : ℕ} (hB : B * 10 ^ 28 < 2 ^ 96)
    (hx : Binary64.value? x = some q) (hq : |q| ≤ B) : ∃ w, lift? x = some w ∧ |w.value| ≤ B := by
  obtain ⟨m, hm, rfl⟩ := Option.map_eq_some_iff.1 hx
  have hsize : (m.numerator : ℚ) / m.denominator ≤ B := by
    have hnonneg : (0 : ℚ) ≤ m.numerator / m.denominator := by positivity
    split at hq
    · rwa [abs_neg, abs_of_nonneg hnonneg] at hq
    · rwa [abs_of_nonneg hnonneg] at hq
  have hform := magnitude?_leading hm
  unfold lift?
  rw [hm]
  dsimp only
  split
  · obtain ⟨w, hw⟩ := exists_make? (Binary64.signBit x) (c := 0) (by norm_num)
      zero_le_maxScale
    refine ⟨w, hw, ?_⟩
    rw [value_make? hw, Nat.cast_zero, zero_div, signed_zero, abs_zero]
    exact Nat.cast_nonneg B
  · split
    · -- a double without a fraction is zero or beyond the bound
      rename_i hsign
      exfalso
      have hlong : 2 ^ 52 ≤ m.significand := by
        rcases hform with h | h
        · rw [h] at hsign
          exact absurd hsign (by decide)
        · exact h
      have hnumerator : m.numerator ≤ B := by
        unfold Magnitude.denominator at hsize
        rw [show (-m.exponent).toNat = 0 by omega, pow_zero, Nat.cast_one, div_one] at hsize
        exact_mod_cast hsize
      have hpow : m.significand ≤ m.numerator := Nat.le_mul_of_pos_right _ (Nat.two_pow_pos _)
      omega
    · rename_i hsign
      obtain ⟨n, hn⟩ : ∃ n : ℕ, m.exponent = -(n : ℤ) := ⟨(-m.exponent).toNat, by omega⟩
      have hvalue := Digits.halve_value_le n ⟨m.significand, m.exponent⟩
      have hexact : 5 ^ n * (Digits.mk m.significand m.exponent).value
          = (m.numerator : ℚ) / m.denominator := by
        unfold Digits.value Magnitude.numerator Magnitude.denominator
        rw [hn, zpow_neg, zpow_natCast, show (-(n : ℤ)).toNat = 0 by omega,
          show (-(-(n : ℤ))).toNat = n by omega, show (10 : ℚ) = 2 * 5 by norm_num, mul_pow]
        push_cast
        field_simp
      rw [show (-m.exponent).toNat = n by omega]
      exact Digits.toDecimal?_bounds _ hB ((hvalue.trans_eq hexact).trans hsize)

end ShapeEstimator.Decimal
