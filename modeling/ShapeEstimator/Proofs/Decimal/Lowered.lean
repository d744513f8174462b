/-
  ShapeEstimator.Proofs.Decimal.Lowered
  ────────────────────────────────
  **FROM DECIMAL TO DOUBLE, AND HOW FAR IT IS OFF.**

  The digits in front of the point and those behind it become doubles by themselves.
  Their sum is brought back to an integer and divided once more:

      sum  =  whole ⊕ (rest ⊘ 10^s)          double  =  round (sum ⊗ 10^s) ⊘ 10^s

  If the integer comes back as the coefficient and the power of ten is exact, then the
  double is the nearest one.  Otherwise a few roundings are all that is lost.
-/
import ShapeEstimator.Proofs.Binary64.Roundoff
import ShapeEstimator.Proofs.Decimal.Double

namespace ShapeEstimator.Decimal

open Binary64 (Magnitude Within roundoff within_nearest_of_one_le)
open Binary64.Magnitude (Representable nearest representable_natCast)

/-! ## §1. Powers of ten. -/

/-- The powers of ten that a scale calls for are rounded once, however they are computed. -/
theorem powerOfTen_eq_ofNat : ∀ s ≤ 28, powerOfTen s = Magnitude.ofNat (10 ^ s) := by
  -- there are 29 of them
  decide +kernel

variable {c s : ℕ}

theorem powerOfTen_eq_nearest (hs : s ≤ 28) : powerOfTen s = nearest (10 ^ s) := by
  rw [powerOfTen_eq_ofNat s hs, Magnitude.ofNat_eq_nearest]
  push_cast
  rfl

theorem within_powerOfTen (hs : s ≤ 28) : Within 1 (powerOfTen s).value (10 ^ s) := by
  rw [powerOfTen_eq_nearest hs]
  exact within_nearest_of_one_le (one_le_pow₀ (by norm_num))

/-- A power of ten with 53 bits before its trailing zeros is exact. -/
theorem value_powerOfTen (hs : s ≤ 22) : (powerOfTen s).value = 10 ^ s := by
  have hbits : 5 ^ s < 2 ^ 53 :=
    (Nat.pow_le_pow_right (by norm_num) hs).trans_lt (by norm_num)
  have hexact : Representable (10 ^ s) := by
    refine ⟨5 ^ s, s, hbits, (by decide : (-1074 : ℤ) ≤ 0).trans (Int.natCast_nonneg s), ?_⟩
    rw [zpow_natCast, show (10 : ℚ) = 5 * 2 by norm_num, mul_pow]
    push_cast
    rfl
  rw [powerOfTen_eq_nearest (hs.trans (by norm_num)), hexact.value_nearest]

/-- A decimal that is not zero is not too small for one rounding. -/
theorem two_zpow_le_div {n : ℕ} (hn : 0 < n) (hs : s ≤ 28) :
    (2 : ℚ) ^ (-1020 : ℤ) ≤ (n : ℚ) / 10 ^ s := by
  have hone : (1 : ℚ) ≤ n := by exact_mod_cast hn
  have hpow : (10 : ℚ) ^ s ≤ 2 ^ 1020 :=
    calc (10 : ℚ) ^ s ≤ 10 ^ 28 := pow_le_pow_right₀ (by norm_num) hs
      _ ≤ 2 ^ 100 := by norm_num
      _ ≤ 2 ^ 1020 := pow_le_pow_right₀ one_le_two (by norm_num)
  rw [zpow_neg, zpow_ofNat, inv_eq_one_div]
  exact div_le_div₀ (by positivity) hone (by positivity) hpow

/-! ## §2. The coefficient put together again. -/

/-- The digits behind the point as a double. -/
def restOf (c s : ℕ) : Magnitude := (Magnitude.ofNat (c % 10 ^ s)).div (Magnitude.ofNat (10 ^ s))

/-- The digits in front of the point and those behind it, scaled to an integer. -/
def gathered (c s : ℕ) : Magnitude :=
  ((Magnitude.ofNat (c / 10 ^ s)).add (restOf c s)).mul (powerOfTen s)

theorem value_ofNat {n : ℕ} (hn : n < 2 ^ 53) : (Magnitude.ofNat n).value = n := by
  rw [Magnitude.ofNat_eq_nearest, (representable_natCast hn).value_nearest]

/-- Whole part and rest of the number with coefficient `c` and scale `s`. -/
theorem whole_add_rest (c s : ℕ) :
    ((c / 10 ^ s : ℕ) : ℚ) + ((c % 10 ^ s : ℕ) : ℚ) / 10 ^ s = c / 10 ^ s := by
  have hsplit : ((10 ^ s : ℕ) : ℚ) * (c / 10 ^ s : ℕ) + (c % 10 ^ s : ℕ) = c := by
    exact_mod_cast Nat.div_add_mod c (10 ^ s)
  rw [← hsplit]
  push_cast
  field_simp

section Rest

variable (hc : c < 2 ^ 53) (hrest : c % 10 ^ s ≠ 0)

include hc in
theorem value_rest_digits : (Magnitude.ofNat (c % 10 ^ s)).value = (c % 10 ^ s : ℕ) :=
  value_ofNat ((Nat.mod_le c _).trans_lt hc)

include hc in
theorem value_whole_digits : (Magnitude.ofNat (c / 10 ^ s)).value = (c / 10 ^ s : ℕ) :=
  value_ofNat ((Nat.div_le_self c _).trans_lt hc)

include hc in
theorem restOf_eq_nearest (hs : s ≤ 28) :
    restOf c s = nearest (((c % 10 ^ s : ℕ) : ℚ) / (powerOfTen s).value) := by
  unfold restOf
  rw [← powerOfTen_eq_ofNat s hs, Magnitude.div_eq_nearest _ (within_powerOfTen hs).pos,
    value_rest_digits hc]

include hc in
theorem gathered_eq_nearest : gathered c s
    = nearest ((nearest ((c / 10 ^ s : ℕ) + (restOf c s).value)).value * (powerOfTen s).value) := by
  unfold gathered
  rw [Magnitude.mul_eq_nearest, Magnitude.add_eq_nearest, value_whole_digits hc]

include hc hrest in
theorem within_restOf (hs : s ≤ 28) :
    Within 2 (restOf c s).value (((c % 10 ^ s : ℕ) : ℚ) / 10 ^ s) := by
  have hpos := Nat.pos_of_ne_zero hrest
  have hdigits : (0 : ℚ) < (c % 10 ^ s : ℕ) := by exact_mod_cast hpos
  rw [restOf_eq_nearest hc hs]
  exact ((Within.refl 0 hdigits).div (within_powerOfTen hs)).round (by norm_num)
    (two_zpow_le_div hpos hs)

include hc hrest in
/-- **Five roundings** lie between the coefficient and what comes back for it. -/
theorem within_gathered (hs : s ≤ 28) : Within 5 (gathered c s).value c := by
  have hpos : 0 < c := (Nat.pos_of_ne_zero hrest).trans_le (Nat.mod_le c _)
  have hwhole : (0 : ℚ) ≤ (c / 10 ^ s : ℕ) := Nat.cast_nonneg _
  -- two roundings for the rest, and one each for the sum, the power of ten and the product
  have hsum := (within_restOf hc hrest hs).add_left hwhole
  rw [whole_add_rest] at hsum
  have hsize := two_zpow_le_div hpos hs
  have hproduct := (hsum.round (by norm_num) hsize).mul (within_powerOfTen hs)
  rw [div_mul_cancel₀ _ (by positivity)] at hproduct
  have hone : (2 : ℚ) ^ (-1020 : ℤ) ≤ c :=
    hsize.trans (div_le_self c.cast_nonneg (one_le_pow₀ (by norm_num)))
  rw [gathered_eq_nearest hc]
  exact hproduct.round (by norm_num) hone

include hc hrest in
/-- With digits behind the point, the double is made from the coefficient that comes back. -/
theorem lowerMagnitude_eq_div (hs : s ≤ 28) :
    lowerMagnitude c s
      = (Magnitude.ofNat (gathered c s).roundToNat).div (powerOfTen s) := by
  have hscale : s ≠ 0 := by
    rintro rfl
    exact hrest (Nat.mod_one c)
  have hsignificand : (restOf c s).significand ≠ 0 := by
    intro hzero
    have hpos := (within_restOf hc hrest hs).pos
    unfold Magnitude.value at hpos
    rw [hzero, Nat.cast_zero, zero_mul] at hpos
    exact lt_irrefl 0 hpos
  unfold lowerMagnitude
  dsimp only
  rw [if_neg hscale]
  exact if_neg hsignificand

end Rest

/-! ## §3. The nearest double. -/

theorem roundToNat_eq {x : Magnitude} (h : |x.value - c| < 1 / 2) : x.roundToNat = c := by
  apply Magnitude.eq_of_abs_sub_lt_one
  calc |(x.roundToNat : ℚ) - c| ≤ |(x.roundToNat : ℚ) - x.value| + |x.value - c| := abs_sub_le _ _ _
    _ < 1 / 2 + 1 / 2 := add_lt_add_of_le_of_lt x.abs_roundToNat_sub_le h
    _ = 1 := by norm_num

/-- Without digits behind the point there is one rounding. -/
theorem lowerMagnitude_whole (h : c % 10 ^ s = 0) :
    lowerMagnitude c s = nearest ((c : ℚ) / 10 ^ s) := by
  have hvalue : (c : ℚ) / 10 ^ s = (c / 10 ^ s : ℕ) := by
    rw [← whole_add_rest, h, Nat.cast_zero, zero_div, add_zero]
  rw [hvalue, ← Magnitude.ofNat_eq_nearest]
  unfold lowerMagnitude
  dsimp only
  by_cases hs : s = 0
  · rw [if_pos hs, hs, pow_zero, Nat.div_one]
  · have hzero : ((Magnitude.ofNat (c % 10 ^ s)).div (Magnitude.ofNat (10 ^ s))).significand = 0 := by
      rw [h]
      unfold Magnitude.div Magnitude.ofQuotient
      rw [if_pos (Or.inl (by rw [Magnitude.numerator]; simp [Magnitude.ofNat, Magnitude.ofQuotient,
        Magnitude.zero]))]
      rfl
    rw [if_neg hs, if_pos hzero]

/-- **The nearest double**, where the coefficient comes back and the power of ten is exact. -/
theorem lowerMagnitude_eq_nearest (hc : c < 2 ^ 53) (hs : s ≤ 22)
    (hback : c % 10 ^ s ≠ 0 → |(gathered c s).value - c| < 1 / 2) :
    lowerMagnitude c s = nearest ((c : ℚ) / 10 ^ s) := by
  by_cases hrest : c % 10 ^ s = 0
  · exact lowerMagnitude_whole hrest
  · have hscale : s ≤ 28 := hs.trans (by norm_num)
    rw [lowerMagnitude_eq_div hc hrest hscale, roundToNat_eq (hback hrest),
      Magnitude.div_eq_nearest _ (within_powerOfTen hscale).pos, value_ofNat hc, value_powerOfTen hs]

/-- A short coefficient comes back. -/
theorem lowerMagnitude_of_short (hc : c < 2 ^ 49) (hs : s ≤ 22) :
    lowerMagnitude c s = nearest ((c : ℚ) / 10 ^ s) := by
  have hbits : c < 2 ^ 53 := hc.trans (by norm_num)
  refine lowerMagnitude_eq_nearest hbits hs fun hrest => ?_
  have hoff := (within_gathered hbits hrest (hs.trans (by norm_num))).abs_sub_le le_rfl
  have hshort : (c : ℚ) < 2 ^ 49 := by exact_mod_cast hc
  refine hoff.trans_lt ?_
  unfold roundoff
  push_cast
  linarith

/-- The coefficient of a double comes back: all its steps are exact. -/
theorem lowerMagnitude_of_representable (hc : c < 2 ^ 53) (hs : s ≤ 22)
    (h : Representable ((c : ℚ) / 10 ^ s)) :
    lowerMagnitude c s = nearest ((c : ℚ) / 10 ^ s) := by
  refine lowerMagnitude_eq_nearest hc hs fun hrest => ?_
  have hsplit := whole_add_rest c s
  have hpow : ((c % 10 ^ s : ℕ) : ℚ) < 10 ^ s := by
    exact_mod_cast Nat.mod_lt c (by positivity : 0 < 10 ^ s)
  have hrestLt : ((c % 10 ^ s : ℕ) : ℚ) / 10 ^ s < 1 := (div_lt_one (by positivity)).2 hpow
  have hrestNonneg : (0 : ℚ) ≤ ((c % 10 ^ s : ℕ) : ℚ) / 10 ^ s := by positivity
  have hfraction : Representable (((c % 10 ^ s : ℕ) : ℚ) / 10 ^ s) := by
    have hbehind := h.sub_natCast (n := c / 10 ^ s) (by linarith) (by linarith)
    rwa [← hsplit, add_sub_cancel_left] at hbehind
  -- the rest is what a double has behind the point, their sum is the double, and the product `c`
  have hvalue : (gathered c s).value = c := by
    rw [gathered_eq_nearest hc, restOf_eq_nearest hc (hs.trans (by norm_num)), value_powerOfTen hs,
      hfraction.value_nearest, hsplit, h.value_nearest, div_mul_cancel₀ _ (by positivity),
      (representable_natCast hc).value_nearest]
  rw [hvalue, sub_self, abs_zero]
  norm_num

/-! ## §4. The error. -/

/-- The coefficient that comes back is off by little: a long one by a half and five roundings, a
short one not at all. -/
theorem abs_roundToNat_gathered_sub_le (hc : c < 2 ^ 52) (hrest : c % 10 ^ s ≠ 0) (hs : s ≤ 28) :
    |((gathered c s).roundToNat : ℚ) - c| ≤ 14 * roundoff * c := by
  have hoff := (within_gathered (hc.trans (by norm_num)) hrest hs).abs_sub_le le_rfl
  have hround := (gathered c s).abs_roundToNat_sub_le
  unfold roundoff at hoff ⊢
  push_cast at hoff
  rcases lt_or_ge c (2 ^ 49) with hshort | hlong
  · have hshort' : (c : ℚ) < 2 ^ 49 := by exact_mod_cast hshort
    rw [roundToNat_eq (hoff.trans_lt (by linarith)), sub_self, abs_zero]
    positivity
  · have hlong' : (2 : ℚ) ^ 49 ≤ c := by exact_mod_cast hlong
    calc |((gathered c s).roundToNat : ℚ) - c|
        ≤ |((gathered c s).roundToNat : ℚ) - (gathered c s).value| + |(gathered c s).value - c| :=
          abs_sub_le _ _ _
      _ ≤ 1 / 2 + (5 + 1) * (1 / 2 ^ 53) * c := add_le_add hround hoff
      _ ≤ 14 * (1 / 2 ^ 53) * c := by linarith

/-- Dividing what came back takes three roundings more. -/
theorem abs_lowerMagnitude_sub_le_of_rest (hc : c < 2 ^ 52) (hrest : c % 10 ^ s ≠ 0) (hs : s ≤ 28) :
    |(lowerMagnitude c s).value - c / 10 ^ s| ≤ 18 * roundoff * (c / 10 ^ s) := by
  have hback := abs_roundToNat_gathered_sub_le hc hrest hs
  rw [lowerMagnitude_eq_div (hc.trans (by norm_num)) hrest hs,
    Magnitude.div_eq_nearest _ (within_powerOfTen hs).pos]
  generalize (gathered c s).roundToNat = back at hback ⊢
  obtain ⟨hlow, hhigh⟩ := abs_le.1 hback
  have hlong : (c : ℚ) < 2 ^ 52 := by exact_mod_cast hc
  have hpos : (0 : ℚ) < c := by
    exact_mod_cast (Nat.pos_of_ne_zero hrest).trans_le (Nat.mod_le c _)
  have hbackPos : (0 : ℚ) < back := by
    unfold roundoff at hlow
    linarith
  have hbackLt : back < 2 ^ 53 := by
    have hlt : (back : ℚ) < 2 ^ 53 := by
      unfold roundoff at hhigh
      linarith
    exact_mod_cast hlt
  have hdivided := (((Within.refl 0 hbackPos).div (within_powerOfTen hs)).round (by norm_num)
    (two_zpow_le_div (by exact_mod_cast hbackPos) hs)).abs_sub_le (by norm_num)
  have hmoved : |(back : ℚ) / 10 ^ s - c / 10 ^ s| ≤ 14 * roundoff * (c / 10 ^ s) := by
    rw [← sub_div, abs_div, abs_of_pos (show (0 : ℚ) < 10 ^ s by positivity), ← mul_div_assoc]
    exact div_le_div_of_nonneg_right hback (by positivity)
  have hbackLe : (back : ℚ) / 10 ^ s ≤ (1 + 14 * roundoff) * (c / 10 ^ s) := by
    linarith [(abs_le.1 hmoved).2]
  rw [value_ofNat hbackLt]
  calc |(nearest ((back : ℚ) / (powerOfTen s).value)).value - c / 10 ^ s|
      ≤ |(nearest ((back : ℚ) / (powerOfTen s).value)).value - back / 10 ^ s|
        + |(back : ℚ) / 10 ^ s - c / 10 ^ s| := abs_sub_le _ _ _
    _ ≤ 3 * roundoff * (back / 10 ^ s) + 14 * roundoff * (c / 10 ^ s) :=
      add_le_add (hdivided.trans_eq (by norm_num)) hmoved
    _ ≤ 3 * roundoff * ((1 + 14 * roundoff) * (c / 10 ^ s)) + 14 * roundoff * (c / 10 ^ s) :=
      add_le_add_left (mul_le_mul_of_nonneg_left hbackLe (by unfold roundoff; positivity)) _
    _ = (17 + 42 * roundoff) * roundoff * (c / 10 ^ s) := by ring
    _ ≤ 18 * roundoff * (c / 10 ^ s) := by
      refine mul_le_mul_of_nonneg_right (mul_le_mul_of_nonneg_right ?_ ?_) (by positivity) <;>
        (unfold roundoff; norm_num)

/-- **A decimal is lowered with a small relative error.** -/
theorem abs_lowerMagnitude_sub_le (hpos : 0 < c) (hs : s ≤ 28) (hc : s = 0 ∨ c < 2 ^ 52) :
    |(lowerMagnitude c s).value - c / 10 ^ s| ≤ 18 * roundoff * (c / 10 ^ s) := by
  by_cases hrest : c % 10 ^ s = 0
  · -- an integer is rounded once
    have hone : (1 : ℚ) ≤ c / 10 ^ s := by
      rw [one_le_div (by positivity)]
      exact_mod_cast Nat.le_of_dvd hpos (Nat.dvd_of_mod_eq_zero hrest)
    have hoff := (within_nearest_of_one_le hone).abs_sub_le (by norm_num)
    rw [lowerMagnitude_whole hrest]
    refine hoff.trans (mul_le_mul_of_nonneg_right ?_ (by positivity))
    unfold roundoff
    norm_num
  · refine abs_lowerMagnitude_sub_le_of_rest (hc.resolve_left ?_) hrest hs
    rintro rfl
    exact hrest (Nat.mod_one c)

/-! ## §5. Doubles. -/

theorem canonical_lowerMagnitude (hc : c < 2 ^ 96) (hs : s ≤ 28) :
    (lowerMagnitude c s).Canonical := by
  have hbelow := lowerMagnitude_below hc hs
  have hquotient : ∃ a b, lowerMagnitude c s = Magnitude.ofQuotient a b := by
    unfold lowerMagnitude
    dsimp only
    split
    · exact ⟨c, 1, rfl⟩
    · split
      · exact ⟨c / 10 ^ s, 1, rfl⟩
      · exact ⟨_, _, rfl⟩
  obtain ⟨a, b, heq⟩ := hquotient
  rw [heq] at hbelow ⊢
  exact Magnitude.canonical_ofQuotient hbelow

/-- Sign and magnitude of the double for a decimal that is not zero. -/
theorem lower_eq_toFloat {x : Decimal} (h : x.coefficient ≠ 0) :
    x.lower = (lowerMagnitude x.coefficient x.scale).toFloat x.negative := by
  unfold lower
  rw [beq_false_of_ne h, Bool.false_and, Bool.not_false, Bool.and_true]

/-- The value of the double for a decimal that is not zero. -/
theorem value?_lower {x : Decimal} (h : x.coefficient ≠ 0) :
    Binary64.value? x.lower
      = some (signed x.negative (lowerMagnitude x.coefficient x.scale).value) := by
  rw [lower_eq_toFloat h,
    Magnitude.value?_toFloat (canonical_lowerMagnitude x.coefficient_lt x.scale_le)]
  rfl

end ShapeEstimator.Decimal
