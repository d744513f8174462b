/-
  ShapeEstimator.Proofs.Decimal.RoundTrip
  ────────────────────────────────
  **LIFTED AND LOWERED AGAIN.**

  A double that is lifted into decimal and lowered again comes back as it was, or off by
  little:

      lower (lift x)  =  x               for an integer, for few exact digits, for the
                                         double of a decimal with six digits
      lower (lift x)  ≈  x · (1 ± 4 · 10⁻¹⁵)   for all others

  The two conversions are taken together here; each is dealt with by itself.
-/
import ShapeEstimator.Proofs.Decimal.Exact
import ShapeEstimator.Proofs.Decimal.FewDigits
import ShapeEstimator.Proofs.Decimal.Lowered

namespace ShapeEstimator.Decimal

open Binary64 (Magnitude roundoff)
open Binary64.Magnitude (decimalValue nearest)

variable {c M p s : ℕ} {e : ℤ} {q : ℚ} {m : Magnitude} {x : Float}

/-! ## §1. The error. -/

/-- A lifted double is off by little. -/
theorem Lifted.abs_sub_le (h : Lifted q M p) (hq : 0 < q) :
    |(M : ℚ) / 10 ^ p - q| ≤ 12 * roundoff * q := by
  have hpow : (0 : ℚ) < 10 ^ p := by positivity
  rcases h.precise with hexact | ⟨-, hoff⟩
  · rw [hexact, mul_div_cancel_right₀ _ hpow.ne', sub_self, abs_zero]
    unfold roundoff
    positivity
  · rw [← mul_le_mul_iff_left₀ hpow, ← abs_of_pos hpow, ← abs_mul, abs_of_pos hpow, sub_mul,
      div_mul_cancel₀ _ hpow.ne']
    linarith

theorem Lifted.pos (h : Lifted q M p) (hq : 0 < q) : 0 < M := by
  rcases h.precise with hexact | ⟨hmany, -⟩
  · have hpos : (0 : ℚ) < M := by
      rw [hexact]
      positivity
    exact_mod_cast hpos
  · omega

/-- The digits without their trailing zeros. -/
theorem Lifted.trimmed (h : Lifted q M p) (hq : 0 < q) :
    0 < (Decimal.trimmed M p).1 ∧ (Decimal.trimmed M p).2 ≤ 28
      ∧ ((Decimal.trimmed M p).2 = 0 ∨ (Decimal.trimmed M p).1 < 2 ^ 52) := by
  have hvalue := trimmed_value M p
  have hdigits := trimmed_fst_le M p
  have hplaces := trimmed_snd_le M p
  refine ⟨?_, hplaces.trans h.places_le, ?_⟩
  · have hM : (0 : ℚ) < M := by exact_mod_cast h.pos hq
    rw [Nat.pos_iff_ne_zero]
    intro hzero
    rw [hzero, Nat.cast_zero, zero_div] at hvalue
    have hpos : (0 : ℚ) < M / 10 ^ p := by positivity
    linarith
  · rcases h.short with hnone | hshort
    · left
      omega
    · right
      omega

/-- **The error of both ways.** -/
theorem Lifted.abs_lowerMagnitude_sub_le (h : Lifted q M p) (hq : 0 < q) :
    |(lowerMagnitude (Decimal.trimmed M p).1 (Decimal.trimmed M p).2).value - q|
      ≤ 4 / 10 ^ 15 * q := by
  obtain ⟨hpos, hplaces, hshort⟩ := h.trimmed hq
  have hlow := Decimal.abs_lowerMagnitude_sub_le hpos hplaces hshort
  have hlift := h.abs_sub_le hq
  rw [trimmed_value] at hlow
  generalize (lowerMagnitude (Decimal.trimmed M p).1 (Decimal.trimmed M p).2).value = back at hlow ⊢
  generalize (M : ℚ) / 10 ^ p = lifted at hlow hlift
  unfold roundoff at hlow hlift
  obtain ⟨hliftLow, hliftHigh⟩ := abs_le.1 hlift
  obtain ⟨hlowLow, hlowHigh⟩ := abs_le.1 hlow
  rw [abs_le]
  constructor <;> linarith

/-! ## §2. Doubles that come back. -/

/-- Exact digits come back as the double they are from. -/
theorem lowerMagnitude_of_exact (h : Lifted m.value M p) (hm : m.Canonical) (hpos : 0 < m.value)
    (hM : (M : ℚ) = m.value * 10 ^ p) (hp : p ≤ 22) :
    lowerMagnitude (trimmed M p).1 (trimmed M p).2 = m := by
  obtain ⟨-, -, hshort⟩ := h.trimmed hpos
  have hvalue := trimmed_value M p
  rw [hM, mul_div_cancel_right₀ _ (by positivity)] at hvalue
  have hplaces := (trimmed_snd_le M p).trans hp
  rcases hshort with hnone | hless
  · rw [lowerMagnitude_whole (by rw [hnone, pow_zero, Nat.mod_one]), hvalue, hm.nearest_value]
  · rw [lowerMagnitude_of_representable (hless.trans (by norm_num)) hplaces
      (hvalue ▸ hm.representable), hvalue, hm.nearest_value]

/-- Digits without trailing zeros are the fewest for their value. -/
theorem le_of_normal {d : ℕ} (hnormal : d % 10 ≠ 0) (h : (d : ℚ) / 10 ^ s = decimalValue c e) :
    d ≤ c := by
  -- with more places than the decimal, or with none, there would be a zero at the end
  have hzero {k : ℕ} (hk : 0 < k) (heq : d = c * 10 ^ k) : False := by
    obtain ⟨j, rfl⟩ := Nat.exists_eq_succ_of_ne_zero hk.ne'
    rw [pow_succ, ← mul_assoc] at heq
    omega
  unfold decimalValue at h
  rw [div_eq_iff (by positivity), mul_assoc, ← zpow_natCast, ← zpow_add₀ (by norm_num)] at h
  rcases le_or_gt 0 (e + s) with hsign | hsign
  · obtain ⟨k, hk⟩ := Int.eq_ofNat_of_zero_le hsign
    rw [hk, zpow_natCast] at h
    have heq : d = c * 10 ^ k := by exact_mod_cast h
    rcases Nat.eq_zero_or_pos k with rfl | hpos
    · rw [heq, pow_zero, mul_one]
    · exact (hzero hpos heq).elim
  · obtain ⟨k, hk⟩ : ∃ k : ℕ, e + s = -(k : ℤ) := ⟨(-(e + s)).toNat, by omega⟩
    rw [hk, zpow_neg, zpow_natCast, ← div_eq_mul_inv] at h
    have hone : (1 : ℚ) ≤ 10 ^ k := one_le_pow₀ (by norm_num)
    have hle : (d : ℚ) ≤ c := by
      rw [h]
      exact div_le_self c.cast_nonneg hone
    exact_mod_cast hle

/-- Six digits come back as the double that is nearest to them. -/
theorem lowerMagnitude_of_decimal (h : Lifted m.value M p) (hlow : 1 / 10 ^ 10 ≤ m.value)
    (hc : c < 10 ^ 6) (hM : (M : ℚ) = decimalValue c e * 10 ^ p)
    (hnearest : nearest (decimalValue c e) = m) :
    lowerMagnitude (trimmed M p).1 (trimmed M p).2 = m := by
  have hpos : 0 < m.value := lt_of_lt_of_le (by positivity) hlow
  have hvalue := trimmed_value M p
  have hoff := h.abs_sub_le hpos
  rw [hM, mul_div_cancel_right₀ _ (by positivity)] at hvalue hoff
  -- an integer, or a decimal that ends in its last place
  rcases trimmed_normal M p with hnone | hnormal
  · rw [lowerMagnitude_whole (by rw [hnone, pow_zero, Nat.mod_one]), hvalue, hnearest]
  · generalize (trimmed M p).1 = d at *
    generalize (trimmed M p).2 = t at *
    have hd : d < 10 ^ 6 := (le_of_normal hnormal hvalue).trans_lt hc
    -- six digits with more places would make too small a number
    have hplaces : t ≤ 22 := by
      by_contra hmany
      have hpow : (10 : ℚ) ^ 23 ≤ 10 ^ t := pow_le_pow_right₀ (by norm_num) (by omega)
      have hdigits : (d : ℚ) < 10 ^ 6 := by exact_mod_cast hd
      have htiny : (d : ℚ) / 10 ^ t ≤ 10 ^ 6 / 10 ^ 23 :=
        div_le_div₀ (by positivity) hdigits.le (by positivity) hpow
      unfold roundoff at hoff
      rw [hvalue] at htiny
      linarith [(abs_le.1 hoff).1]
    rw [lowerMagnitude_of_short (hd.trans (by norm_num)) hplaces, hvalue, hnearest]

/-! ## §3. Lifted and lowered. -/

/-- Doubles that come back from decimal as they were. -/
inductive ComesBack (x : Float) : Prop where
  /-- A double without a fraction. -/
  | integer {n : ℤ} (value : Binary64.value? x = some (n : ℚ)) : ComesBack x
  /-- A double that is exactly a decimal with digits below `2 ^ 52`. -/
  | fewDigits {n : ℤ} {s : ℕ} (few : |n| < 2 ^ 52)
      (value : Binary64.value? x = some ((n : ℚ) / 10 ^ s)) : ComesBack x
  /-- The double that a decimal with six digits is read as. -/
  | sixDigits {negative : Bool} {c : ℕ} {e : ℤ} (few : c < 10 ^ 6)
      (nearest : x = Binary64.ofDecimal negative c e) : ComesBack x

/-- The digits of a lifted double are exact, or those of the decimal that it is nearest to. -/
theorem Lifted.lowerMagnitude_eq (h : Lifted m.value M p) (hx : Binary64.magnitude? x = some m)
    (hlow : 1 / 10 ^ 10 ≤ m.value) (hback : ComesBack x) :
    lowerMagnitude (Decimal.trimmed M p).1 (Decimal.trimmed M p).2 = m := by
  have hm := Binary64.canonical_of_magnitude? hx
  have hpos : 0 < m.value := lt_of_lt_of_le (by positivity) hlow
  have hexact (hM : (M : ℚ) = m.value * 10 ^ p ∧ p ≤ 22) :=
    lowerMagnitude_of_exact h hm hpos hM.1 hM.2
  cases hback with
  | @integer n hvalue =>
    have hsize : m.value * 10 ^ 0 = n.natAbs := by
      rw [← Magnitude.abs_value?_of_magnitude? hx hvalue, pow_zero, mul_one, Nat.cast_natAbs,
        Int.cast_abs]
    exact hexact (h.exact 0 n.natAbs hsize (Or.inl rfl))
  | @fewDigits n s few hvalue =>
    have hpow : (0 : ℚ) < 10 ^ s := by positivity
    have hsize : m.value * 10 ^ s = n.natAbs := by
      rw [← Magnitude.abs_value?_of_magnitude? hx hvalue, abs_div, abs_of_pos hpow,
        div_mul_cancel₀ _ hpow.ne', Nat.cast_natAbs, Int.cast_abs]
    have hdigits : ((n.natAbs : ℕ) : ℤ) < 2 ^ 52 := by
      rw [Int.natCast_natAbs]
      exact few
    exact hexact (h.exact s n.natAbs hsize (Or.inr (by exact_mod_cast hdigits)))
  | @sixDigits negative c e few hread =>
    have hnearest : nearest (decimalValue c e) = m := by
      rw [hread] at hx
      exact (Magnitude.ofDecimal_eq_iff hm c e).1 (Magnitude.ofDecimal_of_magnitude? hx)
    rcases h.of_nearest hm hlow few hnearest with hM | hM
    · exact hexact hM
    · exact lowerMagnitude_of_decimal h hlow few hM hnearest

/-- **There and back.**  A double of moderate size is lifted, and what it is lowered to has its sign
and is off by little; the doubles that come back do. -/
theorem exists_lift_lower (hx : Binary64.magnitude? x = some m) (hlow : 1 / 10 ^ 10 ≤ m.value)
    (hhigh : m.value < 2 ^ 96 - 1) :
    ∃ w, lift? x = some w
      ∧ (∃ r, Binary64.value? w.lower = some (signed (Binary64.signBit x) r)
          ∧ |r - m.value| ≤ 4 / 10 ^ 15 * m.value)
      ∧ (ComesBack x → w.lower = x) := by
  obtain ⟨M, p, hlift, h⟩ := exists_lifted hx hlow hhigh
  have hpos : 0 < m.value := lt_of_lt_of_le (by positivity) hlow
  obtain ⟨hdigits, hplaces, -⟩ := h.trimmed hpos
  have hroom : (trimmed M p).1 < 2 ^ 96 ∧ (trimmed M p).2 ≤ 28 :=
    ⟨(trimmed_fst_le M p).trans_lt (h.lt_limit hhigh), hplaces⟩
  unfold make? at hlift
  rw [dif_pos hroom] at hlift
  refine ⟨_, hlift, ⟨_, value?_lower hdigits.ne', h.abs_lowerMagnitude_sub_le hpos⟩, fun hback => ?_⟩
  rw [lower_eq_toFloat hdigits.ne']
  dsimp only
  rw [h.lowerMagnitude_eq hx hlow hback]
  exact Binary64.toFloat_magnitude? hx

end ShapeEstimator.Decimal
