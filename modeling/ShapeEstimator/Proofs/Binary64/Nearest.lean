/-
  ShapeEstimator.Proofs.Binary64.Nearest
  ────────────────────────────────
  **ROUNDING TO DOUBLES, AS A FUNCTION OF RATIONALS.**

  A quotient of naturals and a number in decimal digits are rounded by different
  routes.  What comes out depends on the value only, and one function says it:

      ofQuotient a b  =  nearest (a / b)
      ofDecimal c e   =  nearest (c · 10 ^ e)      where the double is finite

  The function leaves the value of a double alone, so a double that is written out in
  full is read as itself.
-/
import Mathlib.Algebra.Order.Field.Power
import Mathlib.Data.Int.Log
import Mathlib.Data.Rat.Floor
import ShapeEstimator.Proofs.Binary64.Finite
import ShapeEstimator.Proofs.Decimal.Rounding

namespace ShapeEstimator.Binary64

/-! ## §1. Magnitudes of doubles. -/

namespace Magnitude

/-- A magnitude that a double has: of 53 bits, of fewer only at the least exponent, and not beyond
the greatest. -/
structure Canonical (m : Magnitude) : Prop where
  /-- The significand has at most 53 bits. -/
  significand_lt : m.significand < 2 ^ 53
  /-- It has fewer only where the exponent is the least one. -/
  exponent_eq : m.significand < 2 ^ 52 → m.exponent = leastExponent
  /-- The exponent is not below the least one. -/
  le_exponent : leastExponent ≤ m.exponent
  /-- The exponent is that of a finite double. -/
  exponent_le : m.exponent ≤ 971

end Magnitude

section Bits

variable {x : Float} {m : Magnitude}

theorem isFinite_of_magnitude? (h : magnitude? x = some m) : x.isFinite = true := by
  rw [isFinite_iff]
  intro (hones : x.toBits.toNat % 2 ^ 63 / 2 ^ 52 = 2047)
  unfold magnitude? at h
  dsimp only at h
  rw [if_pos hones] at h
  exact nomatch h

theorem canonical_of_magnitude? (h : magnitude? x = some m) : m.Canonical := by
  unfold magnitude? at h
  dsimp only at h
  split at h
  · exact nomatch h
  · rename_i hones
    have hfield : x.toBits.toNat % 2 ^ 63 / 2 ^ 52 < 2048 := by omega
    split at h
    · cases h
      refine ⟨?_, fun _ => rfl, le_rfl, ?_⟩
      · show x.toBits.toNat % 2 ^ 63 % 2 ^ 52 < 2 ^ 53
        omega
      · show (-1074 : ℤ) ≤ 971
        omega
    · rename_i hzero
      cases h
      constructor
      · show 2 ^ 52 + x.toBits.toNat % 2 ^ 63 % 2 ^ 52 < 2 ^ 53
        omega
      · intro hlow
        have hlow' : 2 ^ 52 + x.toBits.toNat % 2 ^ 63 % 2 ^ 52 < 2 ^ 52 := hlow
        omega
      · show (-1074 : ℤ) ≤ _ - 1075
        omega
      · show ((x.toBits.toNat % 2 ^ 63 / 2 ^ 52 : ℕ) : ℤ) - 1075 ≤ 971
        omega

/-- Sign and magnitude of a double make the double. -/
theorem toFloat_magnitude? (h : magnitude? x = some m) : m.toFloat (signBit x) = x := by
  have hfinite := isFinite_of_magnitude? h
  have hword : x.toBits.toNat < 2 ^ 64 := x.toBits.toNat_lt
  -- the fields of the bits, put together again
  have hbits : ∀ magnitude, magnitude = x.toBits.toNat % 2 ^ 63 →
      Float.ofBits (UInt64.ofNat (magnitude + if signBit x then 2 ^ 63 else 0)) = x := by
    intro magnitude hmagnitude
    have hsum : magnitude + (if signBit x then 2 ^ 63 else 0) = x.toBits.toNat := by
      unfold signBit
      rw [hmagnitude]
      by_cases hsign : 2 ^ 63 ≤ x.toBits.toNat
      · rw [decide_eq_true hsign, if_pos rfl]
        omega
      · rw [decide_eq_false hsign, if_neg Bool.false_ne_true]
        omega
    rw [hsum, UInt64.ofNat_toNat]
    exact ofBits_toBits hfinite
  unfold Magnitude.toFloat
  dsimp only
  apply hbits
  unfold magnitude? at h
  dsimp only at h
  split at h
  · exact nomatch h
  · rename_i hones
    split at h
    · rename_i hzero
      cases h
      show (if x.toBits.toNat % 2 ^ 63 % 2 ^ 52 < 2 ^ 52 then x.toBits.toNat % 2 ^ 63 % 2 ^ 52
        else _) = _
      rw [if_pos (by omega)]
      omega
    · rename_i hzero
      cases h
      dsimp only
      rw [if_neg (by omega), if_neg (by omega)]
      omega

end Bits

/-! ## §2. Values. -/

/-- A power with an integral exponent, as a quotient of powers. -/
theorem pow_toNat_div (b : ℕ) (e : ℤ) :
    (b : ℚ) ^ e.toNat / (b : ℚ) ^ (-e).toNat = (b : ℚ) ^ e := by
  rcases le_or_gt 0 e with hsign | hsign
  · obtain ⟨n, rfl⟩ := Int.eq_ofNat_of_zero_le hsign
    rw [Int.toNat_natCast, show (-(n : ℤ)).toNat = 0 by omega, pow_zero, div_one, zpow_natCast]
  · obtain ⟨n, rfl⟩ : ∃ n : ℕ, e = -(n : ℤ) := ⟨(-e).toNat, by omega⟩
    rw [show (-(n : ℤ)).toNat = 0 by omega, neg_neg, Int.toNat_natCast, pow_zero, zpow_neg,
      zpow_natCast, one_div]

namespace Magnitude

/-- The value of a magnitude. -/
def value (m : Magnitude) : ℚ := m.significand * 2 ^ m.exponent

variable {a b : ℕ}

/-- The binary logarithm of a quotient is that of its value. -/
theorem floorLog2_eq_log (ha : 0 < a) (hb : 0 < b) : floorLog2 a b = Int.log 2 ((a : ℚ) / b) := by
  have haq : (0 : ℚ) < a := by exact_mod_cast ha
  have hbq : (0 : ℚ) < b := by exact_mod_cast hb
  have hquotient : (0 : ℚ) < (a : ℚ) / b := by positivity
  apply le_antisymm
  · rw [← Int.zpow_le_iff_le_log one_lt_two hquotient, le_div_iff₀ hbq, mul_comm]
    push_cast
    unfold floorLog2
    dsimp only
    split
    · rename_i h
      rw [← not_lt, lt_mul_zpow_iff, not_lt]
      exact h
    · -- one less than the difference of the two logarithms is always small enough
      have hlow : (2 : ℚ) ^ (a.log2 : ℤ) ≤ a := by exact_mod_cast Nat.log2_self_le ha.ne'
      have hhigh : (b : ℚ) ≤ 2 ^ ((b.log2 : ℤ) + 1) := by
        exact_mod_cast (Nat.lt_log2_self (n := b)).le
      calc (b : ℚ) * 2 ^ ((a.log2 : ℤ) - b.log2 - 1)
          ≤ 2 ^ ((b.log2 : ℤ) + 1) * 2 ^ ((a.log2 : ℤ) - b.log2 - 1) :=
            mul_le_mul_of_nonneg_right hhigh (by positivity)
        _ = 2 ^ (a.log2 : ℤ) := by
          rw [← zpow_add₀ two_ne_zero]
          congr 1
          ring
        _ ≤ a := hlow
  · have hlt := lt_floorLog2 a hb
    have hlog : Int.log 2 ((a : ℚ) / b) < floorLog2 a b + 1 := by
      rw [← Int.lt_zpow_iff_log_lt one_lt_two hquotient, div_lt_iff₀ hbq, mul_comm]
      exact_mod_cast hlt
    omega

/-- The exponent that a value is rounded at. -/
def exponentFor (q : ℚ) : ℤ := max (Int.log 2 q - 52) leastExponent

/-- The magnitude nearest to a value, a tie to the even significand. -/
def nearest (q : ℚ) : Magnitude :=
  if q = 0 then zero
  else canonical (halfEven (q * 2 ^ (-exponentFor q))) (exponentFor q)

/-- **A quotient is rounded by its value.** -/
theorem ofQuotient_eq_nearest (a : ℕ) (hb : 0 < b) : ofQuotient a b = nearest ((a : ℚ) / b) := by
  have hbq : (b : ℚ) ≠ 0 := by exact_mod_cast hb.ne'
  unfold ofQuotient nearest
  by_cases ha : a = 0
  · rw [if_pos (Or.inl ha), if_pos (by rw [ha, Nat.cast_zero, zero_div])]
  · have haq : (a : ℚ) ≠ 0 := by exact_mod_cast ha
    rw [if_neg (by omega), if_neg (div_ne_zero haq hbq)]
    unfold exponentFor
    rw [floorLog2_eq_log (Nat.pos_of_ne_zero ha) hb]
    generalize max (Int.log 2 ((a : ℚ) / b) - 52) leastExponent = e
    dsimp only
    congr 1
    rw [← halfEven_div _ (Nat.mul_pos hb (Nat.two_pow_pos _))]
    congr 1
    have hpow := pow_toNat_div 2 (-e)
    rw [neg_neg] at hpow
    push_cast at hpow ⊢
    rw [← hpow]
    field_simp

/-! ## §3. Doubles are rounded to themselves. -/

variable {m : Magnitude}

theorem Canonical.log_le (h : m.Canonical) (hpos : 0 < m.significand) :
    Int.log 2 m.value ≤ m.exponent + 52 := by
  have hvalue : 0 < m.value := by
    have : (0 : ℚ) < m.significand := by exact_mod_cast hpos
    exact mul_pos this (by positivity)
  have hlt : m.value < ((2 : ℕ) : ℚ) ^ (m.exponent + 53) := by
    have hbits : (m.significand : ℚ) < 2 ^ (53 : ℤ) := by exact_mod_cast h.significand_lt
    calc m.value < 2 ^ (53 : ℤ) * 2 ^ m.exponent :=
          mul_lt_mul_of_pos_right hbits (by positivity)
      _ = ((2 : ℕ) : ℚ) ^ (m.exponent + 53) := by
        rw [← zpow_add₀ two_ne_zero, add_comm]
        norm_cast
  have := (Int.lt_zpow_iff_log_lt one_lt_two hvalue).1 hlt
  omega

/-- A double is rounded at its own exponent. -/
theorem Canonical.exponentFor_value (h : m.Canonical) (hpos : 0 < m.significand) :
    exponentFor m.value = m.exponent := by
  have hvalue : 0 < m.value := by
    have : (0 : ℚ) < m.significand := by exact_mod_cast hpos
    exact mul_pos this (by positivity)
  have hlog := h.log_le hpos
  have hleast := h.le_exponent
  unfold exponentFor
  by_cases hfull : m.significand < 2 ^ 52
  · have := h.exponent_eq hfull
    omega
  · -- a significand of 53 bits fixes the logarithm
    have hge : ((2 : ℕ) : ℚ) ^ (m.exponent + 52) ≤ m.value := by
      have hbits : (2 : ℚ) ^ (52 : ℤ) ≤ m.significand := by exact_mod_cast not_lt.1 hfull
      calc ((2 : ℕ) : ℚ) ^ (m.exponent + 52) = 2 ^ (52 : ℤ) * 2 ^ m.exponent := by
            rw [← zpow_add₀ two_ne_zero, add_comm]
            norm_cast
        _ ≤ m.value := mul_le_mul_of_nonneg_right hbits (by positivity)
    have := (Int.zpow_le_iff_le_log one_lt_two hvalue).1 hge
    omega

/-- **A double is rounded to itself.** -/
theorem Canonical.nearest_value (h : m.Canonical) : nearest m.value = m := by
  unfold nearest
  rcases Nat.eq_zero_or_pos m.significand with hzero | hpos
  · have hexponent := h.exponent_eq (by rw [hzero]; positivity)
    have hvalue : m.value = 0 := by
      unfold value
      rw [hzero, Nat.cast_zero, zero_mul]
    rw [if_pos hvalue]
    cases m
    cases hzero
    cases hexponent
    rfl
  · have hvalue : m.value ≠ 0 := by
      have : (m.significand : ℚ) ≠ 0 := by exact_mod_cast hpos.ne'
      exact mul_ne_zero this (by positivity)
    have hscaled : m.value * 2 ^ (-m.exponent) = m.significand := by
      unfold value
      rw [mul_assoc, ← zpow_add₀ two_ne_zero, add_neg_cancel, zpow_zero, mul_one]
    have hbits := h.significand_lt
    rw [if_neg hvalue, h.exponentFor_value hpos, hscaled, halfEven_natCast]
    unfold canonical
    rw [if_neg (by omega)]

/-! ## §4. Decimal digits. -/

theorem exponentFor_le_nearest (q : ℚ) : exponentFor q ≤ (nearest q).exponent ∨ q = 0 := by
  unfold nearest
  by_cases hq : q = 0
  · exact Or.inr hq
  · rw [if_neg hq]
    unfold canonical
    split
    · exact Or.inl (Int.le_add_one le_rfl)
    · exact Or.inl le_rfl

/-- What is as great as a power of two beyond all doubles is rounded to no double. -/
theorem lt_exponent_nearest {q : ℚ} (h : (2 : ℚ) ^ (1024 : ℤ) ≤ q) :
    971 < (nearest q).exponent := by
  have hq : 0 < q := lt_of_lt_of_le (by positivity) h
  have hlog : (1024 : ℤ) ≤ Int.log 2 q := by
    rw [← Int.zpow_le_iff_le_log one_lt_two hq, Nat.cast_ofNat]
    exact h
  have hle := (exponentFor_le_nearest q).resolve_right hq.ne'
  unfold exponentFor at hle
  omega

/-- What is less than half the least double is rounded to zero. -/
theorem nearest_of_lt {q : ℚ} (hq : 0 ≤ q) (h : q < (2 : ℚ) ^ (-1075 : ℤ)) : nearest q = zero := by
  unfold nearest
  rcases eq_or_lt_of_le hq with hzero | hpos
  · rw [if_pos hzero.symm]
  · have hlog : Int.log 2 q < -1075 := by
      rw [← Int.lt_zpow_iff_log_lt one_lt_two hpos]
      exact_mod_cast h
    have hexponent : exponentFor q = leastExponent := by
      unfold exponentFor leastExponent
      omega
    have hhalf : q * 2 ^ (-leastExponent) < 1 / 2 := by
      calc q * 2 ^ (-leastExponent) < 2 ^ (-1075 : ℤ) * 2 ^ (-leastExponent) :=
            mul_lt_mul_of_pos_right h (by positivity)
        _ = 1 / 2 := by
          rw [leastExponent, ← zpow_add₀ two_ne_zero]
          norm_num
    have hscaled : (0 : ℚ) ≤ q * 2 ^ (-leastExponent) := by positivity
    -- less than a half is nearest to nothing
    have hnone : halfEven (q * 2 ^ (-leastExponent)) = 0 := by
      apply (isHalfEven_halfEven hscaled).unique
      constructor
      · push_cast
        linarith
      · push_cast
        linarith
      · intro hodd
        exact absurd hodd (by decide)
    rw [if_neg hpos.ne', hexponent, hnone]
    rfl

/-- The value of decimal digits. -/
def decimalValue (c : ℕ) (e : ℤ) : ℚ := c * 10 ^ e

theorem decimalValue_nonneg (c : ℕ) (e : ℤ) : 0 ≤ decimalValue c e := by
  unfold decimalValue
  positivity

/-- Zeros behind the digits count as powers of ten. -/
theorem decimalValue_shift (c k : ℕ) (e : ℤ) :
    decimalValue (c * 10 ^ k) e = decimalValue c (e + k) := by
  unfold decimalValue
  push_cast
  rw [zpow_add₀ (by norm_num), zpow_natCast]
  ring

theorem ofQuotient_pow_ten (c : ℕ) (e : ℤ) :
    ofQuotient (c * 10 ^ e.toNat) (10 ^ (-e).toNat) = nearest (decimalValue c e) := by
  rw [ofQuotient_eq_nearest _ (by positivity)]
  congr 1
  have hpow := pow_toNat_div 10 e
  unfold decimalValue
  push_cast at hpow ⊢
  rw [mul_div_assoc, hpow]

/-- Powers of two beyond the greatest and below the least double, against powers of ten. -/
theorem pow_two_le_pow_ten :
    (2 : ℚ) ^ (1024 : ℤ) ≤ 10 ^ (311 : ℤ) ∧ (10 : ℚ) ^ (-330 : ℤ) ≤ 2 ^ (-1075 : ℤ) := by
  -- both rest on `2 ^ 93 < 10 ^ 28`
  have hstep : ((2 : ℚ) ^ 93) ^ 11 ≤ (10 ^ 28) ^ 11 :=
    pow_le_pow_left₀ (by positivity) (by norm_num) 11
  constructor
  · calc (2 : ℚ) ^ (1024 : ℤ) = (2 ^ 93) ^ 11 * 2 := by rw [zpow_ofNat, ← pow_mul, ← pow_succ]
      _ ≤ (10 ^ 28) ^ 11 * 10 ^ 3 := mul_le_mul hstep (by norm_num) (by norm_num) (by positivity)
      _ = 10 ^ (311 : ℤ) := by rw [zpow_ofNat, ← pow_mul, ← pow_add]
  · rw [zpow_neg, zpow_neg]
    apply inv_anti₀ (by positivity)
    calc (2 : ℚ) ^ (1075 : ℤ) = (2 ^ 93) ^ 11 * 2 ^ 52 := by
          rw [zpow_ofNat, ← pow_mul, ← pow_add]
      _ ≤ (10 ^ 28) ^ 11 * 10 ^ 22 := mul_le_mul hstep (by norm_num) (by positivity) (by positivity)
      _ = 10 ^ (330 : ℤ) := by rw [zpow_ofNat, ← pow_mul, ← pow_add]

theorem lt_pow_ten (c : ℕ) : c < 10 ^ (c.log2 / 3 + 1) := by
  calc c < 2 ^ (c.log2 + 1) := Nat.lt_log2_self
    _ ≤ 2 ^ (3 * (c.log2 / 3 + 1)) := Nat.pow_le_pow_right (by decide) (by omega)
    _ = 8 ^ (c.log2 / 3 + 1) := by rw [pow_mul]; norm_num
    _ ≤ 10 ^ (c.log2 / 3 + 1) := Nat.pow_le_pow_left (by decide) _

/-- **Digits are read as the double nearest to their value.**  Where this is a finite double, the
shortcuts for very great and very small exponents do not show. -/
theorem ofDecimal_eq_iff (h : m.Canonical) (c : ℕ) (e : ℤ) :
    ofDecimal c e = m ↔ nearest (decimalValue c e) = m := by
  unfold ofDecimal
  by_cases hc : c = 0
  · have hvalue : decimalValue c e = 0 := by
      unfold decimalValue
      rw [hc, Nat.cast_zero, zero_mul]
    rw [if_pos hc, hvalue, nearest, if_pos rfl]
  · have hpos : (1 : ℚ) ≤ c := by exact_mod_cast Nat.one_le_iff_ne_zero.2 hc
    rw [if_neg hc]
    by_cases hbig : 310 < e
    · -- too great for a finite double, on both sides
      have hge : (2 : ℚ) ^ (1024 : ℤ) ≤ decimalValue c e := by
        calc (2 : ℚ) ^ (1024 : ℤ) ≤ 10 ^ (311 : ℤ) := pow_two_le_pow_ten.1
          _ ≤ 10 ^ e := zpow_le_zpow_right₀ (by norm_num) (by omega)
          _ ≤ decimalValue c e := le_mul_of_one_le_left (by positivity) hpos
      have hexponent := lt_exponent_nearest hge
      have hle := h.exponent_le
      rw [if_pos hbig]
      constructor
      · intro heq
        rw [← heq] at hle
        exact absurd hle (by decide)
      · intro heq
        rw [heq] at hexponent
        omega
    · rw [if_neg hbig]
      by_cases hsmall : e + ((c.log2 / 3 : ℕ) : ℤ) + 1 < -330
      · have hlt : decimalValue c e < (2 : ℚ) ^ (-1075 : ℤ) := by
          have hdigits : (c : ℚ) < 10 ^ ((c.log2 / 3 : ℕ) + 1 : ℤ) := by
            exact_mod_cast lt_pow_ten c
          calc decimalValue c e < 10 ^ ((c.log2 / 3 : ℕ) + 1 : ℤ) * 10 ^ e :=
                mul_lt_mul_of_pos_right hdigits (by positivity)
            _ = 10 ^ (e + ((c.log2 / 3 : ℕ) : ℤ) + 1) := by
              rw [← zpow_add₀ (by norm_num)]
              congr 1
              ring
            _ ≤ 10 ^ (-330 : ℤ) := zpow_le_zpow_right₀ (by norm_num) (by omega)
            _ ≤ 2 ^ (-1075 : ℤ) := pow_two_le_pow_ten.2
        rw [if_pos hsmall, nearest_of_lt (decimalValue_nonneg c e) hlt]
      · rw [if_neg hsmall, ofQuotient_pow_ten]

end Magnitude

end ShapeEstimator.Binary64
