/-
  ShapeEstimator.Proofs.Binary64.Roundoff
  ────────────────────────────────
  **HOW FAR A ROUNDED NUMBER IS OFF.**

  Each operation on magnitudes is the exact one, rounded once, and one rounding changes
  a number by a part in `2 ^ 53`:

      x ⊕ y  =  nearest (x + y)         nearest q  ≈  q · (1 ± 2⁻⁵³)

  Roundings are counted: `n` of them in a row change a number by a factor of at most
  `(1 + 2⁻⁵³) ^ n` one way or the other.  A number with 53 bits is not changed.
-/
import Mathlib.Tactic.IntervalCases
import ShapeEstimator.Proofs.Binary64.Rounding

namespace ShapeEstimator.Binary64

/-! ## §1. The bits of a magnitude. -/

/-- The bits that a double is made from are its bits, unless their exponent field is all ones. -/
theorem toBits_ofBits {bits : UInt64} (h : exponentField bits ≠ 2047) :
    (Float.ofBits bits).toBits = bits := by
  have hne : @Float.Model.UnpackedFloat.unpackExponent .binary64 bits.toBitVec ≠ -1#_ :=
    (unpackExponent_eq_ones_iff bits).not.2 h
  show UInt64.ofBitVec (Float.Model.UnpackedFloat.pack .binary64
    (Float.Model.UnpackedFloat.unpack .binary64 bits.toBitVec)) = bits
  rw [pack_unpack hne]

namespace Magnitude

variable {m x y : Magnitude} {p q r : ℚ} {n a b : ℕ}

/-- The fields of the bits of a double with a sign and a magnitude. -/
theorem toBits_toFloat (h : m.Canonical) (negative : Bool) :
    ∃ magnitude < 2047 * 2 ^ 52,
      (m.toFloat negative).toBits.toNat = magnitude + (if negative then 2 ^ 63 else 0)
        ∧ (if m.significand < 2 ^ 52 then m.significand
          else (m.exponent + 1075).toNat * 2 ^ 52 + (m.significand - 2 ^ 52)) = magnitude := by
  have hbits := h.significand_lt
  have hleast : -1074 ≤ m.exponent := h.le_exponent
  have hgreatest := h.exponent_le
  refine ⟨_, ?_, ?_, rfl⟩
  · split <;> omega
  · unfold toFloat
    dsimp only
    rw [if_neg (show ¬ 2047 ≤ m.exponent + 1075 by omega)]
    generalize hfields : (if m.significand < 2 ^ 52 then m.significand
      else (m.exponent + 1075).toNat * 2 ^ 52 + (m.significand - 2 ^ 52)) = magnitude
    have hsmall : magnitude < 2047 * 2 ^ 52 := by
      rw [← hfields]
      split <;> omega
    have hword : magnitude + (if negative then 2 ^ 63 else 0) < 2 ^ 64 := by
      split <;> omega
    rw [toBits_ofBits, UInt64.toNat_ofNat_of_lt' hword]
    unfold exponentField
    rw [UInt64.toNat_ofNat_of_lt' hword]
    split <;> omega

theorem signBit_toFloat (h : m.Canonical) (negative : Bool) :
    signBit (m.toFloat negative) = negative := by
  obtain ⟨magnitude, hsmall, hbits, -⟩ := toBits_toFloat h negative
  unfold signBit
  rw [hbits]
  cases negative
  · exact decide_eq_false (by simp; omega)
  · exact decide_eq_true (by simp)

theorem magnitude?_toFloat (h : m.Canonical) (negative : Bool) :
    magnitude? (m.toFloat negative) = some m := by
  obtain ⟨magnitude, hsmall, hbits, hfields⟩ := toBits_toFloat h negative
  have hlow : (magnitude + if negative then 2 ^ 63 else 0) % 2 ^ 63 = magnitude := by
    split <;> omega
  have hshort := h.exponent_eq
  have hlong := h.significand_lt
  have hleast : -1074 ≤ m.exponent := h.le_exponent
  unfold magnitude?
  dsimp only
  rw [hbits, hlow, if_neg (by omega)]
  obtain ⟨significand, exponent⟩ := m
  dsimp only at *
  by_cases hsubnormal : significand < 2 ^ 52
  · rw [if_pos hsubnormal] at hfields
    rw [if_pos (by omega), hshort hsubnormal, ← hfields, Nat.mod_eq_of_lt hsubnormal]
  · rw [if_neg hsubnormal] at hfields
    have hsignificand : 2 ^ 52 + magnitude % 2 ^ 52 = significand := by omega
    have hexponent : ((magnitude / 2 ^ 52 : ℕ) : ℤ) - 1075 = exponent := by omega
    rw [if_neg (by omega), hsignificand, hexponent]

/-- Too great a magnitude is that of no finite double. -/
theorem magnitude?_toFloat_of_great (hlong : 2 ^ 52 ≤ m.significand) (hgreat : 971 < m.exponent)
    (negative : Bool) : magnitude? (m.toFloat negative) = none := by
  have hbits : m.toFloat negative
      = Float.ofBits (UInt64.ofNat (2047 * 2 ^ 52 + if negative then 2 ^ 63 else 0)) := by
    unfold toFloat
    dsimp only
    rw [if_neg (not_lt.2 hlong), if_pos (by omega)]
  rw [hbits]
  cases negative <;> rfl

/-! ## §2. Operations. -/

theorem quotient_eq_value (m : Magnitude) : (m.numerator : ℚ) / m.denominator = m.value := by
  have hpow := pow_toNat_div 2 m.exponent
  unfold numerator denominator value
  push_cast at hpow ⊢
  rw [mul_div_assoc, hpow]

theorem value_of_nonneg (n k : ℕ) : (Magnitude.mk n k).value = ((2 ^ k * n : ℕ) : ℚ) := by
  unfold value
  rw [zpow_natCast, mul_comm]
  push_cast
  rfl

theorem value_of_neg (n k : ℕ) : (Magnitude.mk n (-k)).value = n / 2 ^ k := by
  unfold value
  rw [zpow_neg, zpow_natCast, ← div_eq_mul_inv]

/-- **The value of a double** is that of its magnitude, with its sign. -/
theorem value?_of_magnitude? {x : Float} (hx : magnitude? x = some m) :
    value? x = some (if signBit x then -m.value else m.value) := by
  unfold value?
  rw [hx, Option.map_some, quotient_eq_value]

theorem value?_toFloat (h : m.Canonical) (negative : Bool) :
    value? (m.toFloat negative) = some (if negative then -m.value else m.value) := by
  rw [value?_of_magnitude? (magnitude?_toFloat h negative), signBit_toFloat h]

/-- The size of the value of a double is that of its magnitude. -/
theorem abs_value?_of_magnitude? {x : Float} (hx : magnitude? x = some m) (h : value? x = some q) :
    |q| = m.value := by
  have hnonneg : (0 : ℚ) ≤ m.value := value_nonneg m
  rw [value?_of_magnitude? hx] at h
  cases h
  split
  · rw [abs_neg, abs_of_nonneg hnonneg]
  · exact abs_of_nonneg hnonneg

theorem ofNat_eq_nearest (n : ℕ) : ofNat n = nearest n := by
  unfold ofNat
  rw [ofQuotient_eq_nearest n one_pos, Nat.cast_one, div_one]

theorem add_eq_nearest (x y : Magnitude) : x.add y = nearest (x.value + y.value) := by
  have hx : (x.denominator : ℚ) ≠ 0 := by exact_mod_cast x.denominator_pos.ne'
  have hy : (y.denominator : ℚ) ≠ 0 := by exact_mod_cast y.denominator_pos.ne'
  unfold add
  rw [ofQuotient_eq_nearest _ (Nat.mul_pos x.denominator_pos y.denominator_pos),
    ← quotient_eq_value, ← quotient_eq_value, div_add_div _ _ hx hy]
  congr 1
  push_cast
  ring

theorem mul_eq_nearest (x y : Magnitude) : x.mul y = nearest (x.value * y.value) := by
  unfold mul
  rw [ofQuotient_eq_nearest _ (Nat.mul_pos x.denominator_pos y.denominator_pos),
    ← quotient_eq_value, ← quotient_eq_value, div_mul_div_comm]
  push_cast
  rfl

theorem div_eq_nearest (x : Magnitude) (hy : 0 < y.value) :
    x.div y = nearest (x.value / y.value) := by
  have hnumerator : 0 < y.numerator := by
    rw [← quotient_eq_value] at hy
    rcases Nat.eq_zero_or_pos y.numerator with hzero | hpos
    · rw [hzero, Nat.cast_zero, zero_div] at hy
      exact absurd hy (lt_irrefl 0)
    · exact hpos
  unfold div
  rw [ofQuotient_eq_nearest _ (Nat.mul_pos x.denominator_pos hnumerator),
    ← quotient_eq_value, ← quotient_eq_value, div_div_div_eq]
  push_cast
  rfl

theorem abs_nearestUp_sub_le (a : ℕ) (hb : 0 < b) : |(nearestUp a b : ℚ) - a / b| ≤ 1 / 2 := by
  have hbq : (0 : ℚ) < b := by exact_mod_cast hb
  have hdivision : (a : ℚ) / b = (a / b : ℕ) + (a % b : ℕ) / (b : ℚ) := by
    have hparts : (a : ℚ) = b * (a / b : ℕ) + (a % b : ℕ) := by
      exact_mod_cast (Nat.div_add_mod a b).symm
    rw [div_eq_iff hbq.ne', add_mul, div_mul_cancel₀ _ hbq.ne', mul_comm _ (b : ℚ)]
    exact hparts
  have hrest : ((a % b : ℕ) : ℚ) < b := by exact_mod_cast Nat.mod_lt a hb
  have hnonneg : (0 : ℚ) ≤ (a % b : ℕ) / (b : ℚ) := by positivity
  rw [hdivision, abs_le]
  unfold nearestUp
  split
  · rename_i h
    have hhalf : (1 : ℚ) / 2 ≤ (a % b : ℕ) / b := by
      rw [div_le_div_iff₀ two_pos hbq, one_mul]
      exact_mod_cast (by omega : b ≤ a % b * 2)
    have hone : ((a % b : ℕ) : ℚ) / b ≤ 1 := (div_le_one hbq).2 hrest.le
    push_cast
    constructor <;> linarith
  · rename_i h
    have hhalf : ((a % b : ℕ) : ℚ) / b ≤ 1 / 2 := by
      rw [div_le_div_iff₀ hbq two_pos, one_mul]
      exact_mod_cast (by omega : a % b * 2 ≤ b)
    constructor <;> linarith

/-- Integers that are less than one apart are the same. -/
theorem eq_of_abs_sub_lt_one (h : |(a : ℚ) - b| < 1) : a = b := by
  have hint : |(a : ℤ) - b| < 1 := by exact_mod_cast h
  have hzero := Int.abs_lt_one_iff.1 hint
  omega

theorem abs_roundToNat_sub_le (x : Magnitude) : |(x.roundToNat : ℚ) - x.value| ≤ 1 / 2 := by
  rw [← quotient_eq_value]
  exact abs_nearestUp_sub_le x.numerator x.denominator_pos

theorem canonical_zero : zero.Canonical := ⟨by decide, fun _ => rfl, le_rfl, by decide⟩

/-- A quotient is the magnitude of a double, or it is too great. -/
theorem canonical_or_great (a b : ℕ) : (ofQuotient a b).Canonical
    ∨ (2 ^ 52 ≤ (ofQuotient a b).significand ∧ 971 < (ofQuotient a b).exponent) := by
  rcases Nat.eq_zero_or_pos b with rfl | hb
  · have hzero : ofQuotient a 0 = zero := if_pos (Or.inr rfl)
    rw [hzero]
    exact Or.inl canonical_zero
  · rw [ofQuotient_eq_nearest a hb]
    have hq : (0 : ℚ) ≤ (a : ℚ) / b := by positivity
    rcases le_or_gt (nearest ((a : ℚ) / b)).exponent 971 with hle | hgt
    · exact Or.inl (canonical_nearest hq hle)
    · exact Or.inr ⟨le_significand_nearest hgt hq, hgt⟩

/-- A quotient that is not too big is the magnitude of a double. -/
theorem canonical_ofQuotient (h : (ofQuotient a b).Below 1024) : (ofQuotient a b).Canonical := by
  have hexponent := h.exponent_le
  exact (canonical_or_great a b).resolve_right fun hgreat => by omega

/-- A finite double that is read from digits has the magnitude that was read. -/
theorem ofDecimal_of_magnitude? {negative : Bool} {c : ℕ} {e : ℤ}
    (h : magnitude? (Binary64.ofDecimal negative c e) = some m) : ofDecimal c e = m := by
  have hform : (ofDecimal c e).Canonical
      ∨ (2 ^ 52 ≤ (ofDecimal c e).significand ∧ 971 < (ofDecimal c e).exponent) := by
    -- far too great and far too small decimals are not computed
    unfold ofDecimal
    split
    · exact Or.inl canonical_zero
    · split
      · exact Or.inr ⟨by decide, by decide⟩
      · split
        · exact Or.inl canonical_zero
        · exact canonical_or_great _ _
  unfold Binary64.ofDecimal at h
  rcases hform with hcanonical | ⟨hlong, hgreat⟩
  · rw [magnitude?_toFloat hcanonical] at h
    exact Option.some.inj h
  · rw [magnitude?_toFloat_of_great hlong hgreat] at h
    cases h

/-! ## §3. Numbers with 53 bits. -/

/-- A number of 53 bits, above the least double. -/
def Representable (q : ℚ) : Prop :=
  ∃ (n : ℕ) (e : ℤ), n < 2 ^ 53 ∧ leastExponent ≤ e ∧ q = n * 2 ^ e

theorem representable_natCast (h : n < 2 ^ 53) : Representable n :=
  ⟨n, 0, h, by decide, by rw [zpow_zero, mul_one]⟩

theorem Canonical.representable (h : m.Canonical) : Representable m.value :=
  ⟨m.significand, m.exponent, h.significand_lt, h.le_exponent, rfl⟩

/-- The part of a number behind the point has no more bits than the number. -/
theorem Representable.sub_natCast (h : Representable q) (hwhole : (n : ℚ) ≤ q) (hlt : q < n + 1) :
    Representable (q - n) := by
  obtain ⟨k, e, hbits, hleast, rfl⟩ := h
  rcases le_or_gt 0 e with hsign | hsign
  · -- an integer has nothing behind the point
    obtain ⟨d, rfl⟩ := Int.eq_ofNat_of_zero_le hsign
    rw [zpow_natCast] at hwhole hlt ⊢
    have heq : k * 2 ^ d = n :=
      le_antisymm (Nat.lt_succ_iff.1 (by exact_mod_cast hlt)) (by exact_mod_cast hwhole)
    refine ⟨0, 0, by norm_num, by decide, ?_⟩
    rw [← heq]
    push_cast
    ring
  · obtain ⟨d, rfl⟩ : ∃ d : ℕ, e = -(d : ℤ) := ⟨(-e).toNat, by omega⟩
    rw [zpow_neg, zpow_natCast, ← div_eq_mul_inv] at hwhole hlt ⊢
    have hle : n * 2 ^ d ≤ k := by
      rw [le_div_iff₀ (by positivity)] at hwhole
      exact_mod_cast hwhole
    refine ⟨k - n * 2 ^ d, -(d : ℤ), by omega, hleast, ?_⟩
    rw [zpow_neg, zpow_natCast, Nat.cast_sub hle]
    push_cast
    field_simp

/-- **A number with 53 bits is not changed by rounding.** -/
theorem Representable.value_nearest (h : Representable q) : (nearest q).value = q := by
  obtain ⟨n, e, hbits, hleast, rfl⟩ := h
  rcases Nat.eq_zero_or_pos n with rfl | hpos
  · rw [Nat.cast_zero, zero_mul, value_nearest_zero]
  · have hn : (0 : ℚ) < n := by exact_mod_cast hpos
    have hvalue : (0 : ℚ) < n * 2 ^ e := by positivity
    -- its last place is not behind the one of its double, so nothing is cut off
    have hexponent : exponentFor (n * 2 ^ e) ≤ e := by
      have hlog : ((n : ℚ) * 2 ^ e) < ((2 : ℕ) : ℚ) ^ (e + 53) := by
        have hlt : (n : ℚ) < 2 ^ (53 : ℤ) := by exact_mod_cast hbits
        calc (n : ℚ) * 2 ^ e < 2 ^ (53 : ℤ) * 2 ^ e := mul_lt_mul_of_pos_right hlt (by positivity)
          _ = ((2 : ℕ) : ℚ) ^ (e + 53) := by
            rw [← zpow_add₀ two_ne_zero, add_comm]
            norm_cast
      have := (Int.lt_zpow_iff_log_lt one_lt_two hvalue).1 hlog
      unfold exponentFor
      omega
    obtain ⟨d, hd⟩ : ∃ d : ℕ, e = exponentFor (n * 2 ^ e) + d :=
      ⟨(e - exponentFor (n * 2 ^ e)).toNat, by omega⟩
    have hscaled : (n : ℚ) * 2 ^ e * 2 ^ (-exponentFor (n * 2 ^ e)) = ((n * 2 ^ d : ℕ) : ℚ) := by
      rw [mul_assoc, ← zpow_add₀ two_ne_zero,
        show e + -exponentFor (n * 2 ^ e) = d by omega, zpow_natCast]
      push_cast
      rfl
    rw [Magnitude.value_nearest, hscaled, halfEven_natCast, ← hscaled, mul_assoc,
      ← zpow_add₀ two_ne_zero, neg_add_cancel, zpow_zero, mul_one]

/-! ## §4. One rounding. -/

theorem abs_halfEven_sub_le (hq : 0 ≤ q) : |(halfEven q : ℚ) - q| ≤ 1 / 2 := by
  have hround := isHalfEven_halfEven hq
  exact abs_le.2 ⟨by linarith [hround.upper], by linarith [hround.lower]⟩

theorem scaled_back (q : ℚ) (e : ℤ) : q * 2 ^ (-e) * 2 ^ e = q := by
  rw [mul_assoc, ← zpow_add₀ two_ne_zero, neg_add_cancel, zpow_zero, mul_one]

/-- A rounded number is off by half a unit of its last place at most. -/
theorem abs_value_nearest_sub_le (hq : 0 ≤ q) :
    |(nearest q).value - q| ≤ 2 ^ (nearest q).exponent / 2 := by
  rcases eq_or_lt_of_le hq with rfl | hpos
  · rw [value_nearest_zero, sub_zero, abs_zero]
    positivity
  · have hunit : (0 : ℚ) < 2 ^ exponentFor q := by positivity
    have hlast : (2 : ℚ) ^ exponentFor q ≤ 2 ^ (nearest q).exponent :=
      zpow_le_zpow_right₀ one_le_two ((exponentFor_le_nearest q).resolve_right hpos.ne')
    have hoff := abs_halfEven_sub_le (q := q * 2 ^ (-exponentFor q)) (by positivity)
    have hdifference : (nearest q).value - q
        = (halfEven (q * 2 ^ (-exponentFor q)) - q * 2 ^ (-exponentFor q)) * 2 ^ exponentFor q := by
      rw [value_nearest, sub_mul, scaled_back]
    rw [hdifference, abs_mul, abs_of_pos hunit]
    calc |(halfEven (q * 2 ^ (-exponentFor q)) : ℚ) - q * 2 ^ (-exponentFor q)| * 2 ^ exponentFor q
        ≤ 1 / 2 * 2 ^ exponentFor q := mul_le_mul_of_nonneg_right hoff hunit.le
      _ ≤ 2 ^ (nearest q).exponent / 2 := by linarith

end Magnitude

/-- What one rounding changes, as a part of the number. -/
def roundoff : ℚ := 1 / 2 ^ 53

/-- Two positive numbers that are at most `n` roundings apart. -/
structure Within (n : ℕ) (p q : ℚ) : Prop where
  /-- The number is positive. -/
  pos : 0 < p
  /-- It is not much greater than the other one. -/
  le : p ≤ q * (1 + roundoff) ^ n
  /-- It is not much less. -/
  ge : q ≤ p * (1 + roundoff) ^ n

/-- In units of its last place a number with 53 bits is so great that half a unit is little of it. -/
theorem within_of_units {rounded scaled unit : ℚ} (hunit : 0 < unit) (hrounded : 2 ^ 52 ≤ rounded)
    (hscaled : 2 ^ 52 ≤ scaled) (hoff : |rounded - scaled| ≤ 1 / 2) :
    Within 1 (rounded * unit) (scaled * unit) := by
  obtain ⟨hlower, hupper⟩ := abs_le.1 hoff
  refine ⟨mul_pos (by linarith) hunit, ?_, ?_⟩
  · have hle : rounded ≤ scaled * (1 + roundoff) := by
      unfold roundoff
      linarith
    rw [pow_one, mul_right_comm]
    exact mul_le_mul_of_nonneg_right hle hunit.le
  · have hle : scaled ≤ rounded * (1 + roundoff) := by
      unfold roundoff
      linarith
    rw [pow_one, mul_right_comm]
    exact mul_le_mul_of_nonneg_right hle hunit.le

/-- **One rounding**, of a number that is not too small. -/
theorem within_nearest {q : ℚ} (h : (2 : ℚ) ^ (-1021 : ℤ) ≤ q) :
    Within 1 (Magnitude.nearest q).value q := by
  have hq : 0 < q := lt_of_lt_of_le (by positivity) h
  have hlog : (-1021 : ℤ) ≤ Int.log 2 q := by
    rw [← Int.zpow_le_iff_le_log one_lt_two hq]
    exact_mod_cast h
  have hnormal : leastExponent < Magnitude.exponentFor q := by
    unfold Magnitude.exponentFor leastExponent
    omega
  have hrounded : (2 : ℚ) ^ 52 ≤ halfEven (q * 2 ^ (-Magnitude.exponentFor q)) := by
    exact_mod_cast Magnitude.le_halfEven_scaled hq hnormal
  have hscaled : (2 : ℚ) ^ 52 ≤ q * 2 ^ (-Magnitude.exponentFor q) := by
    exact_mod_cast Magnitude.two_pow_le_scaled hq hnormal
  have hunit : (0 : ℚ) < 2 ^ Magnitude.exponentFor q := by positivity
  have hunits := within_of_units hunit hrounded hscaled
    (Magnitude.abs_halfEven_sub_le (by positivity))
  rwa [← Magnitude.value_nearest, Magnitude.scaled_back] at hunits

/-- A number that is not less than one is not too small. -/
theorem within_nearest_of_one_le {q : ℚ} (h : 1 ≤ q) : Within 1 (Magnitude.nearest q).value q :=
  within_nearest ((zpow_le_one_of_nonpos₀ one_le_two (by norm_num)).trans h)

/-! ## §5. Roundings in a row. -/

namespace Within

variable {a b n : ℕ} {p q r s w : ℚ}

theorem one_le_pow (n : ℕ) : (1 : ℚ) ≤ (1 + roundoff) ^ n :=
  one_le_pow₀ (le_add_of_nonneg_right (by unfold roundoff; positivity))

theorem right_pos (h : Within n p q) : 0 < q :=
  pos_of_mul_pos_left (h.pos.trans_le h.le) (zero_le_one.trans (one_le_pow n))

theorem refl (n : ℕ) (hq : 0 < q) : Within n q q :=
  ⟨hq, le_mul_of_one_le_right hq.le (one_le_pow n), le_mul_of_one_le_right hq.le (one_le_pow n)⟩

theorem trans (h₁ : Within a p q) (h₂ : Within b q r) : Within (a + b) p r where
  pos := h₁.pos
  le :=
    calc p ≤ q * (1 + roundoff) ^ a := h₁.le
      _ ≤ r * (1 + roundoff) ^ b * (1 + roundoff) ^ a :=
        mul_le_mul_of_nonneg_right h₂.le (zero_le_one.trans (one_le_pow a))
      _ = r * (1 + roundoff) ^ (a + b) := by ring
  ge :=
    calc r ≤ q * (1 + roundoff) ^ b := h₂.ge
      _ ≤ p * (1 + roundoff) ^ a * (1 + roundoff) ^ b :=
        mul_le_mul_of_nonneg_right h₁.ge (zero_le_one.trans (one_le_pow b))
      _ = p * (1 + roundoff) ^ (a + b) := by ring

theorem mul (h₁ : Within a p q) (h₂ : Within b r s) : Within (a + b) (p * r) (q * s) where
  pos := mul_pos h₁.pos h₂.pos
  le :=
    calc p * r ≤ q * (1 + roundoff) ^ a * (s * (1 + roundoff) ^ b) :=
          mul_le_mul h₁.le h₂.le h₂.pos.le (h₁.pos.le.trans h₁.le)
      _ = q * s * (1 + roundoff) ^ (a + b) := by ring
  ge :=
    calc q * s ≤ p * (1 + roundoff) ^ a * (r * (1 + roundoff) ^ b) :=
          mul_le_mul h₁.ge h₂.ge h₂.right_pos.le (h₁.right_pos.le.trans h₁.ge)
      _ = p * r * (1 + roundoff) ^ (a + b) := by ring

theorem inv (h : Within n p q) : Within n p⁻¹ q⁻¹ where
  pos := inv_pos.2 h.pos
  le := by
    rw [inv_le_iff_one_le_mul₀ h.pos, mul_assoc, mul_comm _ p, ← div_eq_inv_mul,
      one_le_div h.right_pos]
    exact h.ge
  ge := by
    rw [inv_le_iff_one_le_mul₀ h.right_pos, mul_assoc, mul_comm _ q, ← div_eq_inv_mul,
      one_le_div h.pos]
    exact h.le

theorem div (h₁ : Within a p q) (h₂ : Within b r s) : Within (a + b) (p / r) (q / s) := by
  rw [div_eq_mul_inv, div_eq_mul_inv]
  exact h₁.mul h₂.inv

/-- An exact summand takes its share of the error away. -/
theorem add_left (hw : 0 ≤ w) (h : Within n p q) : Within n (w + p) (w + q) := by
  have hexact : w ≤ w * (1 + roundoff) ^ n := le_mul_of_one_le_right hw (one_le_pow n)
  refine ⟨add_pos_of_nonneg_of_pos hw h.pos, ?_, ?_⟩
  · rw [add_mul]
    exact add_le_add hexact h.le
  · rw [add_mul]
    exact add_le_add hexact h.ge

theorem pow_le (hn : n ≤ 5) : (1 + roundoff) ^ n ≤ 1 + (n + 1) * roundoff := by
  unfold roundoff
  interval_cases n <;> norm_num

/-- A few roundings, as a relative error. -/
theorem abs_sub_le (h : Within n p q) (hn : n ≤ 5) : |p - q| ≤ (n + 1) * roundoff * q := by
  have hpow := pow_le hn
  have hnonneg : (0 : ℚ) ≤ (n + 1) * roundoff := by
    unfold roundoff
    positivity
  have hupper : p ≤ q + (n + 1) * roundoff * q := by
    calc p ≤ q * (1 + roundoff) ^ n := h.le
      _ ≤ q * (1 + (n + 1) * roundoff) := mul_le_mul_of_nonneg_left hpow h.right_pos.le
      _ = q + (n + 1) * roundoff * q := by ring
  have hlower : q ≤ p + (n + 1) * roundoff * p := by
    calc q ≤ p * (1 + roundoff) ^ n := h.ge
      _ ≤ p * (1 + (n + 1) * roundoff) := mul_le_mul_of_nonneg_left hpow h.pos.le
      _ = p + (n + 1) * roundoff * p := by ring
  rw [abs_le]
  refine ⟨?_, by linarith⟩
  rcases le_or_gt p q with hle | hlt
  · have hpart := mul_le_mul_of_nonneg_left hle hnonneg
    linarith
  · have hpart := mul_nonneg hnonneg h.right_pos.le
    linarith

/-- One rounding more. -/
theorem round (h : Within n p q) (hn : n ≤ 5) (hq : (2 : ℚ) ^ (-1020 : ℤ) ≤ q) :
    Within (n + 1) (Magnitude.nearest p).value q := by
  -- the number that is rounded has not become too small before
  have hfactor : (1 + roundoff) ^ n ≤ 2 :=
    (pow_le hn).trans (by unfold roundoff; interval_cases n <;> norm_num)
  have hhalf : q ≤ p * 2 := h.ge.trans (mul_le_mul_of_nonneg_left hfactor h.pos.le)
  have hp : (2 : ℚ) ^ (-1021 : ℤ) ≤ p := by
    have hsplit : (2 : ℚ) ^ (-1020 : ℤ) = 2 ^ (-1021 : ℤ) * 2 := by
      rw [← zpow_add_one₀ two_ne_zero]
      norm_num
    rw [hsplit] at hq
    linarith
  rw [add_comm]
  exact (within_nearest hp).trans h

end Within

end ShapeEstimator.Binary64
