/-
  ShapeEstimator.Proofs.Binary64.Finite
  ────────────────────────────────
  **FINITE DOUBLES.**

  A double is finite unless its exponent field is all ones.  What is not finite
  stays so in sums, differences and products.  A magnitude below a power of two
  stays below a power of two not much greater through an operation, and a magnitude
  that is not too big is that of a finite double:

      x < 2^k  and  y < 2^l   →   x * y < 2^(k + l + 2)
-/
import ShapeEstimator.Binary64.Magnitude
import Mathlib.Data.Rat.Cast.Order
import Mathlib.Tactic.Linarith
import Mathlib.Tactic.NormNum
import Mathlib.Tactic.Positivity
import Mathlib.Tactic.Ring

namespace ShapeEstimator.Binary64

open Float.Model (Format UnpackedFloat)
open Float.Model.UnpackedFloat

/-! ## §1. The exponent field. -/

/-- The exponent field of the bits of a double. -/
def exponentField (bits : UInt64) : ℕ := bits.toNat % 2 ^ 63 / 2 ^ 52

theorem unpackExponent_toNat (bits : UInt64) :
    (@unpackExponent .binary64 bits.toBitVec).toNat = exponentField bits := by
  simp [unpackExponent, exponentField]
  omega

theorem unpackExponent_eq_ones_iff (bits : UInt64) :
    @unpackExponent .binary64 bits.toBitVec = -1#_ ↔ exponentField bits = 2047 := by
  rw [← BitVec.toNat_inj, unpackExponent_toNat]
  rfl

theorem isFinite_unpack_iff (b : BitVec Format.binary64.numBits) :
    (unpack .binary64 b).isFinite = true ↔ unpackExponent b ≠ -1#_ := by
  unfold unpack
  dsimp only
  by_cases hones : unpackExponent b = -1#_
  · rw [if_pos hones]
    refine iff_of_false ?_ (not_not.2 hones)
    by_cases hfraction : unpackMantissa b = 0#_
    · rw [if_pos hfraction]
      exact Bool.false_ne_true
    · rw [if_neg hfraction]
      exact Bool.false_ne_true
  · rw [if_neg hones]
    refine iff_of_true ?_ hones
    by_cases hzero : unpackExponent b = 0#_
    · rw [if_pos hzero]
      by_cases hfraction : unpackMantissa b = 0#_
      · rw [dif_pos hfraction]
        rfl
      · rw [dif_neg hfraction]
        rfl
    · rw [if_neg hzero]
      rfl

/-- A double is finite unless its exponent field is all ones. -/
theorem isFinite_iff (x : Float) : x.isFinite = true ↔ exponentField x.toBits ≠ 2047 := by
  rw [Ne, ← unpackExponent_eq_ones_iff]
  exact isFinite_unpack_iff x.toBits.toBitVec

theorem packComponents_unpack (b : BitVec Format.binary64.numBits) :
    packComponents .binary64 (Sign.ofBitVec (unpackSign b)) (unpackExponent b) (unpackMantissa b)
      = b := by
  have hsign : (Sign.ofBitVec (unpackSign b)).toBitVec = unpackSign b := by
    generalize unpackSign b = s
    revert s
    decide
  unfold packComponents
  rw [hsign]
  apply BitVec.eq_of_getLsbD_eq
  intro i hi
  have hwidth : i < 64 := hi
  unfold unpackSign unpackExponent unpackMantissa
  simp only [BitVec.getLsbD_append, BitVec.getLsbD_cast, BitVec.getLsbD_extractLsb]
  -- the bit stands in the fraction, in the exponent or in the sign
  by_cases hfraction : i < 52
  · simp [hfraction]
  · by_cases hexponent : i - 52 < 11
    · have hplace : 52 + (i - 52) = i := by omega
      simp [hfraction, hexponent, hplace]
    · have hlast : i = 63 := by omega
      subst hlast
      simp
      exact BitVec.getLsbD_eq_getElem hi

/-- Packing what was unpacked gives the bits back, unless the exponent field is all ones. -/
theorem pack_unpack {b : BitVec Format.binary64.numBits} (h : unpackExponent b ≠ -1#_) :
    UnpackedFloat.pack .binary64 (unpack .binary64 b) = b := by
  have hbias : Format.binary64.exponentBias = 1023 := rfl
  have hmantissa : Format.binary64.mantissaBits = 53 := rfl
  have hfraction : (unpackMantissa b).toNat < 2 ^ 52 := (unpackMantissa b).isLt
  have hexponent : (unpackExponent b).toNat < 2 ^ 11 := (unpackExponent b).isLt
  have hones : (unpackExponent b).toNat ≠ 2 ^ 11 - 1 := fun heq =>
    h (BitVec.toNat_inj.1 (by simpa using heq))
  have hparts := packComponents_unpack b
  have hmantissaBack : BitVec.ofNat Format.binary64.mantissaBitsWithoutImplicit
      (unpackMantissa b).toNat = unpackMantissa b := by
    rw [BitVec.ofNat_toNat, BitVec.setWidth_eq]
  unfold unpack
  dsimp only
  rw [if_neg h]
  by_cases hzero : unpackExponent b = 0#_
  · rw [if_pos hzero]
    rw [hzero] at hparts
    by_cases hnil : unpackMantissa b = 0#_
    · rw [dif_pos hnil]
      rw [hnil] at hparts
      exact hparts
    · -- a subnormal number: its exponent is the least one, and its significand is too short
      have hlog : (unpackMantissa b).toNat.log2 < 52 := by
        have hne : (unpackMantissa b).toNat ≠ 0 := fun heq => hnil (BitVec.toNat_inj.1 heq)
        exact (Nat.log2_lt hne).2 hfraction
      rw [dif_neg hnil]
      unfold UnpackedFloat.pack
      dsimp only
      rw [if_neg (by rw [hzero, hbias]; decide), if_neg (by omega), hmantissaBack]
      exact hparts
  · -- a normal number: the leading bit makes the significand long enough
    have hleading : (1#1 ++ unpackMantissa b).toNat = 2 ^ 52 + (unpackMantissa b).toNat := by
      rw [BitVec.toNat_append, Nat.shiftLeft_eq]
      exact (Nat.two_pow_add_eq_or_of_lt hfraction 1).symm
    have hlong : (1#1 ++ unpackMantissa b).toNat.log2 = 52 := by
      have hne : (1#1 ++ unpackMantissa b).toNat ≠ 0 := by omega
      have hlow := (Nat.le_log2 hne).2 (show 2 ^ 52 ≤ _ by omega)
      have hhigh := (Nat.log2_lt hne).2 (show _ < 2 ^ 53 by omega)
      omega
    have hbiased : (((unpackExponent b).toNat : ℤ)
        - ((Format.binary64.exponentBias : ℕ) + (52 : ℕ)) + (Format.binary64.exponentBias : ℕ)
        + (52 : ℕ)).toNat = (unpackExponent b).toNat := by
      omega
    have hcleared : BitVec.ofNat Format.binary64.mantissaBitsWithoutImplicit
        (1#1 ++ unpackMantissa b).toNat = unpackMantissa b := by
      rw [hleading]
      apply BitVec.toNat_inj.1
      rw [BitVec.toNat_ofNat]
      show (2 ^ 52 + _) % 2 ^ 52 = _
      omega
    rw [if_neg hzero]
    unfold UnpackedFloat.pack
    dsimp only
    rw [hbiased, if_neg (by omega), if_pos (by omega), hcleared, BitVec.ofNat_toNat,
      BitVec.setWidth_eq]
    exact hparts

/-- The double of given bits is finite unless their exponent field is all ones. -/
theorem isFinite_ofBits {bits : UInt64} (h : exponentField bits ≠ 2047) :
    (Float.ofBits bits).isFinite = true := by
  have hne : @unpackExponent .binary64 bits.toBitVec ≠ -1#_ :=
    (unpackExponent_eq_ones_iff bits).not.2 h
  apply (isFinite_unpack_iff _).2
  show unpackExponent (UnpackedFloat.pack .binary64 (unpack .binary64 bits.toBitVec)) ≠ -1#_
  rw [pack_unpack hne]
  exact hne

/-- Reading the bits of a finite double gives the double back. -/
theorem ofBits_toBits {x : Float} (h : x.isFinite = true) : Float.ofBits x.toBits = x := by
  have hne : @unpackExponent .binary64 x.toBits.toBitVec ≠ -1#_ :=
    (unpackExponent_eq_ones_iff _).not.2 ((isFinite_iff x).1 h)
  have hbits : UInt64.ofBitVec (UnpackedFloat.pack .binary64 (unpack .binary64 x.toBits.toBitVec))
      = x.toBits := by
    rw [pack_unpack hne]
  -- a double is its bits
  obtain ⟨⟨bits, hvalid⟩⟩ := x
  show Float.ofModel ⟨UInt64.ofBitVec _, _⟩ = Float.ofModel ⟨bits, hvalid⟩
  congr 2

/-- A finite double has a magnitude. -/
theorem exists_magnitude? {x : Float} (h : x.isFinite = true) : ∃ m, magnitude? x = some m := by
  have hfield : x.toBits.toNat % 2 ^ 63 / 2 ^ 52 ≠ 2047 := (isFinite_iff x).1 h
  unfold magnitude?
  dsimp only
  rw [if_neg hfield]
  split
  · exact ⟨_, rfl⟩
  · exact ⟨_, rfl⟩

/-! ## §2. Operations with a finite result. -/

/-- A number that is not finite is packed as one. -/
theorem isFinite_of_pack {u : UnpackedFloat}
    (h : (unpack .binary64 (UnpackedFloat.pack .binary64 u)).isFinite = true) :
    u.isFinite = true := by
  cases u with
  | notANumber => exact absurd h (by decide)
  | infinity s => cases s <;> exact absurd h (by decide)
  | zero s => rfl
  | finite s m e hm => rfl

section Operations

variable {u v : UnpackedFloat} {x y : Float}

theorem isFinite_of_unpacked_add (h : (UnpackedFloat.add .binary64 u v).isFinite = true) :
    u.isFinite = true ∧ v.isFinite = true := by
  cases u with
  | notANumber => exact nomatch h
  | infinity s =>
    cases v with
    | infinity t => cases s <;> cases t <;> exact nomatch h
    | _ => exact nomatch h
  | zero s | finite s m e hm =>
    cases v with
    | notANumber | infinity t => exact nomatch h
    | zero t | finite t n f hn => exact ⟨rfl, rfl⟩

theorem isFinite_of_unpacked_sub (h : (UnpackedFloat.sub .binary64 u v).isFinite = true) :
    u.isFinite = true ∧ v.isFinite = true := by
  cases u with
  | notANumber => exact nomatch h
  | infinity s =>
    cases v with
    | infinity t => cases s <;> cases t <;> exact nomatch h
    | _ => exact nomatch h
  | zero s | finite s m e hm =>
    cases v with
    | notANumber | infinity t => exact nomatch h
    | zero t | finite t n f hn => exact ⟨rfl, rfl⟩

theorem isFinite_of_unpacked_mul (h : (UnpackedFloat.mul .binary64 u v).isFinite = true) :
    u.isFinite = true ∧ v.isFinite = true := by
  cases u with
  | notANumber => exact nomatch h
  | infinity s => cases v <;> exact nomatch h
  | zero s | finite s m e hm =>
    cases v with
    | notANumber | infinity t => exact nomatch h
    | zero t | finite t n f hn => exact ⟨rfl, rfl⟩

/-- A finite sum has finite summands. -/
theorem isFinite_of_add (h : (x + y).isFinite = true) : x.isFinite = true ∧ y.isFinite = true :=
  isFinite_of_unpacked_add (isFinite_of_pack h)

/-- A finite difference is one of finite doubles. -/
theorem isFinite_of_sub (h : (x - y).isFinite = true) : x.isFinite = true ∧ y.isFinite = true :=
  isFinite_of_unpacked_sub (isFinite_of_pack h)

/-- A finite product has finite factors: zero times an infinity is not a number. -/
theorem isFinite_of_mul (h : (x * y).isFinite = true) : x.isFinite = true ∧ y.isFinite = true :=
  isFinite_of_unpacked_mul (isFinite_of_pack h)

end Operations

/-! ## §3. Sizes of magnitudes. -/

namespace Magnitude

/-- A magnitude of at most 53 bits that is less than `2 ^ k`. -/
structure Below (x : Magnitude) (k : ℕ) : Prop where
  /-- The significand has at most 53 bits. -/
  significand_lt : x.significand < 2 ^ 53
  /-- The exponent leaves room for them. -/
  exponent_le : x.exponent + 53 ≤ k

variable {x y : Magnitude} {k l a b : ℕ}

theorem Below.mono (h : x.Below k) (hkl : k ≤ l) : x.Below l :=
  ⟨h.significand_lt, h.exponent_le.trans (by exact_mod_cast hkl)⟩

theorem denominator_pos (x : Magnitude) : 0 < x.denominator := Nat.two_pow_pos _

theorem Below.numerator_le (h : x.Below k) : x.numerator ≤ x.denominator * 2 ^ k := by
  have hexponent := h.exponent_le
  unfold numerator denominator
  rcases le_or_gt 0 x.exponent with hsign | hsign
  · calc x.significand * 2 ^ x.exponent.toNat ≤ 2 ^ 53 * 2 ^ x.exponent.toNat :=
          Nat.mul_le_mul_right _ h.significand_lt.le
      _ = 2 ^ (53 + x.exponent.toNat) := (pow_add ..).symm
      _ ≤ 2 ^ k := Nat.pow_le_pow_right (by norm_num) (by omega)
      _ ≤ 2 ^ (-x.exponent).toNat * 2 ^ k := Nat.le_mul_of_pos_left _ (Nat.two_pow_pos _)
  · rw [show x.exponent.toNat = 0 by omega, pow_zero, mul_one, ← pow_add]
    exact h.significand_lt.le.trans (Nat.pow_le_pow_right (by norm_num) (by omega))

theorem floorLog2_le (ha : 0 < a) (h : a ≤ b * 2 ^ k) : floorLog2 a b ≤ k := by
  have hlog : a.log2 ≤ b.log2 + k := by
    have hlt : a < 2 ^ (b.log2 + 1 + k) := by
      rw [pow_add]
      exact h.trans_lt (Nat.mul_lt_mul_of_pos_right Nat.lt_log2_self (Nat.two_pow_pos k))
    have := (Nat.log2_lt ha.ne').2 hlt
    omega
  unfold floorLog2
  dsimp only
  split <;> omega

/-- A product with a power of two, without negative exponents. -/
theorem lt_mul_zpow_iff (a c : ℕ) (e : ℤ) :
    (a : ℚ) < c * (2 : ℚ) ^ e ↔ a * 2 ^ (-e).toNat < c * 2 ^ e.toNat := by
  rcases le_or_gt 0 e with hsign | hsign
  · obtain ⟨n, rfl⟩ := Int.eq_ofNat_of_zero_le hsign
    rw [zpow_natCast, Int.toNat_natCast, show (-(n : ℤ)).toNat = 0 by omega, pow_zero, mul_one]
    exact_mod_cast Iff.rfl
  · obtain ⟨n, rfl⟩ : ∃ n : ℕ, e = -(n : ℤ) := ⟨(-e).toNat, by omega⟩
    rw [zpow_neg, zpow_natCast, ← div_eq_mul_inv, lt_div_iff₀ (by positivity),
      show (-(-(n : ℤ))).toNat = n by omega, show (-(n : ℤ)).toNat = 0 by omega, pow_zero, mul_one]
    exact_mod_cast Iff.rfl

/-- The quotient is less than the next power of two. -/
theorem lt_floorLog2 (a : ℕ) (hb : 0 < b) :
    (a : ℚ) < b * (2 : ℚ) ^ (floorLog2 a b + 1) := by
  unfold floorLog2
  dsimp only
  split
  · have hlow : (2 : ℚ) ^ (b.log2 : ℤ) ≤ b := by exact_mod_cast Nat.log2_self_le hb.ne'
    have hhigh : (a : ℚ) < 2 ^ ((a.log2 : ℤ) + 1) := by exact_mod_cast Nat.lt_log2_self (n := a)
    calc (a : ℚ) < 2 ^ ((a.log2 : ℤ) + 1) := hhigh
      _ = 2 ^ (b.log2 : ℤ) * 2 ^ ((a.log2 : ℤ) - b.log2 + 1) := by
        rw [← zpow_add₀ two_ne_zero]
        congr 1
        ring
      _ ≤ b * 2 ^ ((a.log2 : ℤ) - b.log2 + 1) :=
        mul_le_mul_of_nonneg_right hlow (zpow_nonneg (by norm_num) _)
  · rename_i h
    rw [sub_add_cancel]
    exact (lt_mul_zpow_iff a b _).2 (not_le.1 h)

/-- Scaled to an exponent that leaves room for 53 bits, a quotient has no more of them. -/
theorem scaled_lt {e : ℤ} (hb : 0 < b) (he : floorLog2 a b - 52 ≤ e) :
    a * 2 ^ (-e).toNat / (b * 2 ^ e.toNat) < 2 ^ 53 := by
  have hpow : (2 : ℚ) ^ (floorLog2 a b + 1) ≤ 2 ^ 53 * 2 ^ e := by
    rw [← zpow_natCast, ← zpow_add₀ two_ne_zero]
    exact zpow_le_zpow_right₀ (by norm_num) (by push_cast; omega)
  have hlt : (a : ℚ) < ((b * 2 ^ 53 : ℕ) : ℚ) * 2 ^ e := by
    calc (a : ℚ) < b * 2 ^ (floorLog2 a b + 1) := lt_floorLog2 a hb
      _ ≤ b * (2 ^ 53 * 2 ^ e) := mul_le_mul_of_nonneg_left hpow (by positivity)
      _ = ((b * 2 ^ 53 : ℕ) : ℚ) * 2 ^ e := by
        push_cast
        ring
  apply (Nat.div_lt_iff_lt_mul (by positivity)).2
  calc a * 2 ^ (-e).toNat < b * 2 ^ 53 * 2 ^ e.toNat := (lt_mul_zpow_iff a _ e).1 hlt
    _ = 2 ^ 53 * (b * 2 ^ e.toNat) := by ring

/-- **A quotient that is at most `2 ^ k`, rounded to a magnitude.** -/
theorem ofQuotient_below (h : a ≤ b * 2 ^ k) : (ofQuotient a b).Below (k + 2) := by
  unfold ofQuotient
  split
  · refine ⟨by norm_num [zero], ?_⟩
    show leastExponent + 53 ≤ _
    rw [leastExponent]
    omega
  · rename_i hne
    obtain ⟨ha, hb⟩ : 0 < a ∧ 0 < b := by omega
    have hlog := floorLog2_le ha h
    dsimp only
    generalize he : max (floorLog2 a b - 52) leastExponent = e
    have hle : e ≤ (k : ℤ) - 52 ∨ e = leastExponent := by omega
    have hbits := scaled_lt (a := a) (e := e) hb (by omega)
    have hround := nearestEven_le_succ (a * 2 ^ (-e).toNat) (b * 2 ^ e.toNat)
    rw [leastExponent] at hle
    unfold canonical
    split
    · refine ⟨by norm_num, ?_⟩
      show e + 1 + 53 ≤ _
      push_cast
      omega
    · refine ⟨by show nearestEven _ _ < _; omega, ?_⟩
      show e + 53 ≤ _
      push_cast
      omega

theorem ofNat_below (h : a ≤ 2 ^ k) : (ofNat a).Below (k + 2) :=
  ofQuotient_below (by rwa [one_mul])

theorem Below.add (hx : x.Below k) (hy : y.Below k) : (x.add y).Below (k + 3) := by
  apply ofQuotient_below (k := k + 1)
  calc x.numerator * y.denominator + y.numerator * x.denominator
      ≤ x.denominator * 2 ^ k * y.denominator + y.denominator * 2 ^ k * x.denominator :=
        Nat.add_le_add (Nat.mul_le_mul_right _ hx.numerator_le)
          (Nat.mul_le_mul_right _ hy.numerator_le)
    _ = x.denominator * y.denominator * 2 ^ (k + 1) := by ring

theorem Below.mul (hx : x.Below k) (hy : y.Below l) : (x.mul y).Below (k + l + 2) := by
  apply ofQuotient_below
  calc x.numerator * y.numerator
      ≤ x.denominator * 2 ^ k * (y.denominator * 2 ^ l) :=
        Nat.mul_le_mul hx.numerator_le hy.numerator_le
    _ = x.denominator * y.denominator * 2 ^ (k + l) := by ring

/-- A quotient by one or more. -/
theorem Below.div (hx : x.Below k) (hy : y.denominator ≤ y.numerator) :
    (x.div y).Below (k + 2) := by
  apply ofQuotient_below
  calc x.numerator * y.denominator
      ≤ x.denominator * 2 ^ k * y.numerator := Nat.mul_le_mul hx.numerator_le hy
    _ = x.denominator * y.numerator * 2 ^ k := by ring

theorem Below.roundToNat_le (hx : x.Below k) : x.roundToNat ≤ 2 ^ (k + 1) := by
  have hround := nearestUp_le_succ x.numerator x.denominator
  have hquotient : x.numerator / x.denominator ≤ 2 ^ k := by
    rw [Nat.div_le_iff_le_mul_add_pred x.denominator_pos]
    exact hx.numerator_le.trans (Nat.le_add_right _ _)
  have hpos := Nat.two_pow_pos k
  unfold roundToNat
  rw [pow_succ]
  omega

/-- **A magnitude that is not too big is that of a finite double.** -/
theorem isFinite_toFloat (hx : x.Below 1024) (negative : Bool) :
    (x.toFloat negative).isFinite = true := by
  have hsignificand := hx.significand_lt
  have hexponent := hx.exponent_le
  unfold toFloat
  dsimp only
  apply isFinite_ofBits
  unfold exponentField
  rw [UInt64.toNat_ofNat']
  split
  · split <;> omega
  · rw [if_neg (by omega)]
    split <;> omega

end Magnitude

/-! ## §4. Exact values. -/

/-- The exact value of a finite double. -/
def value? (x : Float) : Option ℚ :=
  (magnitude? x).map fun m =>
    if signBit x then -((m.numerator : ℚ) / m.denominator) else m.numerator / m.denominator

end ShapeEstimator.Binary64
