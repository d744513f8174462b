/-
  ShapeEstimator.Proofs.Formula.Power
  ────────────────────────────────
  **POWERS IN FORMULAS.**

  An exponent without a fraction is taken as an integer of 64 bits, and the power is computed by
  repeated squaring.  A power that could not be computed is zero where powers of the base go toward
  zero, and out of range otherwise.  For a power `v = b ^ n` of moderate size this gives

      |result - v|  ≤  |n| · 10 ^ (-27) · max 1 |v|

  unless the exponent has more than 64 bits, or the power is the inverse of a small number.  In the
  first case the base alone decides, and it does not see how near to one it is.  In the second case
  the small number has lost its digits, or is zero, before the inverse is taken.
-/
import ShapeEstimator.Formula.Value
import ShapeEstimator.Proofs.Decimal.Power
import ShapeEstimator.Proofs.Decimal.SquareRoot

namespace ShapeEstimator.Formula

open Decimal (rounded signed unitRoundoff)

/-! ## §1. What is asked for. -/

/-- The integer has 64 bits with a sign. -/
def InInt64 (n : ℤ) : Prop := -2 ^ 63 ≤ n ∧ n < 2 ^ 63

instance (n : ℤ) : Decidable (InInt64 n) := inferInstanceAs (Decidable (_ ∧ _))

/-- A power with an integer as exponent, whose value is of moderate size. -/
structure IntegerPower (base exponent : Decimal) (n : ℤ) : Prop where
  /-- The exponent is the integer. -/
  exponent_eq : exponent.value = n
  /-- The power is defined. -/
  base_ne : n < 0 → base.value ≠ 0
  /-- The power is not near the greatest decimal. -/
  moderate : |base.value ^ n| ≤ 7 * 10 ^ 28

/-- By how much a power with exponent `n` and value `v` may be off. -/
def allowance (n : ℤ) (v : ℚ) : ℚ := |(n : ℚ)| / 10 ^ 27 * max 1 |v|

/-- The outcome is a number, and off from `v` by `ε` at most. -/
def Within (o : Outcome) (v ε : ℚ) : Prop := ∃ r, o = .ok r ∧ |r.value - v| ≤ ε

/-- Powers of the base go toward zero as the exponent grows in size. -/
def Vanishes (base : Decimal) (n : ℤ) : Prop :=
  n < 0 ∧ 1 < |base.value| ∨ 0 < n ∧ |base.value| < 1

instance (base : Decimal) (n : ℤ) : Decidable (Vanishes base n) :=
  inferInstanceAs (Decidable (_ ∨ _))

/-! ## §2. How a power is computed. -/

section Power

variable {b x : Decimal} {n : ℤ} {m : ℕ}

/-- The sign of an exponent is that of its digits. -/
theorem negative_of_integer (h : x.value = n) (hn : n ≠ 0) : x.negative = decide (n < 0) := by
  have hsize := x.size_nonneg
  have hvalue : signed x.negative x.size = n := h
  cases hsign : x.negative with
  | true =>
    rw [hsign, signed, if_pos rfl] at hvalue
    have hle : (n : ℚ) ≤ 0 := by linarith
    have hle : n ≤ 0 := by exact_mod_cast hle
    exact (decide_eq_true (by omega)).symm
  | false =>
    rw [hsign, signed, if_neg (by decide)] at hvalue
    have hle : (0 : ℚ) ≤ n := by linarith
    have hle : 0 ≤ n := by exact_mod_cast hle
    exact (decide_eq_false (by omega)).symm

theorem powerOutOfRange_eq (h : x.value = n) (hn : n ≠ 0) :
    powerOutOfRange b x
      = if Vanishes b n then .ok Decimal.zero else .error (.failure (.overflow .pow)) := by
  have hshrinks : shrinks b x = decide (Vanishes b n) := by
    have hsign := negative_of_integer h hn
    rw [Bool.eq_iff_iff, decide_eq_true_iff]
    unfold shrinks Vanishes
    rcases lt_or_gt_of_ne hn with hneg | hpos
    · rw [decide_eq_true hneg] at hsign
      simp [hsign, hneg, hneg.le.not_gt, Decimal.lt_iff]
    · rw [decide_eq_false hpos.le.not_gt] at hsign
      simp [hsign, hpos, hpos.le.not_gt, Decimal.lt_iff]
  unfold powerOutOfRange
  simp only [hshrinks, decide_eq_true_iff]

/-- The power with an integer as exponent, if it can be computed, and what stands for it
otherwise. -/
theorem raise_of_integer (h : x.value = n) (hbase : n < 0 → b.value ≠ 0) :
    raise b x = (if InInt64 n then b.powInt n else none).elim (powerOutOfRange b x) .ok := by
  have hdefined : ¬ (b.isZero && x.negative && !x.isZero) = true := by
    -- an exponent with a minus sign may still be zero
    intro hzero
    rw [Bool.and_eq_true, Bool.and_eq_true, Bool.not_eq_true'] at hzero
    obtain ⟨⟨hb, hnegative⟩, hx⟩ := hzero
    have hn : n ≠ 0 := by
      rintro rfl
      rw [Int.cast_zero, Decimal.value_eq_zero_iff, hx] at h
      exact nomatch h
    rw [negative_of_integer h hn, decide_eq_true_iff] at hnegative
    exact hbase hnegative (Decimal.value_of_isZero hb)
  have hbits : x.toInt64?.bind b.powInt = if InInt64 n then b.powInt n else none := by
    rw [Decimal.toInt64?_of_integer h]
    by_cases hn : InInt64 n
    · rw [if_pos hn, if_pos (show -2 ^ 63 ≤ n ∧ n < 2 ^ 63 from hn), Option.bind_some]
    · rw [if_neg hn, if_neg (show ¬ (-2 ^ 63 ≤ n ∧ n < 2 ^ 63) from hn), Option.bind_none]
  unfold raise
  rw [Decimal.hasFraction_of_integer h, if_pos (by rfl), if_neg hdefined, ← hbits]
  cases x.toInt64?.bind b.powInt with
  | none => rfl
  | some z => rfl

/-! ## §3. Exponents of 64 bits. -/

/-- A negative exponent of 64 bits, by its size. -/
theorem exists_size (hn : InInt64 n) (hneg : n < 0) : ∃ m : ℕ, n = -m ∧ 1 ≤ m ∧ m ≤ 2 ^ 63 := by
  have hlow := hn.1
  exact ⟨n.natAbs, by omega, by omega, by omega⟩

theorem abs_cast_neg (m : ℕ) : |((-m : ℤ) : ℚ)| = m := by
  rw [Int.cast_neg, abs_neg, Int.cast_natCast, Nat.abs_cast]

theorem zpow_neg_natCast (q : ℚ) (m : ℕ) : q ^ (-m : ℤ) = (q ^ m)⁻¹ := by
  rw [zpow_neg, zpow_natCast]

/-- **Powers that are accurate.**  The exponent is not negative, or the base is not small. -/
theorem raise_within (h : IntegerPower b x n) (hn : InInt64 n) (hb : 0 ≤ n ∨ 1 ≤ |b.value|) :
    Within (raise b x) (b.value ^ n) (allowance n (b.value ^ n)) := by
  have hmoderate := h.moderate
  rw [raise_of_integer h.exponent_eq h.base_ne, if_pos hn]
  unfold allowance
  rcases Int.lt_or_le n 0 with hneg | hpos
  · -- the inverse of a number that is not small
    obtain ⟨m, rfl, hm, hmax⟩ := exists_size hn hneg
    have hallowed : (m : ℚ) / 10 ^ 27 ≤ m / 10 ^ 27 * max 1 |(b.value ^ m)⁻¹| :=
      le_mul_of_one_le_right (by positivity) (le_max_left _ _)
    rw [zpow_neg_natCast, abs_cast_neg]
    rcases Decimal.powInt_neg_of_one_le (hb.resolve_left (by omega)) hm hmax with
      ⟨z, hz, hoff⟩ | ⟨hnone, hlarge, hsmall⟩
    · rw [hz]
      exact ⟨z, rfl, hoff.trans hallowed⟩
    · -- the power is less than the last place, and zero stands for it
      have hvanishes : Vanishes b (-m) := Or.inl ⟨hneg, hlarge⟩
      rw [hnone, Option.elim_none, powerOutOfRange_eq h.exponent_eq hneg.ne, if_pos hvanishes]
      refine ⟨Decimal.zero, rfl, ?_⟩
      rw [Decimal.value_zero, zero_sub, abs_neg]
      exact hsmall.trans hallowed
  · -- a power that is computed as it is
    obtain ⟨m, rfl⟩ := Int.eq_ofNat_of_zero_le hpos
    have hmax : m ≤ 2 ^ 63 := by
      have hhigh := hn.2
      omega
    have hpower := Decimal.powNat_approximates b hmax
    rw [← zpow_natCast] at hpower
    obtain ⟨z, hz⟩ := hpower.exists_eq hmoderate
    rw [Decimal.powInt_natCast, hz]
    refine ⟨z, rfl, (hpower.off z hz).trans ?_⟩
    have hcast : (0 : ℚ) ≤ m := Nat.cast_nonneg m
    rw [Int.cast_natCast, Nat.abs_cast]
    apply mul_le_mul_of_nonneg_right _ (zero_le_one.trans (le_max_left _ _))
    unfold unitRoundoff
    linarith

/-- **Powers that are inverses of small numbers.**  The small number `p` has been rounded to its
places, and the power is out of range if nothing is left of it. -/
theorem raise_inverse (h : IntegerPower b x n) (hn : InInt64 n) (hneg : n < 0)
    (hb : |b.value| < 1) :
    ∃ p : Decimal, |p.value - (b.value ^ n)⁻¹| ≤ |(n : ℚ)| / 10 ^ 27
      ∧ (p.value = 0 → raise b x = .error (.failure (.overflow .pow)))
      ∧ ∀ r, raise b x = .ok r → r.value = rounded p.value⁻¹ := by
  obtain ⟨m, rfl, hm, hmax⟩ := exists_size hn hneg
  have hvanishes : ¬ Vanishes b (-m) := by
    rintro (⟨-, hlarge⟩ | ⟨hpos, -⟩)
    · linarith
    · omega
  obtain ⟨p, hp, hoff⟩ := Decimal.exists_powNat_of_lt_one hb hmax
  have hraise : raise b x
      = (if p.isZero then none else Decimal.one.div p).elim
          (.error (.failure (.overflow .pow))) .ok := by
    rw [raise_of_integer h.exponent_eq h.base_ne, if_pos hn,
      Decimal.powInt_neg b hm, hp, Option.bind_some,
      powerOutOfRange_eq h.exponent_eq hneg.ne, if_neg hvanishes]
  refine ⟨p, ?_, ?_, ?_⟩
  · rw [zpow_neg_natCast, inv_inv, abs_cast_neg]
    have hcast : (0 : ℚ) ≤ m := Nat.cast_nonneg m
    refine hoff.trans ?_
    unfold unitRoundoff
    linarith
  · intro hzero
    rw [hraise, if_pos ((Decimal.value_eq_zero_iff p).1 hzero), Option.elim_none]
  · intro r hr
    rw [hraise] at hr
    split at hr
    · exact nomatch hr
    · rename_i hzero
      have hrounds := Decimal.div_rounds Decimal.one (Bool.eq_false_iff.2 hzero)
      cases hdiv : Decimal.one.div p with
      | none =>
        rw [hdiv] at hr
        exact nomatch hr
      | some z =>
        rw [hdiv] at hr
        cases hr
        rw [hrounds.value_eq _ hdiv, Decimal.value_one, one_div]

/-- An inverse of a small number that is not too small is off by the square of its size. -/
theorem raise_inverse_within (h : IntegerPower b x n) (hn : InInt64 n) (hneg : n < 0)
    (hb : |b.value| < 1) (hsize : |(n : ℚ)| * |b.value ^ n| ≤ 10 ^ 27) :
    Within (raise b x) (b.value ^ n) (|(n : ℚ)| / 10 ^ 27 * |b.value ^ n| ^ 2) := by
  obtain ⟨m, rfl, hm, hmax⟩ := exists_size hn hneg
  rw [zpow_neg_natCast, abs_cast_neg] at hsize ⊢
  obtain ⟨z, hz, hoff⟩ := Decimal.powInt_neg_of_lt_one (h.base_ne hneg) hb hm hmax hsize
  rw [raise_of_integer h.exponent_eq h.base_ne, if_pos hn, hz]
  exact ⟨z, rfl, hoff⟩

/-! ## §4. Longer exponents. -/

/-- With an exponent of more than 64 bits, the base decides. -/
theorem raise_beyond (h : IntegerPower b x n) (hn : ¬ InInt64 n) :
    raise b x = if Vanishes b n then .ok Decimal.zero else .error (.failure (.overflow .pow)) := by
  have hne : n ≠ 0 := by
    rintro rfl
    exact hn (by decide)
  rw [raise_of_integer h.exponent_eq h.base_ne, if_neg hn, Option.elim_none,
    powerOutOfRange_eq h.exponent_eq hne]

/-! ## §5. All powers with integers as exponents. -/

/-- **Powers with integers as exponents.**  Where the exponent has 64 bits and the power is not an
inverse of a small number, the power is accurate.  The inverse of a small number is that of a
rounded number.  Longer exponents are not looked at. -/
theorem integer_power (lib : DoubleFunctions) {o : Outcome} (h : IntegerPower b x n)
    (ho : o ∈ [applyOperator .pow b x, applyFunction lib .pow [b, x]]) :
    (InInt64 n → 0 ≤ n ∨ 1 ≤ |b.value| →
        Within o (b.value ^ n) (allowance n (b.value ^ n)))
      ∧ (InInt64 n → n < 0 → |b.value| < 1 →
        (∃ p : Decimal, |p.value - (b.value ^ n)⁻¹| ≤ |(n : ℚ)| / 10 ^ 27
          ∧ (p.value = 0 → o = .error (.failure (.overflow .pow)))
          ∧ ∀ r, o = .ok r → r.value = rounded p.value⁻¹)
        ∧ (|(n : ℚ)| * |b.value ^ n| ≤ 10 ^ 27 →
          Within o (b.value ^ n) (|(n : ℚ)| / 10 ^ 27 * |b.value ^ n| ^ 2)))
      ∧ (¬ InInt64 n →
        o = if Vanishes b n then .ok Decimal.zero else .error (.failure (.overflow .pow))) := by
  -- the operator and the function are computed alike
  obtain rfl : o = raise b x := by
    rw [List.mem_pair] at ho
    rcases ho with rfl | rfl
    · rfl
    · rfl
  refine ⟨raise_within h, fun hn hneg hb => ?_, raise_beyond h⟩
  exact ⟨raise_inverse h hn hneg hb, raise_inverse_within h hn hneg hb⟩

end Power

theorem value_neg_two : Decimal.two.neg.value = ((-2 : ℤ) : ℚ) := by
  rw [Decimal.value_neg, Decimal.value_two]
  norm_num

/-- A ninth, as a power that is covered. -/
theorem ninth_within :
    IntegerPower Decimal.three Decimal.two.neg (-2)
      ∧ Within (applyOperator .pow Decimal.three Decimal.two.neg) (1 / 9) (2 / 10 ^ 27) := by
  have hbase : Decimal.three.value = 3 := by
    norm_num [Decimal.value, Decimal.size, signed, Decimal.three]
  have hpower : IntegerPower Decimal.three Decimal.two.neg (-2) := by
    refine ⟨value_neg_two, fun _ => ?_, ?_⟩
    · rw [hbase]
      norm_num
    · rw [hbase]
      norm_num [abs_of_pos]
  have h := (integer_power .system hpower (List.mem_cons_self ..)).1 (by decide)
    (Or.inr (by rw [hbase]; norm_num [abs_of_pos]))
  refine ⟨hpower, ?_⟩
  rw [hbase] at h
  norm_num [allowance, abs_of_pos] at h ⊢
  exact h

/-! ## §6. Powers that are missed. -/

/-- A power that is not within what it may be off by. -/
def Missed (base exponent : Decimal) (n : ℤ) : Prop :=
  IntegerPower base exponent n
    ∧ ¬ Within (raise base exponent) (base.value ^ n) (allowance n (base.value ^ n))

/-- An exponent of more than 64 bits. -/
def longExponent : Decimal where
  negative := false
  coefficient := 10 ^ 19
  scale := 0
  scale_le := Decimal.zero_le_maxScale

/-- A number next to one, with nothing but nines behind the point. -/
def belowOne : Decimal where
  negative := false
  coefficient := 10 ^ 24 - 1
  scale := 24

/-- A number whose square has no digit left behind the point, and whose inverse square is in
range. -/
def tiny : Decimal where
  negative := false
  coefficient := 5
  scale := 15

theorem not_within_error {v ε : ℚ} {e : Stop EvalFailure} : ¬ Within (.error e) v ε := by
  rintro ⟨r, hr, -⟩
  exact nomatch hr

theorem value_longExponent : longExponent.value = ((10 ^ 19 : ℤ) : ℚ) := by
  norm_num [longExponent, Decimal.value, Decimal.size, signed]

/-- The exponent as an integer, which is positive and has more than 64 bits. -/
theorem longExponent_integer {n : ℤ} (h : longExponent.value = n) :
    n = 10 ^ 19 ∧ 0 < n ∧ ¬ InInt64 n := by
  have hn : n = 10 ^ 19 := by
    rw [value_longExponent] at h
    exact (Int.cast_inj.1 h).symm
  unfold InInt64
  omega

/-- One, to an exponent of more than 64 bits, is out of range. -/
theorem one_missed {n : ℤ} (hn : longExponent.value = n) : Missed Decimal.one longExponent n := by
  obtain ⟨-, hpos, hlong⟩ := longExponent_integer hn
  have h : IntegerPower Decimal.one longExponent n := by
    refine ⟨hn, fun hneg => absurd hneg (by omega), ?_⟩
    rw [Decimal.value_one, one_zpow, abs_one]
    norm_num
  have hstays : ¬ Vanishes Decimal.one n := by
    simp [Vanishes]
  refine ⟨h, ?_⟩
  rw [raise_beyond h hlong, if_neg hstays]
  exact not_within_error

/-- The inverse of a square that has been rounded to zero is out of range. -/
theorem tiny_missed : Missed tiny Decimal.two.neg (-2) := by
  have hvalue : tiny.value = 5 / 10 ^ 15 := by
    norm_num [tiny, Decimal.value, Decimal.size, signed]
  refine ⟨⟨value_neg_two, fun _ => ?_, ?_⟩, ?_⟩
  · rw [hvalue]
    norm_num
  · rw [hvalue]
    norm_num [abs_of_pos]
  · have hraise : raise tiny Decimal.two.neg = .error (.failure (.overflow .pow)) := by
      decide +kernel
    rw [hraise]
    exact not_within_error

/-- Powers of a number next to one stay away from zero for long. -/
theorem pow_belowOne {m : ℕ} (hm : m ≤ 10 ^ 19) :
    1 / 2 ≤ belowOne.value ^ m ∧ belowOne.value ^ m ≤ 1 := by
  have hvalue : belowOne.value = 1 + -(1 / 10 ^ 24) := by
    norm_num [belowOne, Decimal.value, Decimal.size, signed]
  have hcast : (m : ℚ) ≤ 10 ^ 19 := by exact_mod_cast hm
  rw [hvalue]
  constructor
  · have hlower := one_add_mul_le_pow (show (-2 : ℚ) ≤ -(1 / 10 ^ 24) by norm_num) m
    refine le_trans ?_ hlower
    linarith
  · exact pow_le_one₀ (by norm_num) (by norm_num)

/-- A number next to one, to an exponent of more than 64 bits, is zero. -/
theorem belowOne_missed {n : ℤ} (hn : longExponent.value = n) :
    Missed belowOne longExponent n := by
  obtain ⟨hlarge, hpos, hlong⟩ := longExponent_integer hn
  obtain ⟨m, rfl⟩ := Int.eq_ofNat_of_zero_le hpos.le
  obtain ⟨hlower, hupper⟩ := pow_belowOne (show m ≤ 10 ^ 19 by omega)
  have hsize : |belowOne.value ^ (m : ℤ)| = belowOne.value ^ m := by
    rw [zpow_natCast, abs_of_nonneg (by linarith)]
  have h : IntegerPower belowOne longExponent m := by
    refine ⟨hn, fun hneg => absurd hneg (by omega), ?_⟩
    rw [hsize]
    linarith
  have hvanishes : Vanishes belowOne m := by
    refine Or.inr ⟨hpos, ?_⟩
    norm_num [belowOne, Decimal.value, Decimal.size, signed, abs_of_pos]
  refine ⟨h, ?_⟩
  rw [raise_beyond h hlong, if_pos hvanishes]
  rintro ⟨r, hr, hoff⟩
  cases hr
  rw [Decimal.value_zero, zero_sub, abs_neg, allowance, hsize, max_eq_left hupper, Int.cast_natCast,
    Nat.abs_cast, mul_one] at hoff
  have hcast : (m : ℚ) ≤ 10 ^ 19 := by exact_mod_cast (show m ≤ 10 ^ 19 by omega)
  linarith

/-- **Powers of moderate size are missed**, at a base of one, at a base next to it, and at the
inverse of a small number. -/
theorem integer_power_missed :
    Missed Decimal.one longExponent (10 ^ 19) ∧ Missed belowOne longExponent (10 ^ 19)
      ∧ Missed tiny Decimal.two.neg (-2) :=
  ⟨one_missed value_longExponent, belowOne_missed value_longExponent, tiny_missed⟩

end ShapeEstimator.Formula
