/-
  ShapeEstimator.Proofs.Decimal.Lifted
  ────────────────────────────────
  **FROM DOUBLE TO DECIMAL, AND WHAT IS LOST.**

  A double that is no integer is an odd number of many halves.  Each half is traded for
  a five and a tenth while there is room, and then digits are dropped one by one, each
  rounding the next:

      b / 2^n  =  5^n · b / 10^n  ≈  digits / 10^places          digits < 2^52

  A double whose digits are few comes through as it is.  Otherwise the number that is
  left is off by five ninths of its last place at most, and by next to nothing more.
-/
import Mathlib.Data.Nat.Factorization.Basic
import ShapeEstimator.Proofs.Binary64.Roundoff
import ShapeEstimator.Proofs.Decimal.Double

namespace ShapeEstimator.Decimal

open Binary64 (Magnitude roundoff)

namespace Digits

variable {d n p t m : ℕ} {e : ℤ} {x : Digits} {q y : ℚ}

/-! ## §1. Halves traded for fives. -/

/-- Even digits are halved. -/
theorem halve_two_pow (t n d : ℕ) (e : ℤ) :
    halve (t + n) ⟨2 ^ t * d, e⟩ = halve n ⟨d, e + t⟩ := by
  induction t generalizing e with
  | zero => rw [Nat.zero_add, pow_zero, one_mul, Nat.cast_zero, add_zero]
  | succ t ih =>
    have hdouble : 2 ^ (t + 1) * d = 2 * (2 ^ t * d) := by ring
    rw [hdouble, Nat.add_right_comm, halve]
    dsimp only
    rw [if_pos (Nat.mul_mod_right 2 _), Nat.mul_div_cancel_left _ two_pos, ih]
    congr 2
    push_cast
    ring

/-- Odd digits are multiplied by five while there is room. -/
theorem halve_of_short (hodd : d % 2 = 1) (h : 5 ^ n * d < 2 ^ 96) :
    halve n ⟨d, e⟩ = ⟨5 ^ n * d, e⟩ := by
  induction n generalizing d with
  | zero => rw [pow_zero, one_mul]; rfl
  | succ n ih =>
    -- five times an odd number is odd again
    have hnext : 5 ^ n * (5 * d) = 5 ^ (n + 1) * d := by ring
    have hroom : 5 * d < 2 ^ 96 := by
      have hpos : 0 < 5 ^ n := by positivity
      have hle := Nat.le_mul_of_pos_left (5 * d) hpos
      omega
    unfold halve
    dsimp only
    rw [if_neg (by omega), if_pos hroom, ih (by omega) (hnext ▸ h), hnext]

/-- Each halving makes the exponent greater, or the digits. -/
theorem halve_exponent (n : ℕ) (x : Digits) :
    x.exponent ≤ (halve n x).exponent ∧ (halve n x).exponent ≤ x.exponent + n := by
  induction n generalizing x with
  | zero => exact ⟨le_rfl, by simp [halve]⟩
  | succ n ih =>
    unfold halve
    push_cast
    split
    · obtain ⟨hlow, hhigh⟩ := ih ⟨x.digits / 2, x.exponent + 1⟩
      dsimp only at hlow hhigh
      omega
    · split
      · obtain ⟨hlow, hhigh⟩ := ih ⟨5 * x.digits, x.exponent⟩
        dsimp only at hlow hhigh
        omega
      · obtain ⟨hlow, hhigh⟩ := ih ⟨x.digits / 2, x.exponent + 1⟩
        dsimp only at hlow hhigh
        omega

/-- Where there is not room for all fives, there is room for many. -/
theorem le_halve_exponent (hodd : d % 2 = 1) (h : 2 ^ 96 ≤ 5 ^ n * d) :
    2 ^ 96 ≤ 5 ^ ((e + n - (halve n ⟨d, e⟩).exponent).toNat + 1) * d := by
  induction n generalizing d with
  | zero =>
    rw [pow_zero, one_mul] at h
    exact h.trans (Nat.le_mul_of_pos_left _ (by positivity))
  | succ n ih =>
    have hbound := (halve_exponent (n + 1) ⟨d, e⟩).2
    by_cases hroom : 5 * d < 2 ^ 96
    · have hstep : halve (n + 1) ⟨d, e⟩ = halve n ⟨5 * d, e⟩ := by
        rw [halve]
        dsimp only
        rw [if_neg (by omega), if_pos hroom]
      have hnext := ih (d := 5 * d) (by omega) (by rw [← mul_assoc, ← pow_succ]; exact h)
      have hless := (halve_exponent n ⟨5 * d, e⟩).2
      dsimp only at hless
      rw [hstep]
      rw [← mul_assoc, ← pow_succ] at hnext
      convert hnext using 3
      push_cast
      omega
    · -- the first cut
      have hfive : 5 ≤ 5 ^ ((e + (n + 1 : ℕ) - (halve (n + 1) ⟨d, e⟩).exponent).toNat + 1) :=
        Nat.le_self_pow (Nat.succ_ne_zero _) 5
      exact (not_lt.1 hroom).trans (Nat.mul_le_mul_right d hfive)

/-- What one halving cuts off is little, since digits are cut only where they are many. -/
theorem le_halve_value (n : ℕ) (x : Digits) :
    5 ^ n * x.value ≤ (halve n x).value * (1 + 1 / 2 ^ 92) ^ n := by
  induction n generalizing x with
  | zero => rw [pow_zero, pow_zero, one_mul, mul_one]; exact le_rfl
  | succ n ih =>
    -- whatever the step leaves, the other halvings lose little of it
    have hstep : ∀ y : Digits, 5 * x.value ≤ y.value * (1 + 1 / 2 ^ 92) →
        5 ^ (n + 1) * x.value ≤ (halve n y).value * (1 + 1 / 2 ^ 92) ^ (n + 1) := by
      intro y hy
      calc (5 : ℚ) ^ (n + 1) * x.value = 5 ^ n * (5 * x.value) := by ring
        _ ≤ 5 ^ n * (y.value * (1 + 1 / 2 ^ 92)) := mul_le_mul_of_nonneg_left hy (by positivity)
        _ = 5 ^ n * y.value * (1 + 1 / 2 ^ 92) := by ring
        _ ≤ (halve n y).value * (1 + 1 / 2 ^ 92) ^ n * (1 + 1 / 2 ^ 92) :=
          mul_le_mul_of_nonneg_right (ih y) (by positivity)
        _ = (halve n y).value * (1 + 1 / 2 ^ 92) ^ (n + 1) := by ring
    -- halved digits and a place less are five times the number
    have hhalf : ∀ half : ℕ, (x.digits : ℚ) / 2 ≤ half * (1 + 1 / 2 ^ 92) →
        5 * x.value ≤ (Digits.mk half (x.exponent + 1)).value * (1 + 1 / 2 ^ 92) := by
      intro half hle
      calc 5 * x.value = x.digits / 2 * 10 ^ (x.exponent + 1) := (value_shift _ _).symm
        _ ≤ half * (1 + 1 / 2 ^ 92) * 10 ^ (x.exponent + 1) :=
          mul_le_mul_of_nonneg_right hle (zpow_nonneg (by norm_num) _)
        _ = half * 10 ^ (x.exponent + 1) * (1 + 1 / 2 ^ 92) := by ring
    unfold halve
    split
    · rename_i heven
      refine hstep _ (hhalf _ ?_)
      have hexact : (x.digits : ℚ) = 2 * (x.digits / 2 : ℕ) := by
        exact_mod_cast (by omega : x.digits = 2 * (x.digits / 2))
      have hnonneg : (0 : ℚ) ≤ (x.digits / 2 : ℕ) := Nat.cast_nonneg _
      linarith
    · split
      · refine hstep _ ?_
        have hvalue : (Digits.mk (5 * x.digits) x.exponent).value = 5 * x.value := by
          unfold value
          push_cast
          ring
        have hnonneg : 0 ≤ x.value := by
          unfold value
          positivity
        rw [hvalue]
        exact le_mul_of_one_le_right (by positivity) (le_add_of_nonneg_right (by positivity))
      · rename_i hroom
        refine hstep _ (hhalf _ ?_)
        have hcut : (x.digits : ℚ) ≤ 2 * (x.digits / 2 : ℕ) + 1 := by
          exact_mod_cast (by omega : x.digits ≤ 2 * (x.digits / 2) + 1)
        have hmany : (2 : ℚ) ^ 92 ≤ (x.digits / 2 : ℕ) := by
          exact_mod_cast (by omega : 2 ^ 92 ≤ x.digits / 2)
        linarith

/-! ## §2. Digits dropped one by one. -/

/-- What dropping digits one by one leaves of a number. -/
structure Near (m : ℕ) (y : ℚ) : Prop where
  /-- The digits can be too few by four ninths. -/
  lower : y - 4 / 9 ≤ m
  /-- They can be too many by five ninths. -/
  upper : m ≤ y + 5 / 9

theorem nextDigit_eq (m : ℕ) : (m / 10 + if 5 ≤ m % 10 then 1 else 0) = (m + 5) / 10 := by
  split <;> omega

/-- **One digit less.**  The error of the digits before is a tenth as great, and a half is added. -/
theorem Near.next (h : Near m y) : Near (m / 10 + if 5 ≤ m % 10 then 1 else 0) (y / 10) := by
  have hlow : (m : ℚ) ≤ 10 * ((m + 5) / 10 : ℕ) + 4 := by
    exact_mod_cast (by omega : m ≤ 10 * ((m + 5) / 10) + 4)
  have hhigh : (10 * ((m + 5) / 10 : ℕ) : ℚ) ≤ m + 5 := by
    exact_mod_cast (by omega : 10 * ((m + 5) / 10) ≤ m + 5)
  rw [nextDigit_eq]
  obtain ⟨hlower, hupper⟩ := h
  constructor <;> linarith

theorem near_dropOneByOne (h : Near m y) (hy : 10 ^ (n + 1) ≤ y) :
    Near (dropOneByOne n m) (y / 10 ^ n) := by
  induction n generalizing m y with
  | zero => rw [pow_zero, div_one]; exact h
  | succ n ih =>
    have hlarge : (10 : ℚ) ≤ 10 ^ (n + 1) := le_self_pow₀ (by norm_num) n.succ_ne_zero
    rw [pow_succ (10 : ℚ) (n + 1)] at hy
    have hten : 10 ≤ m := by
      have hlt : (9 : ℚ) < m := by linarith [h.lower]
      exact_mod_cast hlt
    unfold dropOneByOne
    rw [if_neg (by omega), pow_succ, mul_comm, ← div_div]
    exact ih h.next (by linarith)

/-- What is left of digits with places, once they are short enough. -/
structure Kept (m p : ℕ) (q : ℚ) (r : ℕ × ℕ) : Prop where
  /-- The number is off by little in its last place. -/
  near : Near r.1 (q * 10 ^ r.2)
  /-- There are not more places than before. -/
  places_le : r.2 ≤ p
  /-- The digits are short, unless there is no place left. -/
  short : r.2 = 0 ∨ r.1 < 2 ^ 52
  /-- No digit was dropped, or there are still many. -/
  many : r = (m, p) ∨ 2 ^ 52 ≤ 10 * r.1 + 4

theorem kept_dropToPrecision (h : Near m (q * 10 ^ p)) : Kept m p q (dropToPrecision p m) := by
  induction p generalizing m with
  | zero => exact ⟨h, le_rfl, Or.inl rfl, Or.inl rfl⟩
  | succ p ih =>
    unfold dropToPrecision
    split
    · rename_i hlong
      have hnext := h.next
      rw [pow_succ, ← mul_assoc, mul_div_assoc, div_self (by norm_num : (10 : ℚ) ≠ 0), mul_one]
        at hnext
      obtain ⟨hnear, hplaces, hshort, hmany⟩ := ih hnext
      refine ⟨hnear, hplaces.trans p.le_succ, hshort, Or.inr ?_⟩
      rcases hmany with hsame | hmany
      · -- the digits before this last one were long
        rw [hsame, nextDigit_eq]
        dsimp only
        omega
      · exact hmany
    · rename_i hshort
      exact ⟨h, le_rfl, Or.inr (not_le.1 hshort), Or.inl rfl⟩

/-- The digits `m` with `p` places that are left of a number with a fraction. -/
structure Shortened (x : Digits) (m p : ℕ) : Prop where
  /-- There are at most 28 places. -/
  places_le : p ≤ 28
  /-- The digits are short, unless there is no place. -/
  short : p = 0 ∨ m < 2 ^ 52
  /-- The number is off by little in its last place. -/
  near : Near m (x.value * 10 ^ p)
  /-- No digit was dropped, or there are still many. -/
  many : x = ⟨m, -p⟩ ∨ 2 ^ 52 ≤ 10 * m + 4
  /-- No digit is dropped of a number that is short already. -/
  same : x.digits < 2 ^ 52 → -28 ≤ x.exponent → x = ⟨m, -p⟩

/-- The digits of a number with `f` places are the number, in its last place. -/
theorem near_digits (d f : ℕ) : Near d ((Digits.mk d (-(f : ℤ))).value * 10 ^ f) := by
  have hdigits : (Digits.mk d (-(f : ℤ))).value * 10 ^ f = d := by
    unfold value
    rw [zpow_neg, zpow_natCast, inv_mul_cancel_right₀ (by positivity)]
  rw [hdigits]
  constructor <;> linarith

/-- Of a number with more places than the greatest scale, the places beyond it go first. -/
theorem exists_shortened_of_long (negative : Bool) {d n : ℕ} (hn : 0 < n)
    (hvalue : 1 / 10 ^ 11 ≤ (Digits.mk d (-((28 + n : ℕ) : ℤ))).value) :
    ∃ m p, toDecimal? negative ⟨d, -((28 + n : ℕ) : ℤ)⟩
        = make? negative (trimmed m p).1 (trimmed m p).2
      ∧ Shortened ⟨d, -((28 + n : ℕ) : ℤ)⟩ m p := by
  have hexact := near_digits d (28 + n)
  unfold toDecimal?
  dsimp only
  rw [if_neg (by omega), neg_neg, Int.toNat_natCast]
  generalize hq : (Digits.mk d (-((28 + n : ℕ) : ℤ))).value = q at *
  have hscaled : (10 : ℚ) ^ 17 ≤ q * 10 ^ 28 := by
    linarith
  have hsplit : q * 10 ^ (28 + n) = q * 10 ^ 28 * 10 ^ n := by
    rw [pow_add, mul_assoc]
  have hlarge : (10 : ℚ) ^ (n + 1) ≤ q * 10 ^ (28 + n) := by
    rw [hsplit, pow_succ, mul_comm]
    exact mul_le_mul_of_nonneg_right (le_trans (by norm_num) hscaled) (by positivity)
  have hfirst := near_dropOneByOne hexact hlarge
  rw [hsplit, mul_div_assoc, div_self (by positivity), mul_one] at hfirst
  rw [show 28 + n - maxScale = n from Nat.add_sub_cancel_left 28 n]
  generalize dropOneByOne n d = m at hfirst ⊢
  have hm : 10 ^ 17 ≤ m + 1 := by
    have hle : (10 : ℚ) ^ 17 ≤ m + 1 := by linarith [hfirst.lower]
    exact_mod_cast hle
  rw [if_neg (by omega),
    show Nat.min (28 + n) maxScale = 28 from Nat.min_eq_right (Nat.le_add_right 28 n)]
  obtain ⟨hnear, hplaces, hless, hmany⟩ := kept_dropToPrecision hfirst
  refine ⟨_, _, rfl, hplaces, hless, hq ▸ hnear, Or.inr ?_, fun _ hplace => ?_⟩
  · rcases hmany with hsame | hmany
    · rw [hsame]
      dsimp only
      omega
    · exact hmany
  · dsimp only at hplace
    omega

/-- Of a number whose places all fit, digits go only where there are too many. -/
theorem exists_shortened_of_short (negative : Bool) {d f : ℕ} (hf : 0 < f) (hshort : f ≤ 28)
    (hvalue : 0 < (Digits.mk d (-(f : ℤ))).value) :
    ∃ m p, toDecimal? negative ⟨d, -(f : ℤ)⟩ = make? negative (trimmed m p).1 (trimmed m p).2
      ∧ Shortened ⟨d, -(f : ℤ)⟩ m p := by
  have hexact := near_digits d f
  have hd : d ≠ 0 := by
    rintro rfl
    unfold value at hvalue
    rw [Nat.cast_zero, zero_mul] at hvalue
    exact hvalue.false
  have hnone : dropOneByOne (f - maxScale) d = d := by
    rw [show f - maxScale = 0 from Nat.sub_eq_zero_of_le hshort]
    rfl
  unfold toDecimal?
  dsimp only
  rw [if_neg (by omega), neg_neg, Int.toNat_natCast, hnone, if_neg hd,
    show Nat.min f maxScale = f from Nat.min_eq_left hshort]
  obtain ⟨hnear, hplaces, hless, hmany⟩ := kept_dropToPrecision hexact
  refine ⟨_, _, rfl, hplaces.trans hshort, hless, hnear, ?_, fun hfew _ => ?_⟩
  · rcases hmany with hsame | hmany
    · left
      rw [hsame]
    · exact Or.inr hmany
  · dsimp only at hfew
    obtain ⟨g, rfl⟩ := Nat.exists_eq_succ_of_ne_zero hf.ne'
    unfold dropToPrecision
    rw [if_neg (by omega)]

/-- **A number with a fraction is shortened** by dropping digits, if it is not too small. -/
theorem exists_shortened (negative : Bool) (hexponent : x.exponent < 0)
    (hvalue : 1 / 10 ^ 11 ≤ x.value) :
    ∃ m p, toDecimal? negative x = make? negative (trimmed m p).1 (trimmed m p).2
      ∧ Shortened x m p := by
  obtain ⟨d, e⟩ := x
  obtain ⟨f, rfl⟩ : ∃ f : ℕ, e = -(f : ℤ) := ⟨(-e).toNat, by dsimp only at hexponent; omega⟩
  have hf : 0 < f := by dsimp only at hexponent; omega
  rcases Nat.lt_or_ge 28 f with hlong | hshort
  · obtain ⟨n, rfl⟩ := Nat.exists_eq_add_of_lt hlong
    exact exists_shortened_of_long negative n.succ_pos hvalue
  · exact exists_shortened_of_short negative hf hshort (lt_of_lt_of_le (by positivity) hvalue)

/-! ## §3. Integers. -/

/-- Doublings that leave room are carried out. -/
theorem double_of_room (h : 2 ^ n * d < 2 ^ 96) :
    double n ⟨d, e⟩ = some ⟨2 ^ n * d, e - n⟩ := by
  induction n generalizing d e with
  | zero => rw [pow_zero, one_mul, Nat.cast_zero, sub_zero]; rfl
  | succ n ih =>
    have hnext : 2 ^ n * (2 * d) = 2 ^ (n + 1) * d := by ring
    have hroom : d < 2 ^ 95 := by
      have hpos : 0 < 2 ^ n := by positivity
      have hle := Nat.le_mul_of_pos_left (2 * d) hpos
      omega
    unfold double
    dsimp only
    rw [if_pos hroom, ih (hnext ▸ h), hnext]
    congr 2
    push_cast
    ring

end Digits

/-! ## §4. Doubles. -/

/-- The digits `M` with `p` places that stand for the size `q` of a double. -/
structure Lifted (q : ℚ) (M p : ℕ) : Prop where
  /-- There are at most 28 places. -/
  places_le : p ≤ 28
  /-- The digits are short, unless there is no place. -/
  short : p = 0 ∨ M < 2 ^ 52
  /-- The digits can be too few by four ninths and next to nothing. -/
  lower : q * 10 ^ p * (1 - 1 / 2 ^ 80) - 4 / 9 ≤ M
  /-- They can be too many by five ninths. -/
  upper : M ≤ q * 10 ^ p + 5 / 9
  /-- They are the size, or they are many and off by little. -/
  precise : (M : ℚ) = q * 10 ^ p
    ∨ 10 ^ 6 < M ∧ |M - q * 10 ^ p| ≤ 12 * roundoff * (q * 10 ^ p)
  /-- They are the size of an integer, and of a double with few decimal digits. -/
  exact : ∀ s N : ℕ, q * 10 ^ s = N → s = 0 ∨ N < 2 ^ 52 → (M : ℚ) = q * 10 ^ p ∧ p ≤ 22

/-- An integer is its digits. -/
theorem lifted_natCast (N : ℕ) : Lifted N N 0 where
  places_le := Nat.zero_le 28
  short := Or.inl rfl
  lower := by
    have hN : (0 : ℚ) ≤ N := N.cast_nonneg
    rw [pow_zero, mul_one]
    linarith
  upper := by
    rw [pow_zero, mul_one]
    linarith
  precise := Or.inl (by rw [pow_zero, mul_one])
  exact _ _ _ _ := ⟨by rw [pow_zero, mul_one], Nat.zero_le 22⟩

section Odd

variable {b n : ℕ} {m p : ℕ}

theorem value_halves (b n : ℕ) :
    5 ^ n * (Digits.mk b (-(n : ℤ))).value = (b : ℚ) / 2 ^ n := by
  unfold Digits.value
  rw [zpow_neg, zpow_natCast, show (10 : ℚ) = 2 * 5 by norm_num, mul_pow]
  field_simp

/-- All cuts together are next to nothing. -/
theorem halve_value_bounds (hn : n ≤ 86) :
    (b : ℚ) / 2 ^ n * (1 - 1 / 2 ^ 80) ≤ (Digits.halve n ⟨b, -n⟩).value
      ∧ (Digits.halve n ⟨b, -n⟩).value ≤ b / 2 ^ n := by
  have hupper := Digits.halve_value_le n ⟨b, -n⟩
  have hlower := Digits.le_halve_value n ⟨b, -n⟩
  rw [value_halves] at hupper hlower
  have hfactor : (1 + 1 / 2 ^ 92 : ℚ) ^ n ≤ 1 + 1 / 2 ^ 80 :=
    (pow_le_pow_right₀ (by norm_num) hn).trans (by norm_num)
  have hnonneg : 0 ≤ (Digits.halve n ⟨b, -n⟩).value := by
    unfold Digits.value
    positivity
  have hbound := hlower.trans (mul_le_mul_of_nonneg_left hfactor hnonneg)
  exact ⟨by linarith, hupper⟩

theorem halves_le (hb : b < 2 ^ 53) (hsize : 1 / 10 ^ 10 ≤ (b : ℚ) / 2 ^ n) : n ≤ 86 := by
  have hbits : (b : ℚ) < 2 ^ 53 := by exact_mod_cast hb
  by_contra hmany
  have hpow : (2 : ℚ) ^ 87 ≤ 2 ^ n := pow_le_pow_right₀ one_le_two (by omega)
  rw [le_div_iff₀ (by positivity)] at hsize
  linarith

/-- A number with few decimal digits has few halves. -/
theorem le_of_digits {s N : ℕ} (hodd : b % 2 = 1) (h : (b : ℚ) / 2 ^ n * 10 ^ s = N) :
    n ≤ s ∧ 5 ^ n * b ≤ N := by
  have hnat : b * 10 ^ s = N * 2 ^ n := by
    rw [div_mul_eq_mul_div, div_eq_iff (by positivity)] at h
    exact_mod_cast h
  -- all twos on the left are those of `10 ^ s`
  have hcoprime : Nat.Coprime (2 ^ n) (b * 5 ^ s) := by
    apply Nat.Coprime.pow_left
    rw [Nat.coprime_two_left]
    exact (Nat.odd_iff.2 hodd).mul (Odd.pow (by decide))
  have hsplit : b * 10 ^ s = b * 5 ^ s * 2 ^ s := by
    rw [show 10 = 5 * 2 from rfl, mul_pow, mul_assoc]
  have hle : n ≤ s := by
    have hdvd : 2 ^ n ∣ b * 5 ^ s * 2 ^ s := by
      rw [← hsplit, hnat]
      exact Nat.dvd_mul_left _ _
    exact (Nat.pow_dvd_pow_iff_le_right (by norm_num)).1 (hcoprime.dvd_of_dvd_mul_left hdvd)
  obtain ⟨d, rfl⟩ := Nat.exists_eq_add_of_le hle
  have hN : N = 5 ^ n * b * (5 ^ d * 2 ^ d) := by
    have hpos : 0 < 2 ^ n := by positivity
    apply Nat.eq_of_mul_eq_mul_right hpos
    rw [← hnat, hsplit, pow_add, pow_add]
    ring
  exact ⟨hle, hN ▸ Nat.le_mul_of_pos_right _ (by positivity)⟩

/-- What is left of many digits is many digits, off by little. -/
theorem precise_of_many {y : ℚ} (hlower : y * (1 - 1 / 2 ^ 80) - 4 / 9 ≤ m) (hupper : m ≤ y + 5 / 9)
    (hmany : 2 ^ 52 ≤ 10 * m + 4) : 10 ^ 6 < m ∧ |m - y| ≤ 12 * roundoff * y := by
  have hmany' : (2 : ℚ) ^ 52 ≤ 10 * m + 4 := by exact_mod_cast hmany
  refine ⟨by omega, ?_⟩
  unfold roundoff
  rw [abs_le]
  constructor <;> linarith

/-- Where nothing is dropped, what is cut off is next to nothing. -/
theorem precise_of_cut {y : ℚ} (hlower : y * (1 - 1 / 2 ^ 80) ≤ m) (hupper : m ≤ y)
    (hgreat : 10 ^ 8 ≤ y) : 10 ^ 6 < m ∧ |m - y| ≤ 12 * roundoff * y := by
  constructor
  · have hlt : (10 : ℚ) ^ 6 < m := by linarith
    exact_mod_cast hlt
  · unfold roundoff
    rw [abs_le]
    constructor <;> linarith

/-- Where a digit was cut off there are many places. -/
theorem le_places_of_long (hodd : b % 2 = 1) (hb : b < 2 ^ 53) (hlong : 2 ^ 96 ≤ 5 ^ n * b)
    (h : Digits.halve n ⟨b, -n⟩ = ⟨m, -p⟩) : 18 ≤ p := by
  have hroom := Digits.le_halve_exponent (e := -n) hodd hlong
  rw [h] at hroom
  have hplaces : (-(n : ℤ) + n - -(p : ℤ)).toNat = p := by omega
  rw [hplaces] at hroom
  by_contra hfew
  have hfives : 5 ^ (p + 1) ≤ 5 ^ 18 := Nat.pow_le_pow_right (by norm_num) (by omega)
  have hproduct : 5 ^ (p + 1) * b ≤ 5 ^ 18 * 2 ^ 53 := Nat.mul_le_mul hfives hb.le
  exact absurd (hroom.trans hproduct) (by norm_num)

/-- **An odd number of halves is lifted** with digits that are short and off by little. -/
theorem lifted_of_odd (hodd : b % 2 = 1) (hn : 0 < n) (hb : b < 2 ^ 53)
    (hsize : 1 / 10 ^ 10 ≤ (b : ℚ) / 2 ^ n)
    (h : Digits.Shortened (Digits.halve n ⟨b, -n⟩) m p) : Lifted (b / 2 ^ n) m p := by
  obtain ⟨hvalueLow, hvalueHigh⟩ := halve_value_bounds (b := b) (halves_le hb hsize)
  have hshort (hroom : 5 ^ n * b < 2 ^ 96) : Digits.halve n ⟨b, -n⟩ = ⟨5 ^ n * b, -n⟩ :=
    Digits.halve_of_short hodd hroom
  have hdigits : ((5 ^ n * b : ℕ) : ℚ) = b / 2 ^ n * 10 ^ n := by
    rw [show (10 : ℚ) = 2 * 5 by norm_num, mul_pow]
    push_cast
    field_simp
  have hpow : (0 : ℚ) < 10 ^ p := by positivity
  have hlower : (b : ℚ) / 2 ^ n * 10 ^ p * (1 - 1 / 2 ^ 80) - 4 / 9 ≤ m := by
    have hscaled := mul_le_mul_of_nonneg_right hvalueLow hpow.le
    linarith [h.near.lower]
  have hupper : (m : ℚ) ≤ b / 2 ^ n * 10 ^ p + 5 / 9 := by
    have hscaled := mul_le_mul_of_nonneg_right hvalueHigh hpow.le
    linarith [h.near.upper]
  refine ⟨h.places_le, h.short, hlower, hupper, ?_, fun s N hN hfew => ?_⟩
  · rcases h.many with hsame | hmany
    · rcases lt_or_ge (5 ^ n * b) (2 ^ 96) with hroom | hlong
      · -- neither cut nor dropped
        left
        rw [hshort hroom] at hsame
        injection hsame with hm hp
        obtain rfl : n = p := by omega
        rw [← hm, hdigits]
      · -- cut, but not dropped: there are many places, and so many digits
        right
        have hplaces := le_places_of_long hodd hb hlong hsame
        have hm : (m : ℚ) = (Digits.halve n ⟨b, -n⟩).value * 10 ^ p := by
          rw [hsame, Digits.value, zpow_neg, zpow_natCast, inv_mul_cancel_right₀ hpow.ne']
        have hmLow := mul_le_mul_of_nonneg_right hvalueLow hpow.le
        have hmHigh := mul_le_mul_of_nonneg_right hvalueHigh hpow.le
        rw [← hm] at hmLow hmHigh
        have hgreat : (1 : ℚ) / 10 ^ 10 * 10 ^ 18 ≤ b / 2 ^ n * 10 ^ p :=
          mul_le_mul hsize (pow_le_pow_right₀ (by norm_num) hplaces) (by positivity) (by positivity)
        exact precise_of_cut (by linarith) hmHigh (by linarith)
    · exact Or.inr (precise_of_many hlower hupper hmany)
  · -- few decimal digits are neither cut nor dropped
    obtain ⟨hle, hproduct⟩ := le_of_digits hodd hN
    have hN : N < 2 ^ 52 := hfew.resolve_left (by omega)
    have hfives : n ≤ 22 := by
      by_contra hmany
      have hfive : 5 ^ 23 ≤ 5 ^ n := Nat.pow_le_pow_right (by norm_num) (by omega)
      have hb' : 5 ^ n ≤ 5 ^ n * b := Nat.le_mul_of_pos_right _ (by omega)
      omega
    have hroom : 5 ^ n * b < 2 ^ 96 := by omega
    have hsame := h.same
    rw [hshort hroom] at hsame
    have heq := hsame (by dsimp only; omega) (by dsimp only; omega)
    injection heq with hm hp
    obtain rfl : n = p := by omega
    exact ⟨by rw [← hm, hdigits], hfives⟩

/-- The first half of an odd number makes a five. -/
theorem halve_exponent_neg (hodd : b % 2 = 1) (hb : b < 2 ^ 53) (hn : 0 < n) :
    (Digits.halve n ⟨b, -n⟩).exponent < 0 := by
  obtain ⟨k, rfl⟩ := Nat.exists_eq_succ_of_ne_zero hn.ne'
  have hle := (Digits.halve_exponent k ⟨5 * b, -(k + 1 : ℕ)⟩).2
  rw [Digits.halve]
  dsimp only at hle ⊢
  rw [if_neg (by omega), if_pos (by omega)]
  push_cast at hle ⊢
  omega

theorem exists_lifted_of_odd (negative : Bool) (hodd : b % 2 = 1) (hn : 0 < n) (hb : b < 2 ^ 53)
    (hsize : 1 / 10 ^ 10 ≤ (b : ℚ) / 2 ^ n) :
    ∃ M p, (Digits.halve n ⟨b, -n⟩).toDecimal? negative
        = make? negative (trimmed M p).1 (trimmed M p).2
      ∧ Lifted (b / 2 ^ n) M p := by
  have hvalue := (halve_value_bounds (b := b) (halves_le hb hsize)).1
  obtain ⟨M, p, hshort, hM⟩ := Digits.exists_shortened negative (halve_exponent_neg hodd hb hn)
    (by linarith : 1 / 10 ^ 11 ≤ (Digits.halve n ⟨b, -n⟩).value)
  exact ⟨M, p, hshort, lifted_of_odd hodd hn hb hsize hM⟩

end Odd

theorem Lifted.lt_limit {q : ℚ} {M p : ℕ} (h : Lifted q M p) (hq : q < 2 ^ 96 - 1) :
    M < 2 ^ 96 := by
  rcases h.short with rfl | hless
  · have hM := h.upper
    rw [pow_zero, mul_one] at hM
    have hlt : (M : ℚ) < 2 ^ 96 := by linarith
    exact_mod_cast hlt
  · omega

/-- A magnitude is an integer, or an odd number of halves. -/
theorem integer_or_halves (b : ℕ) (hb : 0 < b) (k : ℕ) :
    (∃ N, Digits.halve k ⟨b, -k⟩ = ⟨N, 0⟩ ∧ (b : ℚ) / 2 ^ k = N)
      ∨ ∃ d n, d % 2 = 1 ∧ 0 < n ∧ d ≤ b
          ∧ Digits.halve k ⟨b, -k⟩ = Digits.halve n ⟨d, -n⟩ ∧ (b : ℚ) / 2 ^ k = d / 2 ^ n := by
  obtain ⟨t, d, hodd, rfl⟩ := Nat.exists_eq_two_pow_mul_odd hb.ne'
  -- the number has as many twos as there are halves, or not
  rcases le_or_gt k t with hle | hlt
  · obtain ⟨j, rfl⟩ := Nat.exists_eq_add_of_le hle
    have hhalve := Digits.halve_two_pow k 0 (2 ^ j * d) (-k)
    rw [← mul_assoc, ← pow_add, Nat.add_zero, neg_add_cancel] at hhalve
    refine Or.inl ⟨2 ^ j * d, hhalve, ?_⟩
    rw [pow_add]
    push_cast
    field_simp
  · obtain ⟨n, rfl⟩ := Nat.exists_eq_add_of_le hlt.le
    have hhalve := Digits.halve_two_pow t n d (-(t + n : ℕ))
    have hstart : -((t + n : ℕ) : ℤ) + t = -(n : ℤ) := by
      push_cast
      ring
    rw [hstart] at hhalve
    refine Or.inr ⟨d, n, Nat.odd_iff.1 hodd, by omega, Nat.le_mul_of_pos_left d (by positivity),
      hhalve, ?_⟩
    rw [pow_add]
    push_cast
    field_simp

/-- **A double of moderate size is lifted** with digits that stand for its size. -/
theorem exists_lifted {x : Float} {m : Magnitude} (hx : Binary64.magnitude? x = some m)
    (hlow : 1 / 10 ^ 10 ≤ m.value) (hhigh : m.value < 2 ^ 96 - 1) :
    ∃ M p, lift? x = make? (Binary64.signBit x) (trimmed M p).1 (trimmed M p).2
      ∧ Lifted m.value M p := by
  have hbits := (Binary64.canonical_of_magnitude? hx).significand_lt
  obtain ⟨b, e⟩ := m
  have hb : 0 < b := by
    rcases Nat.eq_zero_or_pos b with rfl | hpos
    · unfold Magnitude.value at hlow
      norm_num at hlow
    · exact hpos
  have hlift : lift? x = if 0 ≤ e then
        ((Digits.mk b e).double e.toNat).bind (·.toDecimal? (Binary64.signBit x))
      else ((Digits.mk b e).halve (-e).toNat).toDecimal? (Binary64.signBit x) := by
    unfold lift?
    rw [hx]
    exact if_neg hb.ne'
  rcases le_or_gt 0 e with hsign | hsign
  · -- no halves
    obtain ⟨n, rfl⟩ := Int.eq_ofNat_of_zero_le hsign
    have hvalue := Magnitude.value_of_nonneg b n
    have hroom : 2 ^ n * b < 2 ^ 96 := by
      have hlt : ((2 ^ n * b : ℕ) : ℚ) < 2 ^ 96 := by linarith
      exact_mod_cast hlt
    refine ⟨2 ^ n * b, 0, ?_, hvalue ▸ lifted_natCast _⟩
    rw [hlift, if_pos hsign, Int.toNat_natCast, Digits.double_of_room hroom, sub_self]
    rfl
  · obtain ⟨k, rfl⟩ : ∃ k : ℕ, e = -(k : ℤ) := ⟨(-e).toNat, by omega⟩
    rw [if_neg (by omega), neg_neg, Int.toNat_natCast] at hlift
    rw [Magnitude.value_of_neg] at hlow ⊢
    rcases integer_or_halves b hb k with ⟨N, hhalve, hN⟩ | ⟨d, n, hodd, hn, hle, hhalve, hd⟩
    · refine ⟨N, 0, ?_, hN ▸ lifted_natCast N⟩
      rw [hlift, hhalve]
      rfl
    · rw [hd] at hlow ⊢
      rw [hlift, hhalve]
      exact exists_lifted_of_odd _ hodd hn (hle.trans_lt hbits) hlow

end ShapeEstimator.Decimal
