/-
  ShapeEstimator.Proofs.Decimal.Rounding
  ────────────────────────────────
  **ROUNDING TO DECIMALS, AS A FUNCTION OF RATIONALS.**

  Sums, products and quotients of decimals are exact results cut to size.  How a
  result is cut depends on its value only, so one function says it for all of them:

      rounded q  =  q with as many places as it has room for, a tie going to even

  The function is monotone and odd, and leaves decimals and integers alone.  That
  is all that bounds on formulas need.
-/
import Mathlib.Algebra.Order.Field.Basic
import Mathlib.Data.Nat.Find
import Mathlib.Data.Rat.Cast.Order
import Mathlib.Tactic.FieldSimp
import Mathlib.Tactic.Linarith
import Mathlib.Tactic.NormNum
import Mathlib.Tactic.Positivity
import Mathlib.Tactic.Ring
import ShapeEstimator.Decimal.Arithmetic

namespace ShapeEstimator

/-! ## §1. Half to even. -/

/-- A nearest integer of a number, even where two are equally near. -/
structure IsHalfEven (q : ℚ) (n : ℕ) : Prop where
  /-- The number is at most half a unit below the integer. -/
  lower : (n : ℚ) - 1 / 2 ≤ q
  /-- The number is at most half a unit above the integer. -/
  upper : q ≤ n + 1 / 2
  /-- An odd integer is nearer than any other. -/
  even : n % 2 = 1 → (n : ℚ) - 1 / 2 < q ∧ q < n + 1 / 2

theorem isHalfEven_nearestEven (a : ℕ) {b : ℕ} (hb : 0 < b) :
    IsHalfEven ((a : ℚ) / b) (nearestEven a b) := by
  have hbq : (0 : ℚ) < b := by exact_mod_cast hb
  have hdiv : (a : ℚ) = b * (a / b : ℕ) + (a % b : ℕ) := by
    exact_mod_cast (Nat.div_add_mod a b).symm
  have hquotient : (a : ℚ) / b = (a / b : ℕ) + ((a % b : ℕ) : ℚ) / b := by
    rw [hdiv]
    field_simp
  have hrest : ((a % b : ℕ) : ℚ) / b < 1 := by
    rw [div_lt_one hbq]
    exact_mod_cast Nat.mod_lt a hb
  have hrest' : (0 : ℚ) ≤ ((a % b : ℕ) : ℚ) / b := by positivity
  -- the rest against a half, as rationals and as naturals
  have hlt : (1 : ℚ) / 2 < ((a % b : ℕ) : ℚ) / b ↔ b < 2 * (a % b) := by
    rw [div_lt_div_iff₀ two_pos hbq, one_mul, mul_comm]
    exact_mod_cast Iff.rfl
  have hgt : ((a % b : ℕ) : ℚ) / b < 1 / 2 ↔ 2 * (a % b) < b := by
    rw [div_lt_div_iff₀ hbq two_pos, one_mul, mul_comm]
    exact_mod_cast Iff.rfl
  rw [hquotient]
  unfold nearestEven
  split
  · rename_i hup
    have hhalf : (1 : ℚ) / 2 ≤ ((a % b : ℕ) : ℚ) / b := by
      rw [← not_lt, hgt]
      omega
    refine ⟨?_, ?_, ?_⟩
    · push_cast
      linarith
    · push_cast
      linarith
    · intro hodd
      have hmore : (1 : ℚ) / 2 < ((a % b : ℕ) : ℚ) / b := hlt.2 (by omega)
      push_cast
      constructor <;> linarith
  · rename_i hdown
    have hhalf : ((a % b : ℕ) : ℚ) / b ≤ 1 / 2 := by
      rw [← not_lt, hlt]
      omega
    refine ⟨?_, ?_, ?_⟩
    · linarith
    · linarith
    · intro hodd
      have hless : ((a % b : ℕ) : ℚ) / b < 1 / 2 := hgt.2 (by omega)
      constructor <;> linarith

namespace IsHalfEven

variable {q r : ℚ} {n m : ℕ}

/-- Rounding half to even is monotone. -/
theorem mono (hn : IsHalfEven q n) (hm : IsHalfEven r m) (hqr : q ≤ r) : n ≤ m := by
  by_contra hlt
  have hstep : (m : ℚ) + 1 ≤ n := by exact_mod_cast (not_le.1 hlt : m < n)
  have hlower := hn.lower
  have hupper := hm.upper
  -- both numbers are half way between neighbours, of which one is odd
  have hnext : n = m + 1 := by
    have : (n : ℚ) = (m + 1 : ℕ) := by
      push_cast
      linarith
    exact_mod_cast this
  rcases Nat.mod_two_eq_zero_or_one m with heven | hodd
  · have h := (hn.even (by omega)).1
    linarith
  · have h := (hm.even hodd).2
    linarith

theorem unique (hn : IsHalfEven q n) (hm : IsHalfEven q m) : n = m :=
  le_antisymm (hn.mono hm le_rfl) (hm.mono hn le_rfl)

theorem natCast (n : ℕ) : IsHalfEven (n : ℚ) n :=
  ⟨by linarith, by linarith, fun _ => ⟨by linarith, by linarith⟩⟩

end IsHalfEven

/-- A number that is not negative, rounded to an integer, a tie to the even one. -/
def halfEven (q : ℚ) : ℕ := nearestEven q.num.natAbs q.den

theorem isHalfEven_halfEven {q : ℚ} (hq : 0 ≤ q) : IsHalfEven q (halfEven q) := by
  have h := isHalfEven_nearestEven q.num.natAbs q.den_pos
  have hnum : ((q.num.natAbs : ℕ) : ℚ) = q.num := by
    rw [← Int.cast_natCast, Int.natAbs_of_nonneg (Rat.num_nonneg.2 hq)]
  rwa [hnum, Rat.num_div_den] at h

theorem halfEven_div (a : ℕ) {b : ℕ} (hb : 0 < b) : halfEven ((a : ℚ) / b) = nearestEven a b :=
  (isHalfEven_halfEven (by positivity)).unique (isHalfEven_nearestEven a hb)

@[simp] theorem halfEven_natCast (n : ℕ) : halfEven (n : ℚ) = n :=
  (isHalfEven_halfEven n.cast_nonneg).unique (IsHalfEven.natCast n)

theorem halfEven_mono {q r : ℚ} (hq : 0 ≤ q) (hqr : q ≤ r) : halfEven q ≤ halfEven r :=
  (isHalfEven_halfEven hq).mono (isHalfEven_halfEven (hq.trans hqr)) hqr

namespace Decimal

/-! ## §2. Places. -/

/-- How many places there is room for behind the point. -/
def places (q : ℚ) : ℕ := Nat.findGreatest (fun p => q * 10 ^ p < 2 ^ 96) 28

theorem places_le (q : ℚ) : places q ≤ 28 := Nat.findGreatest_le _

theorem mul_pow_places_lt {q : ℚ} (h : q < 2 ^ 96) : q * 10 ^ places q < 2 ^ 96 := by
  have h0 : q * 10 ^ 0 < 2 ^ 96 := by simpa using h
  exact Nat.findGreatest_spec (P := fun p => q * 10 ^ p < 2 ^ 96) (Nat.zero_le 28) h0

/-- One place more is too much for the coefficient, or for the scale. -/
theorem le_mul_pow_places_succ {q : ℚ} {p : ℕ} (h : places q < p) (hp : p ≤ 28) :
    (2 : ℚ) ^ 96 ≤ q * 10 ^ p :=
  not_lt.1 (Nat.findGreatest_is_greatest h hp)

theorem places_eq {q : ℚ} {p : ℕ} (hp : p ≤ 28) (hlt : q * 10 ^ p < 2 ^ 96)
    (hnext : p = 28 ∨ (2 : ℚ) ^ 96 ≤ q * 10 ^ (p + 1)) : places q = p := by
  have hge : p ≤ places q := Nat.le_findGreatest hp hlt
  rcases hnext with rfl | hnext
  · exact le_antisymm (places_le q) hge
  · by_contra hne
    have hlt : p + 1 ≤ places q := by omega
    have hq : 0 ≤ q := by
      by_contra hneg
      have : q * 10 ^ (p + 1) < 0 := mul_neg_of_neg_of_pos (not_le.1 hneg) (by positivity)
      have : (0 : ℚ) < 2 ^ 96 := by positivity
      linarith
    have hpow : (10 : ℚ) ^ (p + 1) ≤ 10 ^ places q := pow_le_pow_right₀ (by norm_num) hlt
    have hfit : q * 10 ^ places q < 2 ^ 96 := by
      apply mul_pow_places_lt
      have h0 : q * 1 ≤ q * 10 ^ p := mul_le_mul_of_nonneg_left (one_le_pow₀ (by norm_num)) hq
      linarith
    have := mul_le_mul_of_nonneg_left hpow hq
    linarith

/-! ## §3. Numbers that are not negative. -/

/-- A coefficient that came out one too long loses a digit. -/
def carried (m : ℕ) : ℕ := if m < 2 ^ 96 then m else dropDigits m 1 * 10

theorem carried_of_lt {m : ℕ} (h : m < 2 ^ 96) : carried m = m := if_pos h

/-- The tenth of the first coefficient that is too long, rounded. -/
theorem carried_limit : carried (2 ^ 96) = 7922816251426433759354395034 * 10 := by decide

theorem le_carried {m : ℕ} (h : m ≤ 2 ^ 96) : m ≤ carried m := by
  rcases h.lt_or_eq with hlt | rfl
  · rw [carried_of_lt hlt]
  · rw [carried_limit]
    decide

theorem carried_le {m : ℕ} (h : m ≤ 2 ^ 96) : carried m ≤ 7922816251426433759354395034 * 10 := by
  rcases h.lt_or_eq with hlt | rfl
  · rw [carried_of_lt hlt]
    exact le_trans hlt.le (by decide)
  · rw [carried_limit]

theorem carried_mono {m n : ℕ} (hmn : m ≤ n) (hn : n ≤ 2 ^ 96) : carried m ≤ carried n := by
  rcases (hmn.trans hn).lt_or_eq with hlt | rfl
  · rw [carried_of_lt hlt]
    exact hmn.trans (le_carried hn)
  · rw [le_antisymm hmn hn]

/-- Whether a number is so small that rounding it to an integer gives a coefficient. -/
def Fits (q : ℚ) : Prop := q < 2 ^ 96 - 1 / 2

instance (q : ℚ) : Decidable (Fits q) := inferInstanceAs (Decidable (q < 2 ^ 96 - 1 / 2))

theorem Fits.lt {q : ℚ} (h : Fits q) : q < 2 ^ 96 := by
  unfold Fits at h
  linarith

/-- A number that is not negative, cut to size.  A number out of range stays. -/
def roundedSize (q : ℚ) : ℚ :=
  if Fits q then carried (halfEven (q * 10 ^ places q)) / 10 ^ places q else q

theorem halfEven_le_limit {q : ℚ} (h0 : 0 ≤ q) (h : q < 2 ^ 96) : halfEven q ≤ 2 ^ 96 := by
  have hcast : q ≤ ((2 ^ 96 : ℕ) : ℚ) := by
    push_cast
    exact h.le
  have hmono := halfEven_mono h0 hcast
  rwa [halfEven_natCast] at hmono

theorem roundedSize_eq {q : ℚ} {p : ℕ} (h : Fits q) (hp : p ≤ 28) (hlt : q * 10 ^ p < 2 ^ 96)
    (hnext : p = 28 ∨ (2 : ℚ) ^ 96 ≤ q * 10 ^ (p + 1)) :
    roundedSize q = carried (halfEven (q * 10 ^ p)) / 10 ^ p := by
  unfold roundedSize
  rw [if_pos h, places_eq hp hlt hnext]

theorem roundedSize_of_not_fits {q : ℚ} (h : ¬ Fits q) : roundedSize q = q := if_neg h

theorem roundedSize_nonneg {q : ℚ} (hq : 0 ≤ q) : 0 ≤ roundedSize q := by
  unfold roundedSize
  split
  · positivity
  · exact hq

/-- A number that has a coefficient and places is not rounded. -/
theorem roundedSize_decimal {c s : ℕ} (hc : c < 2 ^ 96) (hs : s ≤ 28) :
    roundedSize ((c : ℚ) / 10 ^ s) = c / 10 ^ s := by
  by_cases hfit : Fits ((c : ℚ) / 10 ^ s)
  · have hpow : (10 : ℚ) ^ s ≠ 0 := by positivity
    have hp : s ≤ places ((c : ℚ) / 10 ^ s) := by
      apply Nat.le_findGreatest hs
      rw [div_mul_cancel₀ _ hpow]
      exact_mod_cast hc
    obtain ⟨d, hd⟩ := Nat.exists_eq_add_of_le hp
    have hscaled : (c : ℚ) / 10 ^ s * 10 ^ places ((c : ℚ) / 10 ^ s) = ((c * 10 ^ d : ℕ) : ℚ) := by
      rw [hd, pow_add, ← mul_assoc, div_mul_cancel₀ _ hpow]
      push_cast
      rfl
    have hlt : c * 10 ^ d < 2 ^ 96 := by
      have h := mul_pow_places_lt hfit.lt
      rw [hscaled] at h
      exact_mod_cast h
    unfold roundedSize
    rw [if_pos hfit, hscaled, halfEven_natCast, carried_of_lt hlt, hd, pow_add]
    push_cast
    field_simp
  · exact roundedSize_of_not_fits hfit

theorem places_anti {q r : ℚ} (hqr : q ≤ r) (hr : r < 2 ^ 96) : places r ≤ places q := by
  apply Nat.le_findGreatest (places_le r)
  have hmul : q * 10 ^ places r ≤ r * 10 ^ places r := mul_le_mul_of_nonneg_right hqr (by positivity)
  exact hmul.trans_lt (mul_pow_places_lt hr)

theorem halfEven_lt_limit {q : ℚ} (h0 : 0 ≤ q) (h : Fits q) : halfEven q < 2 ^ 96 := by
  by_contra hge
  have hlower := (isHalfEven_halfEven h0).lower
  have hcast : (2 : ℚ) ^ 96 ≤ halfEven q := by exact_mod_cast not_lt.1 hge
  unfold Fits at h
  linarith

/-- What fits is not rounded beyond what does not fit. -/
theorem roundedSize_le_of_not_fits {q r : ℚ} (h0 : 0 ≤ q) (hq : Fits q) (hr : ¬ Fits r) :
    roundedSize q ≤ r := by
  have hbig : (2 : ℚ) ^ 96 - 1 / 2 ≤ r := not_lt.1 hr
  unfold roundedSize
  rw [if_pos hq]
  rcases Nat.eq_zero_or_pos (places q) with hzero | hpos
  · have hlt := halfEven_lt_limit h0 hq
    rw [hzero, pow_zero, mul_one, div_one, carried_of_lt hlt]
    have hcast : (halfEven q : ℚ) + 1 ≤ 2 ^ 96 := by exact_mod_cast hlt
    linarith
  · have hle := carried_le (halfEven_le_limit (by positivity) (mul_pow_places_lt hq.lt))
    have hcast : (carried (halfEven (q * 10 ^ places q)) : ℚ) ≤ 7922816251426433759354395034 * 10 := by
      exact_mod_cast hle
    have hten : (10 : ℚ) ≤ 10 ^ places q := le_self_pow₀ (by norm_num) (by omega)
    have hdiv : (carried (halfEven (q * 10 ^ places q)) : ℚ) / 10 ^ places q
        ≤ 7922816251426433759354395034 * 10 / 10 :=
      div_le_div₀ (by norm_num) hcast (by norm_num) hten
    norm_num at hdiv hbig
    linarith

/-- A number that has no room for a place more has at least a tenth of the greatest coefficient. -/
theorem tenth_le_halfEven {r : ℚ} (hplaces : places r < 28) :
    7922816251426433759354395034 ≤ halfEven (r * 10 ^ places r) := by
  have htenth : (2 : ℚ) ^ 96 / 10 ≤ r * 10 ^ places r := by
    have h := le_mul_pow_places_succ (Nat.lt_succ_self _) hplaces
    rw [Nat.succ_eq_add_one, pow_succ 10 (places r), ← mul_assoc] at h
    linarith
  have h : halfEven ((2 ^ 96 : ℕ) / ((10 : ℕ) : ℚ)) ≤ halfEven (r * 10 ^ places r) := by
    apply halfEven_mono (by positivity)
    push_cast
    exact htenth
  rw [halfEven_div _ (by norm_num)] at h
  exact le_trans (by decide) h

/-- Rounding is monotone. -/
theorem roundedSize_mono {q r : ℚ} (h0 : 0 ≤ q) (hqr : q ≤ r) : roundedSize q ≤ roundedSize r := by
  by_cases hr : Fits r
  · have hq : Fits q := lt_of_le_of_lt hqr hr
    have h0' : 0 ≤ r := h0.trans hqr
    have hqm := halfEven_le_limit (q := q * 10 ^ places q) (by positivity) (mul_pow_places_lt hq.lt)
    have hrm := halfEven_le_limit (q := r * 10 ^ places r) (by positivity) (mul_pow_places_lt hr.lt)
    unfold roundedSize
    rw [if_pos hq, if_pos hr]
    rcases (places_anti hqr hr.lt).lt_or_eq with hlt | heq
    · -- the greater number has fewer places, so it is at least a coefficient that was carried
      have htenth := tenth_le_halfEven (hlt.trans_le (places_le q))
      have hupper : (carried (halfEven (q * 10 ^ places q)) : ℚ)
          ≤ 7922816251426433759354395034 * 10 := by exact_mod_cast carried_le hqm
      have hlower : (7922816251426433759354395034 : ℚ)
          ≤ carried (halfEven (r * 10 ^ places r)) := by exact_mod_cast htenth.trans (le_carried hrm)
      have hpow : (10 : ℚ) * 10 ^ places r ≤ 10 ^ places q := by
        rw [← pow_succ']
        exact pow_le_pow_right₀ (by norm_num) hlt
      calc (carried (halfEven (q * 10 ^ places q)) : ℚ) / 10 ^ places q
          ≤ 7922816251426433759354395034 * 10 / (10 * 10 ^ places r) :=
            div_le_div₀ (by norm_num) hupper (by positivity) hpow
        _ = 7922816251426433759354395034 / 10 ^ places r := by
            rw [mul_comm (10 : ℚ), mul_div_mul_right _ _ (by norm_num)]
        _ ≤ carried (halfEven (r * 10 ^ places r)) / 10 ^ places r := by
            gcongr
    · have hm : halfEven (q * 10 ^ places q) ≤ halfEven (r * 10 ^ places r) := by
        apply halfEven_mono (by positivity)
        rw [heq]
        gcongr
      have hcarried : (carried (halfEven (q * 10 ^ places q)) : ℚ)
          ≤ carried (halfEven (r * 10 ^ places r)) := by exact_mod_cast carried_mono hm hrm
      rw [heq] at hcarried ⊢
      gcongr
  · rw [roundedSize_of_not_fits hr]
    by_cases hq : Fits q
    · exact roundedSize_le_of_not_fits h0 hq hr
    · rw [roundedSize_of_not_fits hq]
      exact hqr

theorem roundedSize_natCast (n : ℕ) : roundedSize n = n := by
  by_cases h : n < 2 ^ 96
  · have hdecimal := roundedSize_decimal h (Nat.zero_le 28)
    rwa [pow_zero, div_one] at hdecimal
  · apply roundedSize_of_not_fits
    unfold Fits
    have hcast : (2 : ℚ) ^ 96 ≤ n := by exact_mod_cast not_lt.1 h
    linarith

/-! ## §4. All numbers. -/

/-- A number with a sign. -/
def signed (negative : Bool) (q : ℚ) : ℚ := if negative then -q else q

/-- A number cut to size. -/
def rounded (q : ℚ) : ℚ := signed (decide (q < 0)) (roundedSize |q|)

theorem rounded_of_nonneg {q : ℚ} (h : 0 ≤ q) : rounded q = roundedSize q := by
  unfold rounded signed
  rw [decide_eq_false (not_lt.2 h), abs_of_nonneg h]
  rfl

theorem rounded_neg (q : ℚ) : rounded (-q) = -rounded q := by
  have hzero : roundedSize 0 = 0 := by exact_mod_cast roundedSize_natCast 0
  rcases lt_trichotomy q 0 with h | rfl | h
  · rw [rounded_of_nonneg (by linarith)]
    unfold rounded signed
    rw [decide_eq_true h, abs_of_neg h]
    simp
  · rw [neg_zero, rounded_of_nonneg le_rfl, hzero, neg_zero]
  · rw [rounded_of_nonneg h.le]
    unfold rounded signed
    rw [decide_eq_true (by linarith : -q < 0), abs_neg, abs_of_pos h]
    rfl

theorem rounded_signed (negative : Bool) {q : ℚ} (h : 0 ≤ q) :
    rounded (signed negative q) = signed negative (roundedSize q) := by
  cases negative with
  | false => exact rounded_of_nonneg h
  | true => exact (rounded_neg q).trans (congrArg Neg.neg (rounded_of_nonneg h))

theorem rounded_nonneg {q : ℚ} (h : 0 ≤ q) : 0 ≤ rounded q := by
  rw [rounded_of_nonneg h]
  exact roundedSize_nonneg h

/-- **Rounding is monotone.** -/
theorem rounded_mono : Monotone rounded := by
  intro q r hqr
  rcases le_or_gt 0 q with hq | hq
  · rw [rounded_of_nonneg hq, rounded_of_nonneg (hq.trans hqr)]
    exact roundedSize_mono hq hqr
  · rcases le_or_gt 0 r with hr | hr
    · -- a negative number stays at most zero
      have hneg := rounded_nonneg (q := -q) (by linarith)
      rw [rounded_neg] at hneg
      exact le_trans (by linarith) (rounded_nonneg hr)
    · have h := roundedSize_mono (q := -r) (r := -q) (by linarith) (by linarith)
      rw [← rounded_of_nonneg (by linarith), ← rounded_of_nonneg (by linarith), rounded_neg,
        rounded_neg] at h
      linarith

@[simp] theorem rounded_intCast (n : ℤ) : rounded (n : ℚ) = n := by
  obtain ⟨m, rfl | rfl⟩ := n.eq_nat_or_neg
  · rw [Int.cast_natCast, rounded_of_nonneg (by positivity), roundedSize_natCast]
  · rw [Int.cast_neg, rounded_neg, Int.cast_natCast, rounded_of_nonneg (by positivity),
      roundedSize_natCast]

theorem le_rounded {n : ℤ} {q : ℚ} (h : (n : ℚ) ≤ q) : (n : ℚ) ≤ rounded q := by
  rw [← rounded_intCast n]
  exact rounded_mono h

theorem rounded_le {n : ℤ} {q : ℚ} (h : q ≤ n) : rounded q ≤ n := by
  rw [← rounded_intCast n]
  exact rounded_mono h

end Decimal

end ShapeEstimator
