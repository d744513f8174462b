/-
  ShapeEstimator.Proofs.Decimal.Quotient
  ────────────────────────────────
  **LONG DIVISION ROUNDS THE QUOTIENT.**

  At every step of a long division the exact quotient is what the state says:

      quotient · 10 ^ scale  =  digits so far + remainder / divisor

  Where digits end, what is left decides the last one.  So the decimal that comes
  out is the exact quotient, rounded, as it is for sums and products.
-/
import Mathlib.Algebra.Order.Field.Power
import Mathlib.Tactic.IntervalCases
import ShapeEstimator.Proofs.Decimal.Value

namespace ShapeEstimator.Decimal

/-! ## §1. What a division should end with. -/

/-- A quotient that is the number `e`, rounded, with a coefficient and a scale in range. -/
structure ScaledQuotient.IsRounded (q : ScaledQuotient) (e : ℚ) : Prop where
  /-- There are at most 28 places. -/
  scale_le : q.scale ≤ 28
  /-- The digits are a coefficient. -/
  quotient_lt : q.quotient < 2 ^ 96
  /-- The value. -/
  value_eq : (q.quotient : ℚ) / 10 ^ q.scale.toNat = roundedSize e

/-- A division that ends with the number `e`, rounded, and fails only if `e` is out of range. -/
structure DividesTo (o : Option ScaledQuotient) (e : ℚ) : Prop where
  /-- A result is the rounded one. -/
  isRounded : ∀ q, o = some q → q.IsRounded e
  /-- There is a result for a number in range. -/
  exists_eq : e ≤ 2 ^ 96 - 1 → ∃ q, o = some q

namespace DividesTo

variable {q : ScaledQuotient} {e : ℚ}

theorem of_isRounded (h : q.IsRounded e) : DividesTo (some q) e :=
  ⟨fun _ hq => Option.some_inj.1 hq ▸ h, fun _ => ⟨q, rfl⟩⟩

theorem none_of_lt (h : 2 ^ 96 - 1 < e) : DividesTo none e :=
  ⟨fun _ hq => (nomatch hq), fun he => absurd he (not_le.2 h)⟩

end DividesTo

/-- The state of a division of `e`: digits with a scale, and a remainder of the divisor. -/
structure Dividing (e : ℚ) (divisor quotient : ℕ) (scale : ℤ) (remainder : ℕ) : Prop where
  /-- The remainder is less than the divisor. -/
  remainder_lt : remainder < divisor
  /-- The digits are a coefficient. -/
  quotient_lt : quotient < 2 ^ 96
  /-- There are at most 28 places. -/
  scale_le : scale ≤ 28
  /-- The digits and what is left. -/
  exact : e * 10 ^ scale = quotient + (remainder : ℚ) / divisor

section

variable {e : ℚ} {d Q R p : ℕ} {S : ℤ}

theorem zpow_toNat (h : 0 ≤ S) : (10 : ℚ) ^ S.toNat = 10 ^ S := by
  rw [← zpow_natCast, Int.toNat_of_nonneg h]

/-- A number with missing digits before the point is at least as great as its digits. -/
theorem le_of_scale_nonpos {q : ℚ} (hS : S ≤ 0) (h0 : 0 ≤ q) (h : e * 10 ^ S = q) : q ≤ e := by
  have hpos : (0 : ℚ) < 10 ^ S := by positivity
  have hone : (10 : ℚ) ^ S ≤ 1 := zpow_le_one_of_nonpos₀ (by norm_num) hS
  have he : 0 ≤ e := by
    by_contra hneg
    have := mul_neg_of_neg_of_pos (not_le.1 hneg) hpos
    linarith
  calc q = e * 10 ^ S := h.symm
    _ ≤ e * 1 := mul_le_mul_of_nonneg_left hone he
    _ = e := mul_one e

namespace Dividing

theorem rest_lt (h : Dividing e d Q S R) : (R : ℚ) / d < 1 := by
  have hd : (0 : ℚ) < d := by exact_mod_cast lt_of_le_of_lt (Nat.zero_le R) h.remainder_lt
  rw [div_lt_one hd]
  exact_mod_cast h.remainder_lt

theorem nonneg (h : Dividing e d Q S R) : 0 ≤ e := by
  by_contra hneg
  have hlt : e * 10 ^ S < 0 := mul_neg_of_neg_of_pos (not_le.1 hneg) (by positivity)
  have hge : (0 : ℚ) ≤ Q + (R : ℚ) / d := by positivity
  rw [h.exact] at hlt
  linarith

theorem exact_next (h : Dividing e d Q S R) (p : ℕ) :
    e * 10 ^ (S + p)
      = ((Q * 10 ^ p + R * 10 ^ p / d : ℕ) : ℚ) + ((R * 10 ^ p % d : ℕ) : ℚ) / d := by
  have hd : 0 < d := lt_of_le_of_lt (Nat.zero_le R) h.remainder_lt
  have hdq : (d : ℚ) ≠ 0 := by exact_mod_cast hd.ne'
  have hdiv : (R : ℚ) * 10 ^ p = d * (R * 10 ^ p / d : ℕ) + (R * 10 ^ p % d : ℕ) := by
    exact_mod_cast (Nat.div_add_mod (R * 10 ^ p) d).symm
  rw [zpow_add₀ (by norm_num), ← mul_assoc, h.exact, zpow_natCast, add_mul, div_mul_eq_mul_div, hdiv]
  push_cast
  field_simp
  ring

/-- More digits of the remainder: the division goes on. -/
theorem next (h : Dividing e d Q S R) (hscale : S + p ≤ 28)
    (hquotient : Q * 10 ^ p + R * 10 ^ p / d < 2 ^ 96) :
    Dividing e d (Q * 10 ^ p + R * 10 ^ p / d) (S + p) (R * 10 ^ p % d) :=
  ⟨Nat.mod_lt _ (lt_of_le_of_lt (Nat.zero_le R) h.remainder_lt), hquotient, hscale,
    h.exact_next p⟩

/-- With digits missing before the point, the number is at least as great as its digits. -/
theorem le_of_missing (h : Dividing e d Q S R) (hS : S + p ≤ 0) : (Q : ℚ) * 10 ^ p ≤ e := by
  have hle := le_of_scale_nonpos hS (by positivity) (h.exact_next p)
  have hpos : (0 : ℚ) ≤ ((R * 10 ^ p % d : ℕ) : ℚ) / d := by positivity
  have hpos' : (0 : ℚ) ≤ ((R * 10 ^ p / d : ℕ) : ℚ) := by positivity
  push_cast at hle
  linarith

section Places

variable (h : Dividing e d Q S R) (hS : 0 ≤ S)

include h hS

theorem digits_exact : e * 10 ^ S.toNat = Q + (R : ℚ) / d := by
  rw [zpow_toNat hS, h.exact]

theorem digits_lt : e * 10 ^ S.toNat < 2 ^ 96 := by
  have hcast : (Q : ℚ) + 1 ≤ 2 ^ 96 := by exact_mod_cast h.quotient_lt
  have hrest := h.rest_lt
  rw [h.digits_exact hS]
  linarith

theorem halfEven_digits : halfEven (e * 10 ^ S.toNat) = nearestEven (Q * d + R) d := by
  have hd : 0 < d := lt_of_le_of_lt (Nat.zero_le R) h.remainder_lt
  have hdq : (d : ℚ) ≠ 0 := by exact_mod_cast hd.ne'
  rw [← halfEven_div _ hd, h.digits_exact hS]
  congr 1
  push_cast
  field_simp

variable (hnext : S = 28 ∨ 2 ^ 96 ≤ Q * 10)

include hnext

/-- The rounded number, from the places there are. -/
theorem roundedSize_eq (hfits : Fits e) :
    roundedSize e = carried (nearestEven (Q * d + R) d) / 10 ^ S.toNat := by
  rw [Decimal.roundedSize_eq hfits _ (h.digits_lt hS) _, h.halfEven_digits hS]
  · have := h.scale_le
    omega
  · rcases hnext with hnext | hnext
    · exact Or.inl (by omega)
    · right
      have hcast : (2 : ℚ) ^ 96 ≤ Q * 10 := by exact_mod_cast hnext
      have hpos : (0 : ℚ) ≤ (R : ℚ) / d := by positivity
      rw [pow_succ 10 S.toNat, ← mul_assoc, h.digits_exact hS]
      linarith

/-- Digits that are a coefficient after they are rounded are those of the rounded number. -/
theorem value_nearestEven (hlt : nearestEven (Q * d + R) d < 2 ^ 96) :
    ((nearestEven (Q * d + R) d : ℕ) : ℚ) / 10 ^ S.toNat = roundedSize e := by
  have hfits := fits_of_halfEven_scaled_lt h.nonneg (h.halfEven_digits hS ▸ hlt)
  rw [h.roundedSize_eq hS hnext hfits, carried_of_lt hlt]

end Places

end Dividing

/-! ## §2. The last digit. -/

theorem div_digits (hd : R < d) : (Q * d + R) / d = Q := by
  rw [mul_comm, Nat.mul_add_div (lt_of_le_of_lt (Nat.zero_le R) hd), Nat.div_eq_of_lt hd, add_zero]

theorem mod_digits (hd : R < d) : (Q * d + R) % d = R := by
  rw [mul_comm, Nat.mul_add_mod, Nat.mod_eq_of_lt hd]

/-- Rounding away the remainder. -/
theorem nearestEven_digits (hd : R < d) : nearestEven (Q * d + R) d
    = if d < 2 * R ∨ (2 * R = d ∧ Q % 2 = 1) then Q + 1 else Q := by
  unfold nearestEven
  rw [div_digits hd, mod_digits hd]

/-- The first quotient that is no coefficient loses its last digit. -/
theorem shrink_limit (h : ¬ S < 1) :
    ScaledQuotient.shrink ⟨limit, S, true⟩ true
      = some ⟨7922816251426433759354395034, S - 1, true⟩ := by
  unfold ScaledQuotient.shrink
  rw [if_neg h]
  norm_num

/-- Digits that grow by rounding into the first number that is no coefficient. -/
theorem roundUp_dividesTo (h : Dividing e d Q S R) (hR : R ≠ 0) (hS : 0 ≤ S)
    (hnext : S = 28 ∨ 2 ^ 96 ≤ Q * 10) (hQ : Q + 1 = 2 ^ 96)
    (hup : nearestEven (Q * d + R) d = 2 ^ 96) :
    DividesTo (ScaledQuotient.shrink ⟨limit, S, true⟩ true) e := by
  by_cases hscale : S < 1
  · -- no place is left, and the number itself is beyond the greatest coefficient
    have hnone : ScaledQuotient.shrink ⟨limit, S, true⟩ true = none := if_pos hscale
    rw [hnone]
    apply DividesTo.none_of_lt
    have hd : 0 < d := lt_of_le_of_lt (Nat.zero_le R) h.remainder_lt
    have hpos : (0 : ℚ) < (R : ℚ) / d := by
      have := Nat.pos_of_ne_zero hR
      positivity
    have hdigits : (Q : ℚ) + 1 = 2 ^ 96 := by exact_mod_cast hQ
    have hexact := h.digits_exact hS
    rw [show S.toNat = 0 by omega, pow_zero, mul_one] at hexact
    linarith
  · rw [shrink_limit hscale]
    have hle := h.scale_le
    refine .of_isRounded ⟨by dsimp only; omega, by norm_num, ?_⟩
    rw [h.roundedSize_eq hS hnext (fits_of_pos h.nonneg (by omega) (h.digits_lt hS)), hup,
      carried_limit]
    obtain ⟨p, hp⟩ : ∃ p, S.toNat = p + 1 := ⟨S.toNat - 1, by omega⟩
    dsimp only
    rw [hp, show (S - 1).toNat = p by omega, pow_succ]
    push_cast
    field_simp
    norm_num

/-- Rounding by the remainder ends a division for which there is no more room. -/
theorem roundBy_dividesTo (h : Dividing e d Q S R) (hR : R ≠ 0) (hS : 0 ≤ S)
    (hnext : S = 28 ∨ 2 ^ 96 ≤ Q * 10) :
    DividesTo (ScaledQuotient.roundBy ⟨Q, S, true⟩ R d) e := by
  have hlast := h.value_nearestEven hS hnext
  have hnearest := nearestEven_digits (Q := Q) h.remainder_lt
  unfold ScaledQuotient.roundBy
  dsimp only
  split
  · rename_i hup
    rw [if_pos hup] at hnearest
    split
    · rename_i hlimit
      exact roundUp_dividesTo h hR hS hnext hlimit (hnearest.trans hlimit)
    · rename_i hlimit
      have hlt : Q + 1 < 2 ^ 96 := lt_of_le_of_ne h.quotient_lt hlimit
      rw [hnearest] at hlast
      exact .of_isRounded ⟨h.scale_le, hlt, hlast hlt⟩
  · rename_i hdown
    rw [hnearest, if_neg hdown] at hlast
    exact .of_isRounded ⟨h.scale_le, h.quotient_lt, hlast h.quotient_lt⟩

/-- Rounding away one digit, with a remainder behind it. -/
theorem nearestEven_digit (hd : R < d) :
    nearestEven (Q * d + R) (d * 10)
      = if 5 < Q % 10 ∨ (Q % 10 = 5 ∧ (R ≠ 0 ∨ Q / 10 % 2 = 1)) then Q / 10 + 1 else Q / 10 := by
  have hquotient : (Q * d + R) / (d * 10) = Q / 10 := by
    rw [← Nat.div_div_eq_div_mul, div_digits hd]
  have hremainder : (Q * d + R) % (d * 10) = R + d * (Q % 10) := by
    rw [Nat.mod_mul, mod_digits hd, div_digits hd]
  have hup : (d * 10 < 2 * (R + d * (Q % 10)) ∨ (2 * (R + d * (Q % 10)) = d * 10 ∧ Q / 10 % 2 = 1))
      ↔ (5 < Q % 10 ∨ (Q % 10 = 5 ∧ (R ≠ 0 ∨ Q / 10 % 2 = 1))) := by
    have hdigit : Q % 10 < 10 := Nat.mod_lt _ (by norm_num)
    -- a digit is one of ten, and for each of them both conditions are linear
    generalize Q % 10 = digit at hdigit ⊢
    interval_cases digit <;> omega
  unfold nearestEven
  rw [hquotient, hremainder]
  simp only [hup]

/-- The digits of a quotient that grew one digit too long, without the last of them. -/
theorem roundedSize_shrunk {p : ℕ} (hd : R < d) (hp : p + 1 ≤ 28)
    (hexact : e * 10 ^ (p + 1) = Q + (R : ℚ) / d) (hlow : 2 ^ 96 ≤ Q)
    (hdigits : nearestEven (Q * d + R) (d * 10) < 2 ^ 96) :
    roundedSize e = nearestEven (Q * d + R) (d * 10) / 10 ^ p := by
  have hdpos : 0 < d := lt_of_le_of_lt (Nat.zero_le R) hd
  have hdq : (d : ℚ) ≠ 0 := by exact_mod_cast hdpos.ne'
  have hlowq : (2 : ℚ) ^ 96 ≤ Q := by exact_mod_cast hlow
  have hrest : (0 : ℚ) ≤ (R : ℚ) / d := by positivity
  have hnext : (2 : ℚ) ^ 96 ≤ e * 10 ^ (p + 1) := by
    rw [hexact]
    linarith
  have he : 0 ≤ e :=
    nonneg_of_mul_nonneg_left (le_trans (by positivity) hnext) (by positivity)
  have hscaled : e * 10 ^ p = ((Q * d + R : ℕ) : ℚ) / ((d * 10 : ℕ) : ℚ) := by
    rw [pow_succ, ← mul_assoc] at hexact
    push_cast
    field_simp at hexact ⊢
    linarith
  have hhalf : halfEven (e * 10 ^ p) = nearestEven (Q * d + R) (d * 10) := by
    rw [hscaled, halfEven_div _ (by positivity)]
  have hlt : halfEven (e * 10 ^ p) < 2 ^ 96 := hhalf ▸ hdigits
  have hscaledLt := (fits_of_halfEven_lt (mul_nonneg he (by positivity)) hlt).lt
  rw [roundedSize_eq (fits_of_halfEven_scaled_lt he hlt) (by omega) hscaledLt (Or.inr hnext),
    hhalf, carried_of_lt hdigits]

/-- A quotient that grew one digit too long ends a division, too. -/
theorem shrink_dividesTo (hd : R < d) (hexact : e * 10 ^ S = Q + (R : ℚ) / d) (hS : S ≤ 28)
    (hlow : 2 ^ 96 ≤ Q) (hhigh : Q < 2 ^ 97) :
    DividesTo (ScaledQuotient.shrink ⟨Q, S, true⟩ (R != 0)) e := by
  unfold ScaledQuotient.shrink
  dsimp only
  split
  · rename_i hscale
    have hlowq : (2 : ℚ) ^ 96 ≤ Q := by exact_mod_cast hlow
    have hrest : (0 : ℚ) ≤ (R : ℚ) / d := by positivity
    apply DividesTo.none_of_lt
    have := le_of_scale_nonpos (by omega) (by positivity) hexact
    linarith
  · rename_i hscale
    obtain ⟨p, rfl⟩ : ∃ p : ℕ, S = p + 1 := ⟨(S - 1).toNat, by omega⟩
    have hdigits : nearestEven (Q * d + R) (d * 10) < 2 ^ 96 := by
      rw [nearestEven_digit hd]
      split <;> omega
    have hround := roundedSize_shrunk (p := p) hd (by omega) (by exact_mod_cast hexact) hlow hdigits
    rw [nearestEven_digit hd] at hround hdigits
    have hup : ((decide (5 < Q % 10) || Q % 10 == 5 && ((R != 0) || Q / 10 % 2 == 1)) = true)
        ↔ (5 < Q % 10 ∨ (Q % 10 = 5 ∧ (R ≠ 0 ∨ Q / 10 % 2 = 1))) := by simp
    simp only [hup]
    refine .of_isRounded ⟨by dsimp only; omega, hdigits, ?_⟩
    dsimp only
    rw [hround, show ((p : ℤ) + 1 - 1).toNat = p by omega]

/-! ## §3. The division. -/

/-- The first of the numbers from `n` down that has a property is the greatest one. -/
theorem find?_reverse_range (P : ℕ → Bool) (n : ℕ) :
    ((List.range (n + 1)).reverse.find? P).getD 0 = Nat.findGreatest (fun p => P p = true) n := by
  induction n with
  | zero =>
    cases h : P 0 <;> simp [List.range_succ, h]
  | succ n ih =>
    rw [List.range_succ, List.reverse_append, List.reverse_singleton, List.singleton_append,
      List.find?_cons, Nat.findGreatest_succ]
    cases h : P (n + 1) with
    | true => simp
    | false =>
      rw [← ih]
      simp

/-- What the next step may take. -/
structure NextDigits (quotient : ℕ) (scale : ℤ) (p : ℕ) : Prop where
  /-- There are at most nine digits. -/
  le_nine : p ≤ 9
  /-- The scale has room. -/
  scale_le : scale + p ≤ 28
  /-- The coefficient has room. -/
  quotient_le : quotient * 10 ^ p ≤ 2 ^ 96 - 1
  /-- One digit more would be too many. -/
  full : p < 9 → scale + p < 28 → 2 ^ 96 ≤ quotient * 10 ^ (p + 1)

theorem nextDigits_spec (hQ : Q < 2 ^ 96) (hS : S ≤ 28) : NextDigits Q S (nextDigits Q S) := by
  have hgreatest : nextDigits Q S
      = Nat.findGreatest (fun p : ℕ => S + p ≤ 28 ∧ Q * 10 ^ p ≤ 2 ^ 96 - 1) 9 := by
    unfold nextDigits
    rw [find?_reverse_range]
    congr 1
    funext p
    have hscale : ((p : ℤ) ≤ (maxScale : ℕ) - S) ↔ S + p ≤ 28 := by
      show (p : ℤ) ≤ ((28 : ℕ) : ℤ) - S ↔ _
      omega
    rw [Bool.and_eq_true, decide_eq_true_iff, decide_eq_true_iff,
      Nat.le_div_iff_mul_le (by positivity), hscale]
  have hspec := Nat.findGreatest_spec (P := fun p : ℕ => S + p ≤ 28 ∧ Q * 10 ^ p ≤ 2 ^ 96 - 1)
    (Nat.zero_le 9) ⟨by simpa using hS, by omega⟩
  rw [← hgreatest] at hspec
  refine ⟨hgreatest ▸ Nat.findGreatest_le 9, hspec.1, hspec.2, ?_⟩
  intro hp hscale
  by_contra hlt
  have hnot := Nat.findGreatest_is_greatest (n := 9)
    (P := fun p : ℕ => S + p ≤ 28 ∧ Q * 10 ^ p ≤ 2 ^ 96 - 1)
    (k := nextDigits Q S + 1) (by rw [← hgreatest]; exact Nat.lt_succ_self _) hp
  exact hnot ⟨by push_cast; omega, by omega⟩

/-- **Long division rounds.** -/
theorem longDivision_dividesTo (d Q : ℕ) (S : ℤ) (inexact : Bool) (R : ℕ)
    (h : Dividing e d Q S R) : DividesTo (longDivision d Q S inexact R) e := by
  -- along the loop: its state stands for the exact quotient, and every way out of it rounds that
  induction Q, S, inexact, R using longDivision.induct d with
  | case1 Q S inexact hS =>
    rw [longDivision, if_pos rfl, dif_pos hS]
    have he : e = (Q : ℚ) / 10 ^ S.toNat := by
      have hexact := h.exact
      rw [Nat.cast_zero, zero_div, add_zero, ← zpow_toNat hS] at hexact
      rw [← hexact, mul_div_cancel_right₀ _ (by positivity)]
    refine .of_isRounded ⟨h.scale_le, h.quotient_lt, ?_⟩
    rw [he, roundedSize_decimal h.quotient_lt]
    have := h.scale_le
    omega
  | case2 Q S inexact hS p hlimit =>
    -- places before the point are missing, and there is no room for them
    rw [longDivision, if_pos rfl, dif_neg hS, if_pos hlimit]
    apply DividesTo.none_of_lt
    have hp : p ≤ (-S).toNat := Nat.min_le_right _ _
    have hle := h.le_of_missing (p := p) (by omega)
    have hcast : (2 : ℚ) ^ 96 ≤ Q * 10 ^ p := by exact_mod_cast hlimit
    linarith
  | case3 Q S inexact hS p hlimit ih =>
    rw [longDivision, if_pos rfl, dif_neg hS, if_neg hlimit]
    have hp : p ≤ (-S).toNat := Nat.min_le_right _ _
    have hnext := h.next (p := p) (by omega)
    rw [zero_mul, Nat.zero_div, Nat.zero_mod, add_zero] at hnext
    exact ih (hnext (not_le.1 hlimit))
  | case4 Q S inexact R hR p hmissing =>
    -- the coefficient is full while places before the point are missing
    rw [longDivision, if_neg hR, if_pos hmissing]
    apply DividesTo.none_of_lt
    have hfull := (nextDigits_spec h.quotient_lt h.scale_le).full hmissing.1 (by omega)
    have hle := h.le_of_missing (p := p + 1) (by omega)
    have hcast : (2 : ℚ) ^ 96 ≤ Q * 10 ^ (p + 1) := by exact_mod_cast hfull
    linarith
  | case5 Q S inexact R hR p hmissing hlast =>
    rw [longDivision, if_neg hR, if_neg hmissing, dif_pos hlast]
    have hspec := nextDigits_spec h.quotient_lt h.scale_le
    have hscale := h.scale_le
    refine roundBy_dividesTo h hR (by omega) ?_
    rcases hlast with hlast | hlast
    · exact Or.inl (by omega)
    · by_cases hS : S = 28
      · exact Or.inl hS
      · have hfull := hspec.full
        rw [show nextDigits Q S = 0 from hlast] at hfull
        exact Or.inr (hfull (by norm_num) (by omega))
  | case6 Q S inexact R hR p hmissing hlast left next hlimit =>
    -- the digits of this step carry the coefficient over its limit, by less than a bit
    rw [longDivision, if_neg hR, if_neg hmissing, dif_neg hlast, if_pos hlimit]
    have hspec := nextDigits_spec h.quotient_lt h.scale_le
    refine shrink_dividesTo (Nat.mod_lt _ (lt_of_le_of_lt (Nat.zero_le R) h.remainder_lt))
      (h.exact_next p) hspec.scale_le hlimit ?_
    have hleft : R * 10 ^ p / d < 10 ^ p :=
      Nat.div_lt_of_lt_mul (Nat.mul_lt_mul_of_pos_right h.remainder_lt (by positivity))
    have hpow : 10 ^ p ≤ 10 ^ 9 := Nat.pow_le_pow_right (by norm_num) hspec.le_nine
    have hquotient : Q * 10 ^ p ≤ 2 ^ 96 - 1 := hspec.quotient_le
    show Q * 10 ^ p + R * 10 ^ p / d < 2 ^ 97
    omega
  | case7 Q S inexact R hR p hmissing hlast left next hlimit ih =>
    rw [longDivision, if_neg hR, if_neg hmissing, dif_neg hlast, if_neg hlimit]
    have hspec := nextDigits_spec h.quotient_lt h.scale_le
    exact ih (h.next hspec.scale_le (not_le.1 hlimit))

end

/-! ## §4. Quotients of decimals. -/

theorem dropZeros_value (twos n : ℕ) (q : ℕ × ℕ) :
    ((dropZeros twos n q).1 : ℚ) / 10 ^ (dropZeros twos n q).2 = (q.1 : ℚ) / 10 ^ q.2
      ∧ (dropZeros twos n q).1 ≤ q.1 ∧ (dropZeros twos n q).2 ≤ q.2 := by
  obtain ⟨c, s⟩ := q
  unfold dropZeros
  split
  · rename_i h
    obtain ⟨_, hs, hmod⟩ := h
    dsimp only at hs hmod ⊢
    have hc : (c : ℚ) = (c / 10 ^ n : ℕ) * 10 ^ n := by
      exact_mod_cast (Nat.div_mul_cancel (Nat.dvd_of_mod_eq_zero hmod)).symm
    obtain ⟨p, rfl⟩ := Nat.exists_eq_add_of_le' hs
    refine ⟨?_, Nat.div_le_self _ _, Nat.sub_le _ _⟩
    rw [hc, Nat.add_sub_cancel, pow_add, mul_div_mul_right _ _ (by positivity)]
  · exact ⟨rfl, le_rfl, le_rfl⟩

/-- Dropping zeros behind the point keeps the value. -/
theorem stripQuotient_value (c s : ℕ) :
    ((stripQuotient c s).1 : ℚ) / 10 ^ (stripQuotient c s).2 = (c : ℚ) / 10 ^ s
      ∧ (stripQuotient c s).1 ≤ c ∧ (stripQuotient c s).2 ≤ s := by
  have hstep {q : ℕ × ℕ} (twos n : ℕ) (h : (q.1 : ℚ) / 10 ^ q.2 = (c : ℚ) / 10 ^ s ∧ q.1 ≤ c ∧ q.2 ≤ s) :
      ((dropZeros twos n q).1 : ℚ) / 10 ^ (dropZeros twos n q).2 = (c : ℚ) / 10 ^ s
        ∧ (dropZeros twos n q).1 ≤ c ∧ (dropZeros twos n q).2 ≤ s := by
    obtain ⟨hvalue, hc, hs⟩ := dropZeros_value twos n q
    exact ⟨hvalue.trans h.1, hc.trans h.2.1, hs.trans h.2.2⟩
  exact hstep _ _ (hstep _ _ (hstep _ _ (hstep _ _ (hstep _ _ (hstep _ _ ⟨rfl, le_rfl, le_rfl⟩)))))

/-- The state that the division of two coefficients starts from. -/
theorem dividing_start (x : Decimal) {y : Decimal} (hy : 0 < y.coefficient) :
    Dividing (x.size / y.size) y.coefficient (x.coefficient / y.coefficient)
      ((x.scale : ℤ) - y.scale) (x.coefficient % y.coefficient) := by
  have hyq : (y.coefficient : ℚ) ≠ 0 := by exact_mod_cast hy.ne'
  have hx := x.scale_le
  refine ⟨Nat.mod_lt _ hy, lt_of_le_of_lt (Nat.div_le_self _ _) x.coefficient_lt, by omega, ?_⟩
  have hdiv : (x.coefficient : ℚ) = y.coefficient * (x.coefficient / y.coefficient : ℕ)
      + (x.coefficient % y.coefficient : ℕ) := by
    exact_mod_cast (Nat.div_add_mod x.coefficient y.coefficient).symm
  have hcoefficients : x.size / y.size * 10 ^ ((x.scale : ℤ) - y.scale)
      = (x.coefficient : ℚ) / y.coefficient := by
    unfold size
    rw [zpow_sub₀ (by norm_num), zpow_natCast, zpow_natCast]
    field_simp
  rw [hcoefficients, hdiv]
  field_simp

/-- **Quotients.** -/
theorem div_rounds (x : Decimal) {y : Decimal} (hy : y.isZero = false) :
    Rounds (x.div y) (x.value / y.value) := by
  have hyc : 0 < y.coefficient := by
    apply Nat.pos_of_ne_zero
    intro h
    unfold isZero at hy
    rw [h] at hy
    exact nomatch hy
  have he : 0 ≤ x.size / y.size := div_nonneg x.size_nonneg y.size_nonneg
  have hquotient : x.value / y.value = signed (x.negative != y.negative) (x.size / y.size) :=
    signed_div _ _ _ _
  have hdivides := longDivision_dividesTo _ _ _ false _ (dividing_start x hyc)
  unfold div
  split
  · rename_i hx
    exact .some_value (by rw [value_of_isZero hx, value_zero, zero_div])
  · constructor
    · intro z hz
      obtain ⟨q, hq, hz⟩ := Option.bind_eq_some_iff.1 hz
      obtain ⟨w, hw, rfl⟩ := Option.map_eq_some_iff.1 hz
      have hvalue := (hdivides.isRounded q hq).value_eq
      rw [value_clean, value_make? hw, hquotient, rounded_signed _ he, ← hvalue]
      split
      · rw [(stripQuotient_value _ _).1]
      · rfl
    · intro hrange
      rw [hquotient, abs_signed _ he] at hrange
      obtain ⟨q, hq⟩ := hdivides.exists_eq hrange
      have hround := hdivides.isRounded q hq
      have hscale : q.scale.toNat ≤ 28 := by
        have := hround.scale_le
        omega
      rw [hq, Option.bind_some]
      dsimp only
      obtain ⟨_, hc, hs⟩ := stripQuotient_value q.quotient q.scale.toNat
      have hmake : ∃ w, make? (x.negative != y.negative)
          (if q.inexact then stripQuotient q.quotient q.scale.toNat
            else (q.quotient, q.scale.toNat)).1
          (if q.inexact then stripQuotient q.quotient q.scale.toNat
            else (q.quotient, q.scale.toNat)).2 = some w := by
        split
        · exact exists_make? _ (lt_of_le_of_lt hc hround.quotient_lt) (hs.trans hscale)
        · exact exists_make? _ hround.quotient_lt hscale
      obtain ⟨w, hw⟩ := hmake
      exact ⟨w.clean, by rw [hw]; rfl⟩

end ShapeEstimator.Decimal
