/-
  ShapeEstimator.Proofs.Decimal.Numeral
  ────────────────────────────────
  **NUMBERS READ FROM TEXT, AGAINST THE EXACT ONES.**

  The digits of a numeral stand for an exact number, its mantissa, and the power of ten scales it.
  Reading takes two steps: the digits are rounded to a decimal, and the decimal is scaled.

      mantissa  ──rounded──▸  x  ──exactly──▸  x · 10 ^ N

  The second step loses nothing, but it does not always go through: a negative power needs places for
  all digits, a positive one has at most 28 zeros.  And it scales what the first step lost.
-/
import ShapeEstimator.Decimal.Numeral
import ShapeEstimator.Proofs.Decimal.Exact

namespace ShapeEstimator

/-! ## §1. Digits behind the point. -/

/-- A row of digits. -/
def AllDigits (ds : List Char) : Prop := ∀ d ∈ ds, d.isDigit = true

/-- The number that a row of digits behind the point stands for. -/
def fractionValue : List Char → ℚ
  | [] => 0
  | d :: ds => (digitValue d + fractionValue ds) / 10

section Digits

variable {d : Char} {ds : List Char}

theorem AllDigits.head (h : AllDigits (d :: ds)) : d.isDigit = true := h d List.mem_cons_self

theorem AllDigits.tail (h : AllDigits (d :: ds)) : AllDigits ds :=
  fun c hc => h c (List.mem_cons_of_mem _ hc)

theorem digitValue_le (h : d.isDigit = true) : digitValue d ≤ 9 := by
  have hcode : d.val.toNat ≤ '9'.val.toNat := (Bool.and_eq_true_iff.1 h).2 |> of_decide_eq_true
  show d.val.toNat - 48 ≤ 9
  have hnine : '9'.val.toNat = 57 := rfl
  omega

theorem fractionValue_nonneg (ds : List Char) : 0 ≤ fractionValue ds := by
  induction ds with
  | nil => exact le_rfl
  | cons d ds ih =>
    unfold fractionValue
    positivity

theorem fractionValue_lt_one (h : AllDigits ds) : fractionValue ds < 1 := by
  induction ds with
  | nil => exact zero_lt_one
  | cons d ds ih =>
    have hd : (digitValue d : ℚ) ≤ 9 := by exact_mod_cast digitValue_le h.head
    have hds := ih h.tail
    unfold fractionValue
    linarith

/-- A row of digits, the last ones of them behind the point. -/
theorem digitsValue_append (ws fs : List Char) :
    (digitsValue (ws ++ fs) : ℚ) / 10 ^ fs.length = digitsValue ws + fractionValue fs := by
  induction fs generalizing ws with
  | nil => simp [fractionValue]
  | cons d ds ih =>
    have hsplit : ws ++ d :: ds = (ws ++ [d]) ++ ds := by simp
    have hdigit : (digitsValue (ws ++ [d]) : ℚ) = 10 * digitsValue ws + digitValue d := by
      unfold digitsValue
      rw [List.foldl_append]
      push_cast [List.foldl_cons, List.foldl_nil]
      rfl
    rw [hsplit, List.length_cons, pow_succ, ← div_div, ih, hdigit, fractionValue]
    ring

end Digits

namespace Decimal

/-! ## §2. Rounded digits. -/

section Digits

variable {ds : List Char} {m s : ℕ} {z : Decimal}

/-- What a row of digits may be off by when it is cut to a decimal. -/
def digitRoundoff (q : ℚ) : ℚ := 1 / (2 * 10 ^ 28) + q / 10 ^ 28

/-- A unit in the last place is small where there is no more room: there are 28 places, or the
digits are as many as there can be. -/
theorem unit_le {e f : ℚ} (hf : 0 ≤ f)
    (h : e ≤ 1 / 2 ∧ (s = 28 ∨ 7 * 10 ^ 27 ≤ m) ∨ e ≤ 9 / 2 ∧ 7 * 10 ^ 28 ≤ m) :
    e / 10 ^ s ≤ digitRoundoff ((m + f) / 10 ^ s) := by
  have hlarge : ∀ c : ℚ, c * 10 ^ 28 ≤ m → e ≤ c →
      e / 10 ^ s ≤ digitRoundoff ((m + f) / 10 ^ s) := by
    intro c hc he
    have hsum : e ≤ (m + f) / 10 ^ 28 := by
      rw [le_div_iff₀ (by positivity)]
      nlinarith
    have hdiv : e / 10 ^ s ≤ (m + f) / 10 ^ 28 / 10 ^ s :=
      div_le_div_of_nonneg_right hsum (by positivity)
    unfold digitRoundoff
    rw [div_right_comm] at hdiv
    have hhalf : (0 : ℚ) ≤ 1 / (2 * 10 ^ 28) := by norm_num
    linarith
  rcases h with ⟨he, rfl | hm⟩ | ⟨he, hm⟩
  · have hrest : (0 : ℚ) ≤ (m + f) / 10 ^ 28 / 10 ^ 28 := by positivity
    unfold digitRoundoff
    linarith
  · have hm' : ((7 * 10 ^ 27 : ℕ) : ℚ) ≤ m := by exact_mod_cast hm
    push_cast at hm'
    exact hlarge (1 / 2) (by linarith) he
  · have hm' : ((7 * 10 ^ 28 : ℕ) : ℚ) ≤ m := by exact_mod_cast hm
    push_cast at hm'
    exact hlarge (9 / 2) (by linarith) he

/-- One more digit behind the point. -/
theorem next_digit (m s d : ℕ) (f : ℚ) :
    (((10 * m + d : ℕ) : ℚ) + f) / 10 ^ (s + 1) = (m + (d + f) / 10) / 10 ^ s := by
  push_cast
  rw [pow_succ]
  field_simp
  ring

/-- Where there is no room for a digit, the places are used up or the digits are many. -/
theorem many_of_no_room {d : Char} (hd : d.isDigit = true) (hs : s ≤ 28)
    (hroom : ¬ (s < maxScale ∧ 10 * m + digitValue d < limit)) : s = 28 ∨ 7 * 10 ^ 27 ≤ m := by
  have hdigit := digitValue_le hd
  by_cases hscale : s = 28
  · exact Or.inl hscale
  · have hfull : limit ≤ 10 * m + digitValue d := by
      by_contra hlt
      exact hroom ⟨lt_of_le_of_ne hs hscale, not_le.1 hlt⟩
    have hlimit : limit = 79228162514264337593543950336 := by decide
    omega

/-- Less than a half of the last place is cut off. -/
theorem abs_cut_sub_le {f : ℚ} (hf : 0 ≤ f) (hhalf : f ≤ 1 / 2) (hmany : s = 28 ∨ 7 * 10 ^ 27 ≤ m) :
    |(m : ℚ) / 10 ^ s - (m + f) / 10 ^ s| ≤ digitRoundoff ((m + f) / 10 ^ s) := by
  have hoff : (m : ℚ) / 10 ^ s - (m + f) / 10 ^ s = -(f / 10 ^ s) := by ring
  rw [hoff, abs_neg, abs_of_nonneg (by positivity)]
  exact unit_le hf (Or.inl ⟨hhalf, hmany⟩)

/-- The last place goes up for a half and more. -/
theorem abs_up_sub_le {f : ℚ} (hhalf : 1 / 2 ≤ f) (hone : f < 1)
    (hmany : s = 28 ∨ 7 * 10 ^ 27 ≤ m) :
    |((m + 1 : ℕ) : ℚ) / 10 ^ s - (m + f) / 10 ^ s| ≤ digitRoundoff ((m + f) / 10 ^ s) := by
  have hoff : ((m + 1 : ℕ) : ℚ) / 10 ^ s - (m + f) / 10 ^ s = (1 - f) / 10 ^ s := by
    push_cast
    ring
  rw [hoff, abs_of_nonneg (div_nonneg (by linarith) (by positivity))]
  exact unit_le (by linarith) (Or.inl ⟨by linarith, hmany⟩)

/-- Where the greatest coefficient goes up, it has one digit too many and loses the last one. -/
theorem abs_carry_sub_le {f : ℚ} (hhalf : 1 / 2 ≤ f) (hone : f < 1) (t : ℕ) :
    |((7922816251426433759354395034 : ℕ) : ℚ) / 10 ^ t
        - ((79228162514264337593543950335 : ℕ) + f) / 10 ^ (t + 1)|
      ≤ digitRoundoff (((79228162514264337593543950335 : ℕ) + f) / 10 ^ (t + 1)) := by
  have hoff : ((7922816251426433759354395034 : ℕ) : ℚ) / 10 ^ t
      - ((79228162514264337593543950335 : ℕ) + f) / 10 ^ (t + 1) = (5 - f) / 10 ^ (t + 1) := by
    rw [pow_succ]
    field_simp
    push_cast
    ring
  rw [hoff, abs_of_nonneg (div_nonneg (by linarith) (by positivity))]
  exact unit_le (by linarith) (Or.inr ⟨by linarith, by norm_num⟩)

/-- **Digits are rounded** when they are cut off. -/
theorem takeFraction_off (hds : AllDigits ds) (hm : m < 2 ^ 96) (hs : s ≤ 28)
    (h : takeFraction ds m s = some z) :
    |z.value - (m + fractionValue ds) / 10 ^ s|
      ≤ digitRoundoff ((m + fractionValue ds) / 10 ^ s) := by
  induction ds generalizing m s with
  | nil =>
    have hz : z.value = (m + fractionValue []) / 10 ^ s := by
      rw [value_make? h, fractionValue, add_zero]
      rfl
    have hexact : (0 : ℚ) ≤ (m + fractionValue []) / 10 ^ s := by
      rw [fractionValue]
      positivity
    rw [hz, sub_self, abs_zero, digitRoundoff]
    positivity
  | cons d ds ih =>
    have hfraction := fractionValue_nonneg (d :: ds)
    have htail := fractionValue_nonneg ds
    have htail' := fractionValue_lt_one hds.tail
    unfold takeFraction at h
    by_cases hroom : s < maxScale ∧ 10 * m + digitValue d < limit
    · rw [if_pos hroom] at h
      have hrest := ih hds.tail hroom.2 (Nat.succ_le_of_lt hroom.1) h
      rw [next_digit] at hrest
      exact hrest
    · rw [if_neg hroom] at h
      have hmany := many_of_no_room hds.head hs hroom
      by_cases hdown : digitValue d < 5
      · -- the digit and all that follow it make less than a half
        rw [if_pos hdown] at h
        have hd : (digitValue d : ℚ) ≤ 4 := by exact_mod_cast Nat.le_of_lt_succ hdown
        have hhalf : fractionValue (d :: ds) ≤ 1 / 2 := by
          rw [fractionValue]
          linarith
        rw [value_make? h]
        exact abs_cut_sub_le hfraction hhalf hmany
      · rw [if_neg hdown] at h
        have hd : (5 : ℚ) ≤ digitValue d := by exact_mod_cast not_lt.1 hdown
        have hhalf : 1 / 2 ≤ fractionValue (d :: ds) := by
          rw [fractionValue]
          linarith
        have hone := fractionValue_lt_one hds
        by_cases hnext : m + 1 < limit
        · rw [if_pos hnext] at h
          rw [value_make? h]
          exact abs_up_sub_le hhalf hone hmany
        · rw [if_neg hnext] at h
          by_cases hplaces : s = 0
          · rw [if_pos hplaces] at h
            exact nomatch h
          · rw [if_neg hplaces] at h
            obtain ⟨t, rfl⟩ := Nat.exists_eq_succ_of_ne_zero hplaces
            obtain rfl : m = 79228162514264337593543950335 := by
              have hlimit : limit = 79228162514264337593543950336 := by decide
              omega
            rw [value_make? h]
            exact abs_carry_sub_le hhalf hone t

/-- Digits that are less than the first number which is no decimal have a decimal. -/
theorem exists_takeFraction (hds : AllDigits ds) (hm : m < 2 ^ 96) (hs : s ≤ 28)
    (h : (m + fractionValue ds) / 10 ^ s < 2 ^ 96 - 1 / 2) : ∃ z, takeFraction ds m s = some z := by
  induction ds generalizing m s with
  | nil => exact exists_make? false hm hs
  | cons d ds ih =>
    unfold takeFraction
    by_cases hroom : s < maxScale ∧ 10 * m + digitValue d < limit
    · rw [if_pos hroom]
      exact ih hds.tail hroom.2 (Nat.succ_le_of_lt hroom.1) (by rw [next_digit]; exact h)
    · rw [if_neg hroom]
      by_cases hdown : digitValue d < 5
      · rw [if_pos hdown]
        exact exists_make? false hm hs
      · rw [if_neg hdown]
        by_cases hnext : m + 1 < limit
        · rw [if_pos hnext]
          exact exists_make? false hnext hs
        · -- the digits are as many as there can be, so they do not all stand before the point
          rw [if_neg hnext]
          have hlast : m + 1 = 2 ^ 96 := le_antisymm hm (not_lt.1 hnext)
          have hplaces : s ≠ 0 := by
            rintro rfl
            have hd : (5 : ℚ) ≤ digitValue d := by exact_mod_cast not_lt.1 hdown
            have htail := fractionValue_nonneg ds
            have hcast : (m : ℚ) + 1 = 2 ^ 96 := by exact_mod_cast hlast
            rw [pow_zero, div_one, fractionValue] at h
            linarith
          rw [if_neg hplaces]
          exact exists_make? false (by rw [hlast]; decide) (by omega)

/-- The digits of a number below the first one that is no decimal have a decimal. -/
theorem exists_ofDigits? {ws : List Char} (hds : AllDigits ds)
    (h : digitsValue ws + fractionValue ds < 2 ^ 96 - 1 / 2) : ∃ x, ofDigits? ws ds = some x := by
  have hws : digitsValue ws < 2 ^ 96 := by
    have hfraction := fractionValue_nonneg ds
    have hlt : (digitsValue ws : ℚ) < 2 ^ 96 := by linarith
    exact_mod_cast hlt
  unfold ofDigits?
  rw [if_pos hws]
  exact exists_takeFraction hds hws (by decide) (by rwa [pow_zero, div_one])

/-- A decimal that is read from digits is off by their roundoff at most. -/
theorem ofDigits?_off {ws : List Char} (hds : AllDigits ds) (h : ofDigits? ws ds = some z) :
    |z.value - (digitsValue ws + fractionValue ds)|
      ≤ digitRoundoff (digitsValue ws + fractionValue ds) := by
  unfold ofDigits? at h
  split at h
  · rename_i hws
    have hoff := takeFraction_off hds hws (by decide) h
    rwa [pow_zero, div_one] at hoff
  · exact nomatch h

end Digits

/-! ## §3. Powers of ten. -/

section Shift

variable {x y : Decimal} {n : ℕ}

/-- A division by a power of ten loses nothing. -/
theorem shiftRight?_value (h : x.shiftRight? n = some y) : y.value = x.value / 10 ^ n := by
  unfold shiftRight? at h
  split at h
  · rw [value_make? h, value, size, pow_add, ← div_div]
    unfold signed
    split
    · ring
    · rfl
  · cases h

theorem exists_shiftRight?_iff : (∃ y, x.shiftRight? n = some y) ↔ x.scale + n ≤ 28 := by
  unfold shiftRight?
  by_cases hplaces : x.scale + n ≤ maxScale
  · rw [if_pos hplaces]
    exact ⟨fun _ => hplaces, fun _ => exists_make? _ x.coefficient_lt hplaces⟩
  · rw [if_neg hplaces]
    exact ⟨fun ⟨_, hy⟩ => (nomatch hy), fun hle => absurd hle hplaces⟩

/-- A decimal times a power of ten is a decimal as long as it is in range. -/
theorem isDecimal_mul_pow (x : Decimal) (n : ℕ) (h : |x.value * 10 ^ n| < 2 ^ 96) :
    IsDecimal (x.value * 10 ^ n) := by
  rcases Nat.le_total n x.scale with hle | hle
  · -- the places become fewer
    obtain ⟨d, hd⟩ := Nat.exists_eq_add_of_le hle
    have hplaces : d ≤ 28 := by
      have hscale := x.scale_le
      omega
    refine ⟨x.digits, d, x.abs_digits_lt, hplaces, ?_⟩
    rw [value_eq_digits, hd, pow_add]
    field_simp
  · -- there is no place left
    obtain ⟨d, hd⟩ := Nat.exists_eq_add_of_le hle
    have hvalue : x.value * 10 ^ n = ((x.digits * 10 ^ d : ℤ) : ℚ) := by
      rw [value_eq_digits, hd, pow_add]
      push_cast
      field_simp
    refine ⟨x.digits * 10 ^ d, 0, ?_, by decide, by rw [hvalue, pow_zero, div_one]⟩
    rw [hvalue, ← Int.cast_abs] at h
    exact_mod_cast h

/-- Numbers out of range are not rounded into it. -/
theorem le_abs_rounded {q : ℚ} (h : 2 ^ 96 ≤ |q|) : 2 ^ 96 ≤ |rounded q| := by
  have hpos : ∀ r : ℚ, 2 ^ 96 ≤ r → 2 ^ 96 ≤ rounded r := by
    intro r hr
    have hcast : ((2 ^ 96 : ℤ) : ℚ) ≤ r := by
      push_cast
      exact hr
    have hround := le_rounded hcast
    push_cast at hround
    exact hround
  rcases le_abs.1 h with hq | hq
  · exact le_abs.2 (Or.inl (hpos q hq))
  · rw [← abs_neg, ← rounded_neg]
    exact le_abs.2 (Or.inl (hpos (-q) hq))

/-- A product with a power of ten loses nothing. -/
theorem mul_pow_ten_value {p : Decimal} (hp : p.value = 10 ^ n) (h : x.mul p = some y) :
    y.value = x.value * 10 ^ n := by
  have hround := (mul_rounds x p).value_eq y h
  rw [hp] at hround
  rcases lt_or_ge |x.value * 10 ^ n| (2 ^ 96) with hlt | hge
  · rw [hround, (isDecimal_mul_pow x n hlt).rounded_eq]
  · -- out of range there is no product
    have hy := (isDecimal_value y).abs_le
    rw [hround] at hy
    linarith [le_abs_rounded hge]

theorem exists_mul_pow_ten {p : Decimal} (hp : p.value = 10 ^ n)
    (h : |x.value| * 10 ^ n ≤ 2 ^ 96 - 1) : ∃ y, x.mul p = some y := by
  refine (mul_rounds x p).exists_eq ?_
  rwa [hp, abs_mul, abs_of_pos (show (0 : ℚ) < 10 ^ n by positivity)]

/-- The power of ten as a decimal. -/
theorem exists_tenPow (hn : n ≤ 28) : ∃ p, make? false (10 ^ n) 0 = some p ∧ p.value = 10 ^ n := by
  have hlt : 10 ^ n < 2 ^ 96 :=
    lt_of_le_of_lt (Nat.pow_le_pow_right (by norm_num) hn) (by norm_num)
  obtain ⟨p, hp⟩ := exists_make? false hlt (show 0 ≤ 28 by decide)
  refine ⟨p, hp, ?_⟩
  rw [value_make? hp, signed, pow_zero, div_one]
  push_cast
  rfl

/-- A multiplication by a power of ten, in one step or in two. -/
theorem timesPowerOfTen_value (hn : n ≤ 28) (h : x.timesPowerOfTen n = some y) :
    y.value = x.value * 10 ^ n := by
  unfold timesPowerOfTen at h
  by_cases hlong : 19 ≤ n
  · obtain ⟨big, hbig, hbigvalue⟩ := exists_tenPow (show 19 ≤ 28 by decide)
    obtain ⟨rest, hrest, hrestvalue⟩ := exists_tenPow (show n - 19 ≤ 28 by omega)
    simp only [if_pos hlong, hbig, hrest, Option.bind_some] at h
    obtain ⟨z, hz, hy⟩ := Option.bind_eq_some_iff.1 h
    rw [mul_pow_ten_value hrestvalue hy, mul_pow_ten_value hbigvalue hz, mul_assoc, ← pow_add]
    congr 2
    omega
  · obtain ⟨p, hp, hpvalue⟩ := exists_tenPow hn
    rw [if_neg hlong, hp] at h
    exact mul_pow_ten_value hpvalue h

theorem exists_timesPowerOfTen (hn : n ≤ 28) (h : |x.value| * 10 ^ n ≤ 2 ^ 96 - 1) :
    ∃ y, x.timesPowerOfTen n = some y := by
  unfold timesPowerOfTen
  by_cases hlong : 19 ≤ n
  · obtain ⟨big, hbig, hbigvalue⟩ := exists_tenPow (show 19 ≤ 28 by decide)
    obtain ⟨rest, hrest, hrestvalue⟩ := exists_tenPow (show n - 19 ≤ 28 by omega)
    have hsplit : (10 : ℚ) ^ 19 * 10 ^ (n - 19) = 10 ^ n := by
      rw [← pow_add]
      congr 1
      omega
    -- the first product is smaller than the second
    have hfirst : |x.value| * 10 ^ 19 ≤ 2 ^ 96 - 1 :=
      le_trans (mul_le_mul_of_nonneg_left (pow_le_pow_right₀ (by norm_num) hlong) (abs_nonneg _)) h
    obtain ⟨z, hz⟩ := exists_mul_pow_ten hbigvalue hfirst
    have hsecond : |z.value| * 10 ^ (n - 19) ≤ 2 ^ 96 - 1 := by
      rw [mul_pow_ten_value hbigvalue hz, abs_mul, abs_of_pos (show (0 : ℚ) < 10 ^ 19 by positivity),
        mul_assoc, hsplit]
      exact h
    obtain ⟨y, hy⟩ := exists_mul_pow_ten hrestvalue hsecond
    refine ⟨y, ?_⟩
    simp only [if_pos hlong, hbig, hrest, Option.bind_some, hz, hy]
  · obtain ⟨p, hp, hpvalue⟩ := exists_tenPow hn
    rw [if_neg hlong, hp]
    exact exists_mul_pow_ten hpvalue h

/-- A multiplication by a power of ten loses nothing, and takes at most 28 zeros. -/
theorem shiftLeft?_value (h : x.shiftLeft? n = some y) : n ≤ 28 ∧ y.value = x.value * 10 ^ n := by
  unfold shiftLeft? at h
  by_cases hplaces : n ≤ x.scale
  · rw [if_pos hplaces] at h
    refine ⟨hplaces.trans x.scale_le, ?_⟩
    obtain ⟨d, hd⟩ := Nat.exists_eq_add_of_le hplaces
    rw [value_make? h, value, size, hd, Nat.add_sub_cancel_left, pow_add]
    unfold signed
    split
    · field_simp
    · field_simp
  · rw [if_neg hplaces] at h
    split at h
    · cases h
    · rename_i hn
      obtain ⟨z, hz, rfl⟩ := Option.map_eq_some_iff.1 h
      rw [value_norm]
      exact ⟨not_lt.1 hn, timesPowerOfTen_value (not_lt.1 hn) hz⟩

theorem exists_shiftLeft? (hn : n ≤ 28) (h : |x.value| * 10 ^ n ≤ 2 ^ 96 - 1) :
    ∃ y, x.shiftLeft? n = some y := by
  unfold shiftLeft?
  by_cases hplaces : n ≤ x.scale
  · rw [if_pos hplaces]
    exact exists_make? _ x.coefficient_lt (le_trans (Nat.sub_le ..) x.scale_le)
  · rw [if_neg hplaces, if_neg (not_lt.2 hn)]
    obtain ⟨y, hy⟩ := exists_timesPowerOfTen hn h
    exact ⟨y.norm, by rw [hy]; rfl⟩

end Shift

end Decimal

/-! ## §4. Numerals. -/

namespace Numeral

open Decimal (ofDigits? digitRoundoff)

/-- The exact number that the digits of a numeral stand for, without its power of ten. -/
def mantissa (n : Numeral) : ℚ := digitsValue n.whole + fractionValue n.fraction

/-- The exponent of a power of ten. -/
def powerExponent (p : PowerOfTen) : ℤ :=
  if p.negative then -digitsValue p.digits else digitsValue p.digits

/-- The exact number that a numeral stands for. -/
def exactValue (n : Numeral) : ℚ := n.mantissa * 10 ^ (n.power.elim 0 powerExponent)

/-- What a number read from text may be off by: a unit in the last place that a decimal has, and one
in the last digit of a long coefficient. -/
def tolerance (q : ℚ) : ℚ := 1 / 10 ^ 28 + q / 10 ^ 27

/-- A numeral is read as what it says. -/
def Accurate (n : Numeral) : Prop :=
  ∃ v, n.value? = some v ∧ |v.value - n.exactValue| ≤ tolerance n.exactValue

/-- The scaling of a numeral goes through and its number survives.  With a negative power all digits
that are kept find places, or the number is next to nothing anyway; with a positive one there are at
most 28 zeros, and what was rounded off the digits is still small when it is scaled. -/
def Reached (n : Numeral) : Prop :=
  match n.power with
  | none => True
  | some p =>
    if p.negative then
      (∃ x, ofDigits? n.whole n.fraction = some x ∧ x.scale + digitsValue p.digits ≤ 28)
        ∨ n.exactValue ≤ tolerance n.exactValue
    else
      digitsValue p.digits ≤ 28 ∧ ∃ x, ofDigits? n.whole n.fraction = some x
        ∧ |x.value - n.mantissa| * 10 ^ digitsValue p.digits ≤ tolerance n.exactValue

/-- The power of a numeral has more zeros than are taken. -/
def TooManyZeros (n : Numeral) : Prop :=
  ∃ p, n.power = some p ∧ p.negative = false ∧ 28 < digitsValue p.digits

section

variable {n : Numeral} {p : PowerOfTen}

theorem mantissa_nonneg (n : Numeral) : 0 ≤ n.mantissa :=
  add_nonneg (Nat.cast_nonneg _) (fractionValue_nonneg _)

theorem exactValue_nonneg (n : Numeral) : 0 ≤ n.exactValue :=
  mul_nonneg n.mantissa_nonneg (zpow_nonneg (by norm_num) _)

theorem exactValue_plain (h : n.power = none) : n.exactValue = n.mantissa := by
  rw [exactValue, h, Option.elim_none, zpow_zero, mul_one]

theorem exactValue_negative (h : n.power = some p) (hp : p.negative = true) :
    n.exactValue = n.mantissa / 10 ^ digitsValue p.digits := by
  rw [exactValue, h, Option.elim_some, powerExponent, if_pos hp, zpow_neg, zpow_natCast,
    div_eq_mul_inv]

theorem exactValue_positive (h : n.power = some p) (hp : p.negative = false) :
    n.exactValue = n.mantissa * 10 ^ digitsValue p.digits := by
  rw [exactValue, h, Option.elim_some, powerExponent, hp, if_neg Bool.false_ne_true, zpow_natCast]

theorem value?_plain (h : n.power = none) : n.value? = ofDigits? n.whole n.fraction := by
  unfold value? written?
  rw [h]
  cases ofDigits? n.whole n.fraction <;> rfl

/-- With a negative power there is always a value, and it is zero where scaling does not go
through. -/
theorem value?_negative (h : n.power = some p) (hp : p.negative = true) :
    n.value? = some (((ofDigits? n.whole n.fraction).bind
      fun x => x.shiftRight? (digitsValue p.digits)).getD .zero) := by
  obtain ⟨negative, digits⟩ := p
  cases hp
  unfold value? written?
  rw [h]
  simp only [if_true]
  cases (ofDigits? n.whole n.fraction).bind fun x => x.shiftRight? (digitsValue digits) <;> rfl

theorem value?_positive (h : n.power = some p) (hp : p.negative = false) :
    n.value? = (ofDigits? n.whole n.fraction).bind
      fun x => x.shiftLeft? (digitsValue p.digits) := by
  obtain ⟨negative, digits⟩ := p
  cases hp
  unfold value? written?
  rw [h]
  simp only [Bool.false_eq_true, if_false]
  cases (ofDigits? n.whole n.fraction).bind fun x => x.shiftLeft? (digitsValue digits) <;> rfl

/-- What is rounded off the digits is small by itself. -/
theorem digitRoundoff_le {q : ℚ} (hq : 0 ≤ q) : digitRoundoff q ≤ tolerance q := by
  unfold digitRoundoff tolerance
  linarith

/-- A division makes it smaller. -/
theorem digitRoundoff_div_le {q : ℚ} (hq : 0 ≤ q) (k : ℕ) :
    digitRoundoff q / 10 ^ k ≤ tolerance (q / 10 ^ k) := by
  have hpow : (1 : ℚ) ≤ 10 ^ k := one_le_pow₀ (by norm_num)
  have hunit : (1 : ℚ) / (2 * 10 ^ 28) / 10 ^ k ≤ 1 / 10 ^ 28 :=
    le_trans (div_le_self (by norm_num) hpow) (by norm_num)
  have hquotient : 0 ≤ q / 10 ^ k := by positivity
  unfold digitRoundoff tolerance
  rw [add_div, div_right_comm q]
  linarith

/-- Digits of a number in range have a decimal. -/
theorem exists_ofDigits?_of_le (hf : AllDigits n.fraction) (h : n.mantissa ≤ 7 * 10 ^ 28) :
    ∃ x, ofDigits? n.whole n.fraction = some x :=
  Decimal.exists_ofDigits? hf (lt_of_le_of_lt h (by norm_num))

theorem plain_accurate (hf : AllDigits n.fraction) (h : n.power = none)
    (hq : n.exactValue ≤ 7 * 10 ^ 28) : n.Accurate := by
  have hvalue := exactValue_plain h
  obtain ⟨x, hx⟩ := exists_ofDigits?_of_le hf (hvalue ▸ hq)
  refine ⟨x, by rw [value?_plain h, hx], ?_⟩
  rw [hvalue]
  exact (Decimal.ofDigits?_off hf hx).trans (digitRoundoff_le n.mantissa_nonneg)

theorem negative_accurate_iff (hf : AllDigits n.fraction) (h : n.power = some p)
    (hp : p.negative = true) :
    n.Accurate ↔
      (∃ x, ofDigits? n.whole n.fraction = some x ∧ x.scale + digitsValue p.digits ≤ 28)
        ∨ n.exactValue ≤ tolerance n.exactValue := by
  have hq := exactValue_negative h hp
  have hvalue := value?_negative h hp
  by_cases hplaces : ∃ x, ofDigits? n.whole n.fraction = some x
      ∧ x.scale + digitsValue p.digits ≤ 28
  · refine iff_of_true ?_ (Or.inl hplaces)
    obtain ⟨x, hx, hscale⟩ := hplaces
    obtain ⟨y, hy⟩ := Decimal.exists_shiftRight?_iff.2 hscale
    rw [hx, Option.bind_some, hy, Option.getD_some] at hvalue
    refine ⟨y, hvalue, ?_⟩
    rw [Decimal.shiftRight?_value hy, hq, ← sub_div, abs_div,
      abs_of_pos (show (0 : ℚ) < 10 ^ digitsValue p.digits by positivity)]
    exact (div_le_div_of_nonneg_right (Decimal.ofDigits?_off hf hx) (by positivity)).trans
      (digitRoundoff_div_le n.mantissa_nonneg _)
  · -- scaling does not go through, so the value is zero
    have hnone : ((ofDigits? n.whole n.fraction).bind
        fun x => x.shiftRight? (digitsValue p.digits)) = none := by
      rw [Option.bind_eq_none_iff]
      intro x hx
      rw [Option.eq_none_iff_forall_ne_some]
      exact fun y hy => hplaces ⟨x, hx, Decimal.exists_shiftRight?_iff.1 ⟨y, hy⟩⟩
    rw [hnone, Option.getD_none] at hvalue
    have hzero : |Decimal.zero.value - n.exactValue| = n.exactValue := by
      rw [Decimal.value_zero, zero_sub, abs_neg, abs_of_nonneg n.exactValue_nonneg]
    constructor
    · rintro ⟨v, hv, hoff⟩
      cases hvalue.symm.trans hv
      exact Or.inr (hzero.ge.trans hoff)
    · rintro (hx | hoff)
      · exact absurd hx hplaces
      · exact ⟨.zero, hvalue, hzero.le.trans hoff⟩

/-- A number in range stays in range when its digits are rounded, and scaled by at most 28 zeros. -/
theorem scaled_le {x : Decimal} {k : ℕ} (hf : AllDigits n.fraction)
    (hx : ofDigits? n.whole n.fraction = some x) (hk : k ≤ 28)
    (hq : n.mantissa * 10 ^ k ≤ 7 * 10 ^ 28) : |x.value| * 10 ^ k ≤ 2 ^ 96 - 1 := by
  have hpow : (10 : ℚ) ^ k ≤ 10 ^ 28 := pow_le_pow_right₀ (by norm_num) hk
  have hsize : |x.value| ≤ n.mantissa + digitRoundoff n.mantissa := by
    have hoff := Decimal.ofDigits?_off hf hx
    have htriangle := abs_sub_abs_le_abs_sub x.value n.mantissa
    rw [abs_of_nonneg n.mantissa_nonneg] at htriangle
    exact sub_le_iff_le_add'.1 (htriangle.trans hoff)
  calc |x.value| * 10 ^ k
      ≤ (n.mantissa + digitRoundoff n.mantissa) * 10 ^ k :=
        mul_le_mul_of_nonneg_right hsize (by positivity)
    _ = n.mantissa * 10 ^ k * (1 + 1 / 10 ^ 28) + 1 / (2 * 10 ^ 28) * 10 ^ k := by
        unfold digitRoundoff
        ring
    _ ≤ 7 * 10 ^ 28 * (1 + 1 / 10 ^ 28) + 1 / (2 * 10 ^ 28) * 10 ^ 28 := by
        gcongr
    _ ≤ 2 ^ 96 - 1 := by norm_num

/-- With a positive power there is a value unless there are too many zeros. -/
theorem exists_value?_positive (hf : AllDigits n.fraction) (h : n.power = some p)
    (hp : p.negative = false) (hk : digitsValue p.digits ≤ 28) (hq : n.exactValue ≤ 7 * 10 ^ 28) :
    ∃ x y, ofDigits? n.whole n.fraction = some x ∧ n.value? = some y
      ∧ y.value = x.value * 10 ^ digitsValue p.digits := by
  rw [exactValue_positive h hp] at hq
  have hpow : (1 : ℚ) ≤ 10 ^ digitsValue p.digits := one_le_pow₀ (by norm_num)
  obtain ⟨x, hx⟩ := exists_ofDigits?_of_le hf
    ((le_mul_of_one_le_right n.mantissa_nonneg hpow).trans hq)
  obtain ⟨y, hy⟩ := Decimal.exists_shiftLeft? hk (scaled_le hf hx hk hq)
  refine ⟨x, y, hx, ?_, (Decimal.shiftLeft?_value hy).2⟩
  rw [value?_positive h hp, hx, Option.bind_some, hy]

theorem positive_accurate_iff (hf : AllDigits n.fraction) (h : n.power = some p)
    (hp : p.negative = false) (hq : n.exactValue ≤ 7 * 10 ^ 28) :
    n.Accurate ↔
      digitsValue p.digits ≤ 28 ∧ ∃ x, ofDigits? n.whole n.fraction = some x
        ∧ |x.value - n.mantissa| * 10 ^ digitsValue p.digits ≤ tolerance n.exactValue := by
  have hscaled : ∀ x y : Decimal, y.value = x.value * 10 ^ digitsValue p.digits →
      |y.value - n.exactValue| = |x.value - n.mantissa| * 10 ^ digitsValue p.digits := by
    intro x y hy
    rw [hy, exactValue_positive h hp, ← sub_mul, abs_mul,
      abs_of_pos (show (0 : ℚ) < 10 ^ digitsValue p.digits by positivity)]
  constructor
  · rintro ⟨v, hv, hoff⟩
    rw [value?_positive h hp] at hv
    obtain ⟨x, hx, hv⟩ := Option.bind_eq_some_iff.1 hv
    obtain ⟨hk, hvalue⟩ := Decimal.shiftLeft?_value hv
    exact ⟨hk, x, hx, hscaled x v hvalue ▸ hoff⟩
  · rintro ⟨hk, x, hx, hoff⟩
    obtain ⟨x', y, hx', hy, hvalue⟩ := exists_value?_positive hf h hp hk hq
    cases hx.symm.trans hx'
    exact ⟨y, hy, (hscaled x y hvalue).trans_le hoff⟩

/-- **Numerals in range.**  A numeral is read as what it says exactly where its scaling goes through
and its number survives it. -/
theorem accurate_iff_reached (hf : AllDigits n.fraction) (hq : n.exactValue ≤ 7 * 10 ^ 28) :
    n.Accurate ↔ n.Reached := by
  unfold Reached
  cases h : n.power with
  | none => exact iff_of_true (plain_accurate hf h hq) trivial
  | some p =>
    cases hp : p.negative with
    | true => simpa only [hp, if_true] using negative_accurate_iff hf h hp
    | false =>
      simpa only [hp, Bool.false_eq_true, if_false] using positive_accurate_iff hf h hp hq

/-- A numeral in range has no value only where its power has too many zeros. -/
theorem value?_eq_none_iff (hf : AllDigits n.fraction) (hq : n.exactValue ≤ 7 * 10 ^ 28) :
    n.value? = none ↔ n.TooManyZeros := by
  constructor
  · intro hnone
    cases h : n.power with
    | none =>
      obtain ⟨v, hv, -⟩ := plain_accurate hf h hq
      rw [hnone] at hv
      exact nomatch hv
    | some p =>
      cases hp : p.negative with
      | true =>
        rw [value?_negative h hp] at hnone
        exact nomatch hnone
      | false =>
        refine ⟨p, h, hp, ?_⟩
        by_contra hk
        obtain ⟨x, y, -, hy, -⟩ := exists_value?_positive hf h hp (not_lt.1 hk) hq
        rw [hnone] at hy
        exact nomatch hy
  · rintro ⟨p, h, hp, hk⟩
    rw [value?_positive h hp, Option.bind_eq_none_iff]
    intro x _
    rw [Option.eq_none_iff_forall_ne_some]
    intro y hy
    exact absurd (Decimal.shiftLeft?_value hy).1 (not_le.2 hk)

end

end Numeral

end ShapeEstimator
