/-
  ShapeEstimator.Proofs.Decimal.Value
  ────────────────────────────────
  **WHAT SUMS AND PRODUCTS OF DECIMALS ARE.**

  The value of a decimal is a rational.  An operation on decimals gives the exact
  result on the values, rounded, and it fails only where that result is beyond the
  greatest decimal:

      (x.add y).value  =  rounded (x.value + y.value)
      (x.mul y).value  =  rounded (x.value * y.value)
-/
import ShapeEstimator.Decimal.Power
import ShapeEstimator.Proofs.Decimal.Rounding

namespace ShapeEstimator.Decimal

/-! ## §1. Values. -/

theorem signed_not (negative : Bool) (q : ℚ) : signed (!negative) q = -signed negative q := by
  cases negative <;> simp [signed]

theorem signed_zero (negative : Bool) : signed negative 0 = 0 := by
  cases negative <;> simp [signed]

theorem abs_signed (negative : Bool) {q : ℚ} (h : 0 ≤ q) : |signed negative q| = q := by
  cases negative <;> simp [signed, abs_of_nonneg h]

theorem signed_add (negative : Bool) (q r : ℚ) :
    signed negative (q + r) = signed negative q + signed negative r := by
  cases negative with
  | false => rfl
  | true => exact neg_add q r

theorem signed_sub (negative : Bool) (q r : ℚ) :
    signed negative (q - r) = signed negative q - signed negative r := by
  cases negative with
  | false => rfl
  | true => exact neg_sub' q r

theorem signed_mul (a b : Bool) (q r : ℚ) :
    signed a q * signed b r = signed (a != b) (q * r) := by
  cases a <;> cases b <;> simp [signed]

theorem signed_div (a b : Bool) (q r : ℚ) :
    signed a q / signed b r = signed (a != b) (q / r) := by
  cases a <;> cases b <;> simp [signed, div_neg, neg_div]

/-- The value without the sign. -/
def size (x : Decimal) : ℚ := x.coefficient / 10 ^ x.scale

/-- The value. -/
def value (x : Decimal) : ℚ := signed x.negative x.size

theorem size_nonneg (x : Decimal) : 0 ≤ x.size := by
  unfold size
  positivity

theorem value_neg (x : Decimal) : x.neg.value = -x.value := signed_not x.negative x.size

theorem size_eq_zero_iff (x : Decimal) : x.size = 0 ↔ x.isZero = true := by
  unfold size isZero
  simp

theorem value_eq_zero_iff (x : Decimal) : x.value = 0 ↔ x.isZero = true := by
  rw [← size_eq_zero_iff, value, signed]
  split <;> simp

theorem value_of_isZero {x : Decimal} (h : x.isZero = true) : x.value = 0 :=
  (value_eq_zero_iff x).2 h

theorem isZero_eq_false {x : Decimal} (h : x.value ≠ 0) : x.isZero = false := by
  rw [Bool.eq_false_iff]
  exact fun hzero => h (value_of_isZero hzero)

theorem negative_of_pos {x : Decimal} (h : 0 < x.value) : x.negative = false := by
  rw [Bool.eq_false_iff]
  intro hsign
  have hvalue : x.value = -x.size := if_pos hsign
  linarith [x.size_nonneg]

theorem negative_of_neg {x : Decimal} (h : x.value < 0) : x.negative = true := by
  by_contra hsign
  have hvalue : x.value = x.size := if_neg hsign
  linarith [x.size_nonneg]

@[simp] theorem value_zero : zero.value = 0 := value_of_isZero rfl

@[simp] theorem value_one : one.value = 1 := by
  simp [value, size, signed, one]

@[simp] theorem value_clean (x : Decimal) : x.clean.value = x.value := by
  unfold clean
  split
  · rename_i h
    rw [value_of_isZero h]
    exact (size_eq_zero_iff x).2 h
  · rfl

/-- A decimal is not rounded. -/
@[simp] theorem rounded_value (x : Decimal) : rounded x.value = x.value := by
  rw [value, rounded_signed _ x.size_nonneg, size, roundedSize_decimal x.coefficient_lt x.scale_le]

theorem unitsAt_cast (x : Decimal) {s : ℕ} (h : x.scale ≤ s) :
    (x.unitsAt s : ℚ) = x.value * 10 ^ s := by
  have hsize : ((x.coefficient * 10 ^ (s - x.scale) : ℕ) : ℚ) = x.size * 10 ^ s := by
    obtain ⟨d, rfl⟩ := Nat.exists_eq_add_of_le h
    rw [Nat.add_sub_cancel_left, size, pow_add]
    push_cast
    field_simp
  unfold unitsAt value signed
  split
  · rw [Int.cast_neg, Int.cast_natCast, hsize, neg_mul]
  · rw [Int.cast_natCast, hsize]

theorem sameValue_iff (x y : Decimal) : x.sameValue y = true ↔ x.value = y.value := by
  have hx : x.scale ≤ Max.max x.scale y.scale := le_max_left _ _
  have hy : y.scale ≤ Max.max x.scale y.scale := le_max_right _ _
  have hpow : (10 : ℚ) ^ Max.max x.scale y.scale ≠ 0 := by positivity
  unfold sameValue
  rw [decide_eq_true_iff, ← Int.cast_inj (α := ℚ), unitsAt_cast x hx, unitsAt_cast y hy]
  exact mul_left_inj' hpow

theorem lt_iff (x y : Decimal) : x.lt y = true ↔ x.value < y.value := by
  have hx : x.scale ≤ Max.max x.scale y.scale := le_max_left _ _
  have hy : y.scale ≤ Max.max x.scale y.scale := le_max_right _ _
  have hpow : (0 : ℚ) < 10 ^ Max.max x.scale y.scale := by positivity
  unfold lt
  rw [decide_eq_true_iff, ← Int.cast_lt (R := ℚ), unitsAt_cast x hx, unitsAt_cast y hy]
  exact mul_lt_mul_iff_left₀ hpow

@[simp] theorem value_abs (x : Decimal) : x.abs.value = |x.value| := (abs_signed _ x.size_nonneg).symm

theorem value_make? {negative : Bool} {c s : ℕ} {z : Decimal} (h : make? negative c s = some z) :
    z.value = signed negative ((c : ℚ) / 10 ^ s) := by
  unfold make? at h
  split at h
  · cases h
    rfl
  · exact nomatch h

theorem exists_make? (negative : Bool) {c s : ℕ} (hc : c < 2 ^ 96) (hs : s ≤ 28) :
    ∃ z, make? negative c s = some z := by
  unfold make?
  rw [dif_pos ⟨hc, hs⟩]
  exact ⟨_, rfl⟩

/-! ## §2. Cutting to size. -/

/-- An operation that rounds the exact result `q`.  It has a result unless `q` is beyond the greatest
decimal. -/
structure Rounds (o : Option Decimal) (q : ℚ) : Prop where
  /-- A result is the rounded one. -/
  value_eq : ∀ z, o = some z → z.value = rounded q
  /-- There is a result for a number in range. -/
  exists_eq : |q| ≤ 2 ^ 96 - 1 → ∃ z, o = some z

namespace Rounds

variable {o : Option Decimal} {q : ℚ}

theorem some_value {x : Decimal} (h : x.value = q) : Rounds (some x) q := by
  subst h
  exact ⟨fun z hz => by cases hz; exact (rounded_value x).symm, fun _ => ⟨x, rfl⟩⟩

theorem none_of_lt (h : 2 ^ 96 - 1 < |q|) : Rounds none q :=
  ⟨fun _ hz => (nomatch hz), fun hq => absurd hq (not_le.2 h)⟩

theorem make_of_roundedSize {negative : Bool} {c s : ℕ} (hq : 0 ≤ q) (hc : c < 2 ^ 96) (hs : s ≤ 28)
    (h : roundedSize q = (c : ℚ) / 10 ^ s) : Rounds (make? negative c s) (signed negative q) :=
  ⟨fun z hz => by rw [value_make? hz, rounded_signed negative hq, h],
    fun _ => exists_make? negative hc hs⟩

theorem zero_of_rounded (h : rounded q = 0) : Rounds (some zero) q :=
  ⟨fun z hz => by cases hz; rw [value_zero, h], fun _ => ⟨zero, rfl⟩⟩

theorem map_clean (h : Rounds o q) : Rounds (o.map clean) q := by
  constructor
  · intro z hz
    obtain ⟨y, hy, rfl⟩ := Option.map_eq_some_iff.1 hz
    rw [value_clean]
    exact h.value_eq y hy
  · intro hq
    obtain ⟨z, hz⟩ := h.exists_eq hq
    exact ⟨z.clean, by rw [hz]; rfl⟩

end Rounds

theorem div_pow_surplusDigits_lt (m : ℕ) : m / 10 ^ surplusDigits m < 2 ^ 96 := by
  induction m using surplusDigits.induct with
  | case1 m h =>
    rw [surplusDigits, dif_pos h]
    simpa using h
  | case2 m h ih =>
    rw [surplusDigits, dif_neg h, pow_succ', ← Nat.div_div_eq_div_mul]
    exact ih

/-- One digit less would leave too many. -/
theorem le_div_pow_of_surplusDigits {m k : ℕ} (h : surplusDigits m = k + 1) :
    2 ^ 96 ≤ m / 10 ^ k := by
  induction k generalizing m with
  | zero =>
    rw [surplusDigits] at h
    split at h
    · exact nomatch h
    · simpa using ‹¬ m < 2 ^ 96›
  | succ k ih =>
    rw [surplusDigits] at h
    split at h
    · exact nomatch h
    · rw [pow_succ' 10 k, ← Nat.div_div_eq_div_mul]
      exact ih (Nat.succ_inj.1 h)

theorem fits_of_halfEven_lt {q : ℚ} (h0 : 0 ≤ q) (h : halfEven q < 2 ^ 96) : Fits q := by
  have hround := isHalfEven_halfEven h0
  have hle : halfEven q ≤ 2 ^ 96 - 1 := by omega
  unfold Fits
  rcases hle.lt_or_eq with hlt | heq
  · have hcast : (halfEven q : ℚ) + 1 ≤ 2 ^ 96 - 1 := by
      have h' : halfEven q + 1 + 1 ≤ 2 ^ 96 := by omega
      have h'' : (((halfEven q + 1 + 1 : ℕ)) : ℚ) ≤ 2 ^ 96 := by exact_mod_cast h'
      push_cast at h''
      linarith
    linarith [hround.upper]
  · have hlt := (hround.even (by rw [heq])).2
    rw [heq] at hlt
    norm_num at hlt ⊢
    linarith

/-- A number whose scaled digits are a coefficient after they are rounded is not too big. -/
theorem fits_of_halfEven_scaled_lt {q : ℚ} {p : ℕ} (h0 : 0 ≤ q)
    (h : halfEven (q * 10 ^ p) < 2 ^ 96) : Fits q :=
  lt_of_le_of_lt (le_mul_of_one_le_right h0 (one_le_pow₀ (by norm_num)))
    (fits_of_halfEven_lt (mul_nonneg h0 (by positivity)) h)

theorem fits_of_pos {q : ℚ} {p : ℕ} (h0 : 0 ≤ q) (hp : 0 < p) (h : q * 10 ^ p < 2 ^ 96) :
    Fits q := by
  have hten : (10 : ℚ) ≤ 10 ^ p := le_self_pow₀ (by norm_num) (by omega)
  have hmul : q * 10 ≤ q * 10 ^ p := mul_le_mul_of_nonneg_left hten h0
  unfold Fits
  norm_num at h ⊢
  linarith

theorem dropDigits_eq {m s k : ℕ} (hks : k ≤ s) :
    dropDigits m k = halfEven ((m : ℚ) / 10 ^ s * 10 ^ (s - k)) := by
  obtain ⟨p, rfl⟩ := Nat.exists_eq_add_of_le' hks
  have hscaled : (m : ℚ) / 10 ^ (p + k) * 10 ^ p = m / ((10 ^ k : ℕ) : ℚ) := by
    rw [pow_add]
    push_cast
    field_simp
  rw [Nat.add_sub_cancel, hscaled, halfEven_div _ (by positivity)]
  rfl

/-- A quotient whose whole part is a coefficient is less than the first one that is none. -/
theorem scaled_lt {m s k : ℕ} (hks : k ≤ s) (h : m / 10 ^ k < 2 ^ 96) :
    (m : ℚ) / 10 ^ s * 10 ^ (s - k) < 2 ^ 96 := by
  obtain ⟨p, rfl⟩ := Nat.exists_eq_add_of_le' hks
  have hm : m < 2 ^ 96 * 10 ^ k := (Nat.div_lt_iff_lt_mul (by positivity)).1 h
  rw [Nat.add_sub_cancel, pow_add, div_mul_eq_mul_div, mul_comm ((10 : ℚ) ^ p),
    mul_div_mul_right _ _ (by positivity), div_lt_iff₀ (by positivity)]
  exact_mod_cast hm

theorem le_scaled {m s d : ℕ} (hds : d ≤ s) (h : 2 ^ 96 ≤ m / 10 ^ d) :
    (2 : ℚ) ^ 96 ≤ (m : ℚ) / 10 ^ s * 10 ^ (s - d) := by
  obtain ⟨p, rfl⟩ := Nat.exists_eq_add_of_le' hds
  have hm : 2 ^ 96 * 10 ^ d ≤ m := (Nat.le_div_iff_mul_le (by positivity)).1 h
  rw [Nat.add_sub_cancel, pow_add, div_mul_eq_mul_div, mul_comm ((10 : ℚ) ^ p),
    mul_div_mul_right _ _ (by positivity), le_div_iff₀ (by positivity)]
  exact_mod_cast hm

section Fit

variable {m s k : ℕ}

/-- Dropping as many digits as needed leaves the places there is room for. -/
theorem roundedSize_dropDigits (hks : k ≤ s) (hplaces : s - 28 ≤ k)
    (hdigit : m / 10 ^ k < 2 ^ 96) (hleast : k = s - 28 ∨ k = surplusDigits m)
    (hfits : Fits ((m : ℚ) / 10 ^ s)) :
    roundedSize ((m : ℚ) / 10 ^ s) = carried (dropDigits m k) / 10 ^ (s - k) := by
  rcases Nat.eq_zero_or_pos k with rfl | hk
  · rw [pow_zero, Nat.div_one] at hdigit
    rw [roundedSize_decimal hdigit (by omega), dropDigits_zero, carried_of_lt hdigit]
    rfl
  · have hnext : s - k = 28 ∨ (2 : ℚ) ^ 96 ≤ (m : ℚ) / 10 ^ s * 10 ^ (s - k + 1) := by
      rcases hleast with hleast | hleast
      · left
        omega
      · right
        -- with one digit less dropped, too many are left
        obtain ⟨d, rfl⟩ := Nat.exists_eq_succ_of_ne_zero hk.ne'
        rw [show s - d.succ + 1 = s - d by omega]
        exact le_scaled (by omega) (le_div_pow_of_surplusDigits hleast.symm)
    rw [roundedSize_eq hfits (by omega) (scaled_lt hks hdigit) hnext, dropDigits_eq hks]

/-- Digits before the point that would have to go make the number too big. -/
theorem le_of_surplusDigits (h : s < surplusDigits m) : (2 : ℚ) ^ 96 ≤ (m : ℚ) / 10 ^ s := by
  obtain ⟨d, hd⟩ : ∃ d, surplusDigits m = d + 1 := ⟨surplusDigits m - 1, by omega⟩
  have hbig : 2 ^ 96 ≤ m / 10 ^ s :=
    le_trans (le_div_pow_of_surplusDigits hd)
      (Nat.div_le_div_left (Nat.pow_le_pow_right (by norm_num) (by omega)) (by positivity))
  have hvalue := le_scaled le_rfl hbig
  rwa [Nat.sub_self, pow_zero, mul_one] at hvalue

/-- A number without places that is rounded beyond the greatest coefficient is too big. -/
theorem lt_of_dropDigits (h : 2 ^ 96 ≤ dropDigits m s) : (2 : ℚ) ^ 96 - 1 < (m : ℚ) / 10 ^ s := by
  have hdrop := dropDigits_eq (m := m) (le_refl s)
  rw [Nat.sub_self, pow_zero, mul_one] at hdrop
  have hround := (isHalfEven_halfEven (q := (m : ℚ) / 10 ^ s) (by positivity)).lower
  have hcast : (2 : ℚ) ^ 96 ≤ dropDigits m s := by exact_mod_cast h
  rw [← hdrop] at hround
  linarith

/-- Digits that are rounded into the first number that is no coefficient lose one more. -/
theorem roundedSize_carried (hks : k < s) (hplaces : s - 28 ≤ k) (hdigit : m / 10 ^ k < 2 ^ 96)
    (hleast : k = s - 28 ∨ k = surplusDigits m) (hcoefficient : 2 ^ 96 ≤ dropDigits m k) :
    dropDigits m k = 2 ^ 96
      ∧ roundedSize ((m : ℚ) / 10 ^ s)
        = ((7922816251426433759354395034 : ℕ) : ℚ) / 10 ^ (s - k - 1) := by
  have hscaled := scaled_lt hks.le hdigit
  have hfits := fits_of_pos (by positivity) (by omega) hscaled
  have heq : dropDigits m k = 2 ^ 96 :=
    le_antisymm (dropDigits_eq hks.le ▸ halfEven_le_limit (by positivity) hscaled) hcoefficient
  refine ⟨heq, ?_⟩
  rw [roundedSize_dropDigits hks.le hplaces hdigit hleast hfits, heq, carried_limit]
  obtain ⟨d, hd⟩ : ∃ d, s - k = d + 1 := ⟨s - k - 1, by omega⟩
  rw [hd, Nat.add_sub_cancel, pow_succ]
  push_cast
  field_simp
  norm_num

/-- Cutting to size fails only where digits before the point would have to go. -/
theorem fit_rounds (negative : Bool) (m s : ℕ) :
    Rounds (fit negative m s) (signed negative ((m : ℚ) / 10 ^ s)) := by
  have h0 : (0 : ℚ) ≤ (m : ℚ) / 10 ^ s := by positivity
  have habs := abs_signed negative h0
  unfold fit
  dsimp only
  generalize hk : Nat.max (s - maxScale) (surplusDigits m) = k
  have hplaces : s - 28 ≤ k := hk ▸ Nat.le_max_left _ _
  have hleast : k = s - 28 ∨ k = surplusDigits m := by
    rw [← hk]
    exact max_choice _ _
  have hdigit : m / 10 ^ k < 2 ^ 96 := by
    have hdigits : surplusDigits m ≤ k := hk ▸ Nat.le_max_right _ _
    exact lt_of_le_of_lt (Nat.div_le_div_left (Nat.pow_le_pow_right (by norm_num) hdigits)
      (by positivity)) (div_pow_surplusDigits_lt m)
  split
  · -- the digits to drop are more than there are places, so they are not all behind the point
    rename_i hlt
    apply Rounds.none_of_lt
    have hbig := le_of_surplusDigits (m := m) (s := s) (by omega)
    rw [habs]
    linarith
  · rename_i hks
    have hks : k ≤ s := not_lt.1 hks
    have hscale : s - k ≤ 28 := by omega
    split
    · rename_i hcoefficient
      have hfits := fits_of_halfEven_scaled_lt h0 (dropDigits_eq hks ▸ hcoefficient)
      refine .make_of_roundedSize h0 hcoefficient hscale ?_
      rw [roundedSize_dropDigits hks hplaces hdigit hleast hfits, carried_of_lt hcoefficient]
    · rename_i hcoefficient
      have hcoefficient : 2 ^ 96 ≤ dropDigits m k := not_lt.1 hcoefficient
      split
      · rename_i hsk
        subst hsk
        exact .none_of_lt (habs.symm ▸ lt_of_dropDigits hcoefficient)
      · obtain ⟨hlimit, hround⟩ :=
          roundedSize_carried (by omega) hplaces hdigit hleast hcoefficient
        have htenth : dropDigits (2 ^ 96) 1 = 7922816251426433759354395034 := by decide
        rw [hlimit, htenth]
        exact .make_of_roundedSize h0 (by decide) (by omega) hround

end Fit

/-- An integer number of units, cut to size. -/
theorem fit_units_rounds (units : ℤ) (s : ℕ) :
    Rounds (fit (decide (units < 0)) units.natAbs s) ((units : ℚ) / 10 ^ s) := by
  have hcast : ((units.natAbs : ℕ) : ℚ) = |(units : ℚ)| := by
    rw [← Int.cast_natCast, Int.natCast_natAbs, Int.cast_abs]
  have hunits : signed (decide (units < 0)) ((units.natAbs : ℚ) / 10 ^ s) = (units : ℚ) / 10 ^ s := by
    rw [hcast]
    unfold signed
    rcases lt_or_ge units 0 with h | h
    · have hq : (units : ℚ) < 0 := by exact_mod_cast h
      rw [decide_eq_true h, if_pos rfl, abs_of_neg hq, neg_div, neg_neg]
    · have hq : (0 : ℚ) ≤ units := by exact_mod_cast h
      rw [decide_eq_false (not_lt.2 h), abs_of_nonneg hq]
      rfl
  exact hunits ▸ fit_rounds _ _ s

/-! ## §3. Sums. -/

section Operations

variable (x y : Decimal)

/-- **Sums.** -/
theorem add_rounds : Rounds (x.add y) (x.value + y.value) := by
  unfold add
  split
  · rename_i hx
    exact .some_value (by rw [value_of_isZero hx, zero_add])
  · split
    · rename_i hy
      exact .some_value (by rw [value_of_isZero hy, add_zero])
    · dsimp only
      generalize hs : Nat.max x.scale y.scale = s
      have htotal : ((x.unitsAt s + y.unitsAt s : ℤ) : ℚ) / 10 ^ s = x.value + y.value := by
        rw [Int.cast_add, unitsAt_cast x (hs ▸ Nat.le_max_left _ _),
          unitsAt_cast y (hs ▸ Nat.le_max_right _ _), ← add_mul,
          mul_div_cancel_right₀ _ (by positivity)]
      exact htotal ▸ (fit_units_rounds _ s).map_clean

/-- **Differences.** -/
theorem sub_rounds : Rounds (x.sub y) (x.value - y.value) := by
  unfold sub
  split
  · rename_i hx
    apply Rounds.some_value
    rw [value_of_isZero hx, zero_sub]
    split
    · rename_i hy
      rw [value_of_isZero hy, neg_zero]
    · exact value_neg y
  · split
    · rename_i hy
      exact .some_value (by rw [value_of_isZero hy, sub_zero])
    · dsimp only
      generalize hs : Nat.max x.scale y.scale = s
      have htotal : ((x.unitsAt s - y.unitsAt s : ℤ) : ℚ) / 10 ^ s = x.value - y.value := by
        rw [Int.cast_sub, unitsAt_cast x (hs ▸ Nat.le_max_left _ _),
          unitsAt_cast y (hs ▸ Nat.le_max_right _ _), ← sub_mul,
          mul_div_cancel_right₀ _ (by positivity)]
      exact htotal ▸ (fit_units_rounds _ s).map_clean

/-! ## §4. Products and powers. -/

/-- A product of small coefficients with many places is rounded to zero. -/
theorem roundedSize_tiny {m s : ℕ} (hm : m < 2 ^ 64) (hs : 47 < s) :
    roundedSize ((m : ℚ) / 10 ^ s) = 0 := by
  have hmq : (m : ℚ) < 2 ^ 64 := by exact_mod_cast hm
  have hscaled : (m : ℚ) / 10 ^ s * 10 ^ 28 ≤ 1 / 2 := by
    obtain ⟨d, rfl⟩ := Nat.exists_eq_add_of_le (show 48 ≤ s from hs)
    have hplaces : (10 : ℚ) ^ 48 ≤ 10 ^ 48 * 10 ^ d :=
      le_mul_of_one_le_right (by norm_num) (one_le_pow₀ (by norm_num))
    rw [div_mul_eq_mul_div, div_le_iff₀ (by positivity), pow_add]
    calc (m : ℚ) * 10 ^ 28 ≤ 2 ^ 64 * 10 ^ 28 := by gcongr
      _ ≤ 1 / 2 * 10 ^ 48 := by norm_num
      _ ≤ 1 / 2 * (10 ^ 48 * 10 ^ d) := by gcongr
  have hzero : halfEven ((m : ℚ) / 10 ^ s * 10 ^ 28) = 0 :=
    (isHalfEven_halfEven (by positivity)).unique
      ⟨by push_cast; linarith [show (0 : ℚ) ≤ (m : ℚ) / 10 ^ s * 10 ^ 28 by positivity],
        by push_cast; linarith, fun h => (nomatch h)⟩
  have hlt : (m : ℚ) / 10 ^ s * 10 ^ 28 < 2 ^ 96 := by
    norm_num at hscaled ⊢
    linarith
  rw [roundedSize_eq (fits_of_pos (by positivity) (by norm_num) hlt) le_rfl hlt (Or.inl rfl), hzero]
  simp [carried]

/-- **Products.** -/
theorem mul_rounds : Rounds (x.mul y) (x.value * y.value) := by
  have hproduct : x.value * y.value = signed (x.negative != y.negative)
      (((x.coefficient * y.coefficient : ℕ) : ℚ) / 10 ^ (x.scale + y.scale)) := by
    rw [value, value, signed_mul, size, size, pow_add, div_mul_div_comm]
    push_cast
    rfl
  unfold mul
  split
  · rename_i hzero
    apply Rounds.some_value
    rcases Bool.or_eq_true_iff.1 hzero with h | h
    · rw [value_of_isZero h, zero_mul, value_zero]
    · rw [value_of_isZero h, mul_zero, value_zero]
  · dsimp only
    have hfit := fit_rounds (x.negative != y.negative) (x.coefficient * y.coefficient)
      (x.scale + y.scale)
    rw [← hproduct] at hfit
    split
    · rename_i hsmall
      split
      · rename_i hscale
        apply Rounds.zero_of_rounded
        have hm : x.coefficient * y.coefficient < 2 ^ 64 := by
          have := Nat.mul_lt_mul'' hsmall.1 hsmall.2
          omega
        rw [hproduct, rounded_signed _ (by positivity), roundedSize_tiny hm hscale, signed_zero]
      · exact hfit.map_clean
    · exact hfit

end Operations

/-- Trailing zeros behind the point do not count. -/
theorem trimmed_value (c s : ℕ) :
    ((trimmed c s).1 : ℚ) / 10 ^ (trimmed c s).2 = (c : ℚ) / 10 ^ s := by
  induction s generalizing c with
  | zero => rfl
  | succ s ih =>
    unfold trimmed
    split
    · rename_i hzero
      have hc : (c : ℚ) = (c / 10 : ℕ) * 10 := by
        exact_mod_cast (Nat.div_mul_cancel (Nat.dvd_of_mod_eq_zero hzero)).symm
      rw [ih, pow_succ, hc, mul_div_mul_right _ _ (by norm_num)]
    · rfl

theorem value_norm (x : Decimal) : x.norm.value = x.value := by
  unfold norm
  split
  · rename_i h
    rw [value_of_isZero h, value_zero]
  · exact congrArg (signed x.negative) (trimmed_value x.coefficient x.scale)

/-- The digits of an integer, before its places. -/
theorem coefficient_of_integer {x : Decimal} {n : ℤ} (h : x.value = n) :
    x.coefficient = n.natAbs * 10 ^ x.scale := by
  have hsize : x.size = n.natAbs := by
    rw [Nat.cast_natAbs, Int.cast_abs, ← h, value, abs_signed _ x.size_nonneg]
  rw [size, div_eq_iff (by positivity)] at hsize
  exact_mod_cast hsize

theorem hasFraction_of_integer {x : Decimal} {n : ℤ} (h : x.value = n) :
    x.hasFraction = false := by
  unfold hasFraction
  rw [coefficient_of_integer h, Nat.mul_mod_left]
  rfl

/-- An integer is read back from a decimal if it has 64 bits. -/
theorem toInt64?_of_integer {x : Decimal} {n : ℤ} (h : x.value = n) :
    x.toInt64? = if -2 ^ 63 ≤ n ∧ n < 2 ^ 63 then some n else none := by
  have htrunc : x.trunc.size = x.size := by
    have hpow : 0 < 10 ^ x.scale := by positivity
    show ((x.coefficient / 10 ^ x.scale : ℕ) : ℚ) / 10 ^ 0 = x.coefficient / 10 ^ x.scale
    rw [coefficient_of_integer h, Nat.mul_div_cancel _ hpow]
    push_cast
    field_simp
  have hunits : x.trunc.unitsAt 0 = n := by
    have hcast := unitsAt_cast x.trunc (s := 0) le_rfl
    have hvalue : x.trunc.value = x.value := congrArg (signed x.negative) htrunc
    rw [hvalue, h, pow_zero, mul_one] at hcast
    exact_mod_cast hcast
  unfold toInt64?
  rw [hunits]

/-- The square as a power. -/
theorem powNat_two_rounds (x : Decimal) : Rounds (x.powNat 2) (x.value * x.value) := by
  unfold powNat
  simp only [OfNat.ofNat_ne_zero, OfNat.ofNat_ne_one, if_false, if_true]
  split
  · rename_i h
    exact .some_value (by rw [value_of_isZero h, value_zero, mul_zero])
  · split
    · rename_i h
      have hone : x.value = 1 := by rw [(sameValue_iff x one).1 h, value_one]
      exact .some_value (by rw [hone, value_one, mul_one])
    · exact mul_rounds x x

/-- Repeated squaring makes the cube from the number and its square. -/
theorem bySquaring_three (x : Decimal) :
    bySquaring mul one x 3 = (one.mul x).bind fun a => (x.mul x).bind a.mul := by
  rw [bySquaring]
  simp only [show 3 % 2 = 1 from rfl, show ¬ 3 / 2 = 0 by decide, dif_neg, if_true,
    not_false_eq_true]
  congr 1
  funext a
  congr 1
  funext b
  rw [bySquaring]
  simp

/-- The cube is the product of the number and its square, each rounded. -/
theorem powNat_three (x : Decimal) :
    (∀ z, x.powNat 3 = some z → z.value = rounded (x.value * rounded (x.value * x.value)))
      ∧ (|x.value| ≤ 2 ^ 96 - 1 → |x.value * x.value| ≤ 2 ^ 96 - 1 →
        |x.value * rounded (x.value * x.value)| ≤ 2 ^ 96 - 1 → ∃ z, x.powNat 3 = some z) := by
  have hzero : rounded 0 = 0 := by exact_mod_cast rounded_intCast 0
  have hone : rounded 1 = 1 := by exact_mod_cast rounded_intCast 1
  have hfirst := mul_rounds one x
  have hsquare := mul_rounds x x
  rw [value_one, one_mul] at hfirst
  unfold powNat
  simp only [OfNat.ofNat_ne_zero, OfNat.ofNat_ne_one, if_false]
  split
  · rename_i h
    rw [value_of_isZero h, zero_mul, hzero]
    exact ⟨fun z hz => by cases hz; exact value_zero, fun _ _ _ => ⟨_, rfl⟩⟩
  · split
    · rename_i h
      rw [(sameValue_iff x one).1 h, value_one, one_mul, one_mul, hone, hone]
      exact ⟨fun z hz => by cases hz; exact value_one, fun _ _ _ => ⟨_, rfl⟩⟩
    · simp only [show ¬ (3 = 2) by decide, if_false, show 3 < wideExponent by decide, if_true,
        bySquaring_three]
      constructor
      · intro z hz
        obtain ⟨c, hc, rfl⟩ := Option.map_eq_some_iff.1 hz
        obtain ⟨a, ha, hc⟩ := Option.bind_eq_some_iff.1 hc
        obtain ⟨b, hb, hc⟩ := Option.bind_eq_some_iff.1 hc
        rw [value_norm, (mul_rounds a b).value_eq c hc, hfirst.value_eq a ha, rounded_value,
          hsquare.value_eq b hb]
      · intro hx hxx hxxx
        obtain ⟨a, ha⟩ := hfirst.exists_eq hx
        obtain ⟨b, hb⟩ := hsquare.exists_eq hxx
        have hab := (mul_rounds a b).exists_eq
        rw [hfirst.value_eq a ha, rounded_value, hsquare.value_eq b hb] at hab
        obtain ⟨c, hc⟩ := hab hxxx
        exact ⟨c.norm, by rw [ha, hb]; exact congrArg (Option.map norm) hc⟩

end ShapeEstimator.Decimal
