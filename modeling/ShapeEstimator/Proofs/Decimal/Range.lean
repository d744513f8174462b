/-
  ShapeEstimator.Proofs.Decimal.Range
  ────────────────────────────────
  **INTEGER BOUNDS SURVIVE ROUNDING.**

  An integer that bounds an exact result bounds the rounded one too.  So a range
  between two integers is carried through the operations like a range of exact
  numbers, and an operation has a result where its range is one of decimals:

      x ∈ [a, b]  and  y ∈ [c, d]   →   x.add y ∈ [a + c, b + d]
-/
import ShapeEstimator.Proofs.Decimal.Quotient
import ShapeEstimator.Proofs.Decimal.SquareRoot

namespace ShapeEstimator.Decimal

/-! ## §1. Ranges. -/

/-- The numbers between two integers. -/
structure Range where
  /-- The least one. -/
  lower : ℤ
  /-- The greatest one. -/
  upper : ℤ
  deriving DecidableEq, Repr

namespace Range

variable {r s t : Range} {x y : Decimal} {o : Option Decimal} {q : ℚ}

/-- Whether a number is in a range. -/
structure Contains (r : Range) (q : ℚ) : Prop where
  /-- It is not below the range. -/
  lower_le : (r.lower : ℚ) ≤ q
  /-- It is not above the range. -/
  le_upper : q ≤ r.upper

/-- The range between two integers, if these are decimals. -/
def between (lower upper : ℤ) : Option Range :=
  if -(2 ^ 96 - 1) ≤ lower ∧ upper ≤ 2 ^ 96 - 1 then some ⟨lower, upper⟩ else none

/-- An operation whose exact result is between two integers that are decimals has a result there. -/
theorem exists_of_rounds {lower upper : ℤ} (ht : between lower upper = some t) (h : Rounds o q)
    (hlower : (lower : ℚ) ≤ q) (hupper : q ≤ upper) : ∃ z, o = some z ∧ t.Contains z.value := by
  unfold between at ht
  split at ht
  · rename_i hin
    cases ht
    have hlow : (-(2 ^ 96 - 1) : ℚ) ≤ lower := by exact_mod_cast hin.1
    have hhigh : (upper : ℚ) ≤ 2 ^ 96 - 1 := by exact_mod_cast hin.2
    obtain ⟨z, hz⟩ := h.exists_eq (abs_le.2 ⟨hlow.trans hlower, hupper.trans hhigh⟩)
    refine ⟨z, hz, ?_⟩
    rw [h.value_eq z hz]
    exact ⟨le_rounded hlower, rounded_le hupper⟩
  · exact nomatch ht

/-- The least range of a decimal. -/
def ofDecimal (x : Decimal) : Range :=
  ⟨x.unitsAt x.scale / (10 ^ x.scale : ℕ), -(-x.unitsAt x.scale / (10 ^ x.scale : ℕ))⟩

theorem ofDecimal_contains (x : Decimal) : (ofDecimal x).Contains x.value := by
  have hpos : (0 : ℚ) < 10 ^ x.scale := by positivity
  have hint : (0 : ℤ) < (10 ^ x.scale : ℕ) := by positivity
  have hunits := unitsAt_cast x le_rfl
  have hfloor : ∀ n : ℤ, ((n / (10 ^ x.scale : ℕ) : ℤ) : ℚ) * 10 ^ x.scale ≤ n := by
    intro n
    exact_mod_cast Int.ediv_mul_le n hint.ne'
  constructor
  · rw [← mul_le_mul_iff_of_pos_right hpos, ← hunits]
    exact hfloor _
  · rw [← mul_le_mul_iff_of_pos_right hpos, ← hunits]
    have hneg := hfloor (-x.unitsAt x.scale)
    unfold ofDecimal
    push_cast at hneg ⊢
    linarith

/-! ## §2. Operators. -/

/-- The range of sums. -/
def add (r s : Range) : Option Range := between (r.lower + s.lower) (r.upper + s.upper)

theorem add_contains (ht : r.add s = some t) (hx : r.Contains x.value) (hy : s.Contains y.value) :
    ∃ z, x.add y = some z ∧ t.Contains z.value := by
  have hlow := add_le_add hx.lower_le hy.lower_le
  have hhigh := add_le_add hx.le_upper hy.le_upper
  exact exists_of_rounds ht (add_rounds x y) (by exact_mod_cast hlow) (by exact_mod_cast hhigh)

/-- The range of differences, of numbers in order or of any. -/
def sub (ordered : Bool) (r s : Range) : Option Range :=
  between (if ordered then Max.max 0 (r.lower - s.upper) else r.lower - s.upper)
    (r.upper - s.lower)

theorem sub_contains {ordered : Bool} (ht : r.sub ordered s = some t) (hx : r.Contains x.value)
    (hy : s.Contains y.value) (hle : ordered = true → y.value ≤ x.value) :
    ∃ z, x.sub y = some z ∧ t.Contains z.value := by
  have hlow := sub_le_sub hx.lower_le hy.le_upper
  have hhigh := sub_le_sub hx.le_upper hy.lower_le
  refine exists_of_rounds ht (sub_rounds x y) ?_ (by exact_mod_cast hhigh)
  split
  · rename_i hordered
    rw [Int.cast_max, max_le_iff]
    exact ⟨by exact_mod_cast sub_nonneg.2 (hle hordered), by exact_mod_cast hlow⟩
  · exact_mod_cast hlow

/-- The range of products of numbers without a minus sign. -/
def mul (r s : Range) : Option Range :=
  if 0 ≤ r.lower ∧ 0 ≤ s.lower then between (r.lower * s.lower) (r.upper * s.upper) else none

theorem mul_contains (ht : r.mul s = some t) (hx : r.Contains x.value) (hy : s.Contains y.value) :
    ∃ z, x.mul y = some z ∧ t.Contains z.value := by
  unfold mul at ht
  split at ht
  · rename_i hsign
    have hr : (0 : ℚ) ≤ r.lower := by exact_mod_cast hsign.1
    have hs : (0 : ℚ) ≤ s.lower := by exact_mod_cast hsign.2
    have hlow := mul_le_mul hx.lower_le hy.lower_le hs (hr.trans hx.lower_le)
    have hhigh := mul_le_mul hx.le_upper hy.le_upper (hs.trans hy.lower_le)
      ((hr.trans hx.lower_le).trans hx.le_upper)
    exact exists_of_rounds ht (mul_rounds x y) (by exact_mod_cast hlow) (by exact_mod_cast hhigh)
  · exact nomatch ht

/-- The range of quotients by one or more, of numbers in order or of any. -/
def div (ordered : Bool) (r s : Range) : Option Range :=
  if 0 ≤ r.lower ∧ 1 ≤ s.lower then between 0 (if ordered then 1 else r.upper) else none

theorem div_contains {ordered : Bool} (ht : r.div ordered s = some t) (hx : r.Contains x.value)
    (hy : s.Contains y.value) (hle : ordered = true → x.value ≤ y.value) :
    y.isZero = false ∧ ∃ z, x.div y = some z ∧ t.Contains z.value := by
  unfold div at ht
  split at ht
  · rename_i hsign
    have hnonneg : 0 ≤ x.value := le_trans (by exact_mod_cast hsign.1) hx.lower_le
    have hone : 1 ≤ y.value := le_trans (by exact_mod_cast hsign.2) hy.lower_le
    have hzero : y.isZero = false := by
      apply Bool.eq_false_iff.2
      intro hzero
      rw [value_of_isZero hzero] at hone
      linarith
    refine ⟨hzero, exists_of_rounds ht (div_rounds x hzero) ?_ ?_⟩
    · rw [Int.cast_zero]
      positivity
    · split
      · rename_i hordered
        rw [Int.cast_one, div_le_one (by linarith)]
        exact hle hordered
      · exact (div_le_self hnonneg hone).trans hx.le_upper
  · exact nomatch ht

end Range

/-! ## §3. Powers. -/

/-- A power by repeated products, each rounded. -/
def roundedPower (q : ℚ) : ℕ → ℚ
  | 0 => 1
  | n + 1 => rounded (q * roundedPower q n)

theorem roundedPower_nonneg {q : ℚ} (hq : 0 ≤ q) (n : ℕ) : 0 ≤ roundedPower q n := by
  induction n with
  | zero => exact zero_le_one
  | succ n ih => exact rounded_nonneg (mul_nonneg hq ih)

theorem roundedPower_mono {q p : ℚ} (hq : 0 ≤ q) (hqp : q ≤ p) (n : ℕ) :
    roundedPower q n ≤ roundedPower p n := by
  induction n with
  | zero => exact le_rfl
  | succ n ih => exact rounded_mono (mul_le_mul hqp ih (roundedPower_nonneg hq n) (hq.trans hqp))

theorem le_roundedPower {q : ℚ} {a : ℤ} (ha : 0 ≤ a) (h : (a : ℚ) ≤ q) (n : ℕ) :
    ((a ^ n : ℤ) : ℚ) ≤ roundedPower q n := by
  have hcast : (0 : ℚ) ≤ a := by exact_mod_cast ha
  induction n with
  | zero =>
    rw [pow_zero, Int.cast_one]
    exact le_rfl
  | succ n ih =>
    apply le_rounded
    rw [pow_succ', Int.cast_mul]
    exact mul_le_mul h ih (by positivity) (hcast.trans h)

/-- The last product of a power, before it is rounded. -/
theorem mul_roundedPower_le {q : ℚ} {b : ℤ} (hq : 0 ≤ q) (h : q ≤ b) (n : ℕ) :
    q * roundedPower q n ≤ ((b ^ (n + 1) : ℤ) : ℚ) := by
  induction n with
  | zero => simpa [roundedPower] using h
  | succ n ih =>
    rw [pow_succ', Int.cast_mul]
    exact mul_le_mul h (rounded_le ih) (roundedPower_nonneg hq (n + 1)) (hq.trans h)

theorem roundedPower_le {q : ℚ} {b : ℤ} (hq : 0 ≤ q) (h : q ≤ b) (n : ℕ) :
    roundedPower q n ≤ ((b ^ n : ℤ) : ℚ) := by
  cases n with
  | zero =>
    rw [pow_zero, Int.cast_one]
    exact le_rfl
  | succ n => exact rounded_le (mul_roundedPower_le hq h n)

theorem roundedPower_two (x : Decimal) : roundedPower x.value 2 = rounded (x.value * x.value) := by
  simp only [roundedPower, mul_one, rounded_value]

theorem roundedPower_three (x : Decimal) :
    roundedPower x.value 3 = rounded (x.value * rounded (x.value * x.value)) := by
  rw [← roundedPower_two]
  rfl

/-- A square or cube has a result where the last product is in range: the others are not greater. -/
theorem exists_powNat {x : Decimal} {n : ℕ} {b : ℤ} (hn : n = 2 ∨ n = 3) (hx : 0 ≤ x.value)
    (hxb : x.value ≤ b) (hb : b ^ n ≤ 2 ^ 96 - 1) :
    ∃ z, x.powNat n = some z ∧ z.value = roundedPower x.value n := by
  have hproduct : ∀ k < n, |x.value * roundedPower x.value k| ≤ 2 ^ 96 - 1 := by
    intro k hk
    have hnonneg : 0 ≤ b := by exact_mod_cast hx.trans hxb
    have hpow : b ^ (k + 1) ≤ b ^ n := by
      rcases hnonneg.eq_or_lt with h | h
      · rw [← h, zero_pow k.succ_ne_zero, zero_pow (by omega)]
      · exact pow_le_pow_right₀ (by omega) hk
    have hlimit : ((b ^ (k + 1) : ℤ) : ℚ) ≤ 2 ^ 96 - 1 := by exact_mod_cast hpow.trans hb
    rw [abs_of_nonneg (mul_nonneg hx (roundedPower_nonneg hx k))]
    exact (mul_roundedPower_le hx hxb k).trans hlimit
  have hfirst : roundedPower x.value 1 = x.value := by
    simp only [roundedPower, mul_one, rounded_value]
  rcases hn with rfl | rfl
  · have hsquare := hproduct 1 (by norm_num)
    rw [hfirst] at hsquare
    obtain ⟨z, hz⟩ := (powNat_two_rounds x).exists_eq hsquare
    exact ⟨z, hz, by rw [(powNat_two_rounds x).value_eq z hz, roundedPower_two]⟩
  · obtain ⟨hvalue, hexists⟩ := powNat_three x
    have hsize := hproduct 0 (by norm_num)
    have hsquare := hproduct 1 (by norm_num)
    have hcube := hproduct 2 (by norm_num)
    rw [roundedPower, mul_one] at hsize
    rw [hfirst] at hsquare
    rw [roundedPower_two] at hcube
    obtain ⟨z, hz⟩ := hexists hsize hsquare hcube
    exact ⟨z, hz, by rw [hvalue z hz, roundedPower_three]⟩

namespace Range

variable {r t : Range} {x : Decimal} {n : ℕ}

/-- The range of squares or cubes of numbers without a minus sign. -/
def pow (n : ℕ) (r : Range) : Option Range :=
  if 0 ≤ r.lower ∧ (n = 2 ∨ n = 3) then between (r.lower ^ n) (r.upper ^ n) else none

theorem pow_contains (ht : r.pow n = some t) (hx : r.Contains x.value) :
    ∃ z, x.powNat n = some z ∧ z.value = roundedPower x.value n ∧ t.Contains z.value := by
  unfold pow at ht
  split at ht
  · rename_i hsign
    have hnonneg : 0 ≤ x.value := le_trans (by exact_mod_cast hsign.1) hx.lower_le
    unfold between at ht
    split at ht
    · rename_i hin
      cases ht
      obtain ⟨z, hz, hvalue⟩ := exists_powNat hsign.2 hnonneg hx.le_upper hin.2
      refine ⟨z, hz, hvalue, ?_⟩
      rw [hvalue]
      exact ⟨le_roundedPower hsign.1 hx.lower_le n, roundedPower_le hnonneg hx.le_upper n⟩
    · exact nomatch ht
  · exact nomatch ht

/-! ## §4. Functions. -/

/-- The range of square roots of numbers from two on. -/
def root (r : Range) : Option Range := if 2 ≤ r.lower then some ⟨1, r.upper⟩ else none

theorem root_contains {root : Decimal} (ht : r.root = some t) (hx : r.Contains x.value)
    (hroot : x.sqrt = .ok root) : t.Contains root.value := by
  unfold Range.root at ht
  split at ht
  · rename_i hlow
    cases ht
    have htwo : 2 ≤ x.value := le_trans (by exact_mod_cast hlow) hx.lower_le
    obtain ⟨hone, hupper⟩ := sqrt_bounds htwo hx.le_upper hroot
    exact ⟨by exact_mod_cast hone, hupper⟩
  · exact nomatch ht

/-- The range of angles in degrees. -/
def degrees (r : Range) : Option Range :=
  between (-(180 * Max.max |r.lower| |r.upper|)) (180 * Max.max |r.lower| |r.upper|)

theorem value_halfTurnDegrees : halfTurnDegrees.value = 180 := by
  simp [value, size, signed, halfTurnDegrees]

theorem one_le_value_pi : 1 ≤ Decimal.pi.value := by
  norm_num [value, size, signed, Decimal.pi]

theorem degrees_contains (ht : r.degrees = some t) (hx : r.Contains x.value) :
    ∃ z, ((x.mul halfTurnDegrees).bind fun y => y.div Decimal.pi) = some z
      ∧ t.Contains z.value := by
  unfold degrees at ht
  generalize hm : 180 * Max.max |r.lower| |r.upper| = m at ht
  have hsize : |x.value * halfTurnDegrees.value| ≤ m := by
    have hle : |x.value| ≤ Max.max |(r.lower : ℚ)| |(r.upper : ℚ)| :=
      abs_le_max_abs_abs hx.lower_le hx.le_upper
    rw [value_halfTurnDegrees, abs_mul, abs_of_nonneg (by norm_num : (0 : ℚ) ≤ 180), ← hm]
    push_cast
    linarith
  obtain ⟨hlow, hhigh⟩ := abs_le.1 hsize
  obtain ⟨y, hy, hycontains⟩ := exists_of_rounds ht (mul_rounds x halfTurnDegrees)
    (by push_cast; exact hlow) hhigh
  have hbetween : t = ⟨-m, m⟩ := by
    unfold between at ht
    split at ht
    · exact (Option.some_inj.1 ht).symm
    · exact nomatch ht
  subst hbetween
  have hpi := one_le_value_pi
  have hquotient : |y.value / Decimal.pi.value| ≤ m := by
    rw [abs_div, abs_of_pos (by linarith : 0 < Decimal.pi.value)]
    refine (div_le_self (abs_nonneg _) hpi).trans (abs_le.2 ⟨?_, hycontains.le_upper⟩)
    exact_mod_cast hycontains.lower_le
  obtain ⟨hlow', hhigh'⟩ := abs_le.1 hquotient
  obtain ⟨z, hz, hzcontains⟩ := exists_of_rounds ht (div_rounds y (y := Decimal.pi) rfl)
    (by push_cast; exact hlow') hhigh'
  exact ⟨z, by rw [hy]; exact hz, hzcontains⟩

end Range

end ShapeEstimator.Decimal
