/-
  ShapeEstimator.Proofs.Decimal.Power
  ────────────────────────────────
  **POWERS WITH INTEGER EXPONENT, AND HOW FAR THEY ARE OFF.**

  Every product on the way to a power is rounded, to 28 places or to as many digits as fit, and
  there are fewer products than the exponent has units.  So a power with exponent `n` is off by

      2 · n · 10 ^ (-28)  ·  max 1 |power|

  at most.  A negative power is the inverse of a positive one.  The inverse of a large number is as
  good as the number; the inverse of a small one is off by the square of what the number has lost.
-/
import ShapeEstimator.Proofs.Decimal.Drift
import ShapeEstimator.Proofs.Decimal.Quotient
import ShapeEstimator.Proofs.Decimal.Wide

namespace ShapeEstimator.Decimal

/-! ## §1. What rounding costs. -/

/-- By how much a number in range is off when it is rounded, relative to its size or one. -/
def unitRoundoff : ℚ := 1 / 10 ^ 28

theorem unitRoundoff_nonneg : 0 ≤ unitRoundoff := by norm_num [unitRoundoff]

/-- Half a unit of the last place is little: there are 28 places, or the digits fill the room there
is. -/
theorem half_unit_le (q : ℚ) :
    1 / 2 ≤ unitRoundoff * Max.max 1 q * 10 ^ places q := by
  have hone : (1 : ℚ) ≤ Max.max 1 q := le_max_left 1 q
  have hself : q ≤ Max.max 1 q := le_max_right 1 q
  unfold unitRoundoff
  rcases (places_le q).lt_or_eq with hplaces | hplaces
  · have hnext : (2 : ℚ) ^ 96 ≤ q * 10 ^ places q * 10 := by
      have h := le_mul_pow_places_succ (Nat.lt_succ_self _) (Nat.succ_le_of_lt hplaces)
      rwa [Nat.succ_eq_add_one, pow_succ (10 : ℚ), ← mul_assoc] at h
    have hsize : q * 10 ^ places q ≤ Max.max 1 q * 10 ^ places q :=
      mul_le_mul_of_nonneg_right hself (by positivity)
    have hlimit : (10 : ℚ) ^ 28 * 5 ≤ 2 ^ 96 := by norm_num
    rw [div_mul_eq_mul_div, one_mul, div_mul_eq_mul_div, le_div_iff₀ (by positivity)]
    linarith
  · rw [hplaces]
    have hsize : (1 : ℚ) * 10 ^ 28 ≤ Max.max 1 q * 10 ^ 28 :=
      mul_le_mul_of_nonneg_right hone (by positivity)
    norm_num at hsize ⊢
    linarith

/-- By how much the digits are off that a number is rounded to. -/
theorem abs_carried_sub_le {q : ℚ} (h0 : 0 ≤ q) (hfits : Fits q) :
    |(carried (halfEven (q * 10 ^ places q)) : ℚ) - q * 10 ^ places q|
      ≤ unitRoundoff * Max.max 1 q * 10 ^ places q := by
  have hpow : (0 : ℚ) < 10 ^ places q := by positivity
  have hscaled : 0 ≤ q * 10 ^ places q := mul_nonneg h0 hpow.le
  obtain ⟨hlower, hupper, -⟩ := isHalfEven_halfEven hscaled
  rcases (halfEven_le_limit hscaled (mul_pow_places_lt hfits.lt)).lt_or_eq with hlt | heq
  · rw [carried_of_lt hlt]
    refine le_trans ?_ (half_unit_le q)
    rw [abs_le]
    constructor <;> linarith
  · -- the coefficient came out one too long, and loses its last digit
    have hcarried : ((carried (halfEven (q * 10 ^ places q)) : ℕ) : ℚ) = 2 ^ 96 + 4 := by
      rw [heq, carried_limit]
      norm_num
    have hcast : ((halfEven (q * 10 ^ places q) : ℕ) : ℚ) = 2 ^ 96 := by
      rw [heq]
      norm_num
    have hsize : q * 10 ^ places q ≤ Max.max 1 q * 10 ^ places q :=
      mul_le_mul_of_nonneg_right (le_max_right 1 q) hpow.le
    rw [hcast] at hlower hupper
    rw [hcarried, unitRoundoff, abs_le]
    norm_num at hlower hupper ⊢
    constructor <;> linarith

theorem abs_roundedSize_sub_le {q : ℚ} (h0 : 0 ≤ q) :
    |roundedSize q - q| ≤ unitRoundoff * Max.max 1 q := by
  by_cases hfits : Fits q
  · have hpow : (0 : ℚ) < 10 ^ places q := by positivity
    have hoff : |roundedSize q - q|
        = |(carried (halfEven (q * 10 ^ places q)) : ℚ) - q * 10 ^ places q| / 10 ^ places q := by
      rw [roundedSize, if_pos hfits, ← abs_of_pos hpow, ← abs_div, abs_of_pos hpow]
      congr 1
      field_simp
    rw [hoff, div_le_iff₀ hpow]
    exact abs_carried_sub_le h0 hfits
  · rw [roundedSize_of_not_fits hfits, sub_self, abs_zero]
    have hone : (0 : ℚ) ≤ Max.max 1 q := zero_le_one.trans (le_max_left 1 q)
    exact mul_nonneg unitRoundoff_nonneg hone

/-- **Rounding is off by little.** -/
theorem abs_rounded_sub_le (q : ℚ) : |rounded q - q| ≤ unitRoundoff * Max.max 1 |q| := by
  rcases le_total 0 q with h | h
  · rw [rounded_of_nonneg h, abs_of_nonneg h]
    exact abs_roundedSize_sub_le h
  · have hneg := abs_roundedSize_sub_le (neg_nonneg.2 h)
    rw [← rounded_of_nonneg (neg_nonneg.2 h), rounded_neg] at hneg
    rw [abs_of_nonpos h, abs_sub_comm]
    have hflip : q - rounded q = -rounded q - -q := by ring
    rwa [hflip]

/-! ## §2. Products that stand for powers. -/

/-- There is room for a power with exponent `n`, and for what it can be off by. -/
def Moderate (u b : ℚ) (n : ℕ) : Prop := (1 + drift u n) * powerSize b n ≤ 75 * 10 ^ 27

section Products

variable {u q : ℚ} {N k l e f : ℕ}

theorem moderate_zero (u b : ℚ) : Moderate u b 0 := by
  simp [Moderate, drift_zero, powerSize]
  norm_num

/-- There is room for everything that is made on the way to a power. -/
theorem Moderate.abs_mul_le (hu : 0 ≤ u) (h : Moderate u q N) {x y : ℚ} (hx : Near u q k e x)
    (hy : Near u q l f y) (hk : k + l + 1 ≤ N) (he : e + f ≤ N) : |x * y| ≤ 75 * 10 ^ 27 := by
  have hmul := (hx.exact_mul hu hy).abs_le
  have hdrift := drift_mono hu (show k + l ≤ N by omega)
  have hsize := powerSize_le q he
  have hpos := drift_nonneg hu (k + l)
  calc |x * y| ≤ (1 + drift u (k + l)) * powerSize q (e + f) := hmul
    _ ≤ (1 + drift u N) * powerSize q N := by
        have hone := one_le_powerSize q (e + f)
        apply mul_le_mul (by linarith) hsize (by linarith) (by linarith)
    _ ≤ 75 * 10 ^ 27 := h

/-- A product of decimals that stand for powers. -/
theorem mul_tracks {b : ℚ} (hN : Moderate unitRoundoff b N) {x y : Decimal}
    (hx : Near unitRoundoff b k e x.value) (hy : Near unitRoundoff b l f y.value) :
    Tracks (fun k e (z : Decimal) => Near unitRoundoff b k e z.value) N (k + l + 1) (e + f)
      (x.mul y) := by
  have hu := unitRoundoff_nonneg
  have hrounds := mul_rounds x y
  constructor
  · intro z hz
    apply hx.mul hu hy
    rw [hrounds.value_eq z hz]
    exact abs_rounded_sub_le _
  · intro hk he
    apply hrounds.exists_eq
    exact (hN.abs_mul_le hu hx hy hk he).trans (by norm_num)

/-- A wide number that stands for a power.  Where there is room, it has as many places as the power
has exactly, at `d` places for the base, or many of them. -/
structure WideNear (b : ℚ) (d N k e : ℕ) (w : Wide) : Prop where
  /-- The number has as many digits and places as there is room for. -/
  inRange : w.InRange
  /-- The number stands for the power. -/
  near : Near Wide.productRoundoff b k e w.value
  /-- The number has enough places. -/
  places : k ≤ N → e ≤ N → Min.min (d * e) 28 ≤ w.scale

/-- A number that stands for a power of a base that is not small is not zero. -/
theorem coefficient_ne_zero {b : ℚ} {w : Wide} (hb : 1 ≤ |b|) (hk : drift u k < 1)
    (h : Near u b k e w.value) : w.coefficient ≠ 0 := by
  intro hzero
  have hvalue : w.value = 0 := by
    simp [Wide.value, Wide.size, hzero, signed_zero]
  unfold Near powerSize at h
  rw [hvalue, zero_sub, abs_neg, abs_pow, max_eq_right hb] at h
  have hpos : 0 < |b| ^ e := pow_pos (by linarith) e
  have hless : drift u k * |b| ^ e < 1 * |b| ^ e := mul_lt_mul_of_pos_right hk hpos
  linarith

/-- A product of wide numbers that stand for powers. -/
theorem wide_mul_tracks {b : ℚ} {d : ℕ} (hN : Moderate Wide.productRoundoff b N)
    (hdrift : drift Wide.productRoundoff N < 1) (hd : d = 0 ∨ 1 ≤ |b|) {x y : Wide}
    (hx : WideNear b d N k e x) (hy : WideNear b d N l f y) :
    Tracks (WideNear b d N) N (k + l + 1) (e + f) (x.mul y) := by
  have hu := Wide.productRoundoff_nonneg
  constructor
  · intro z hz
    obtain ⟨hrange, hoff, hplaces⟩ := Wide.mul_isProduct hz
    refine ⟨hrange, hx.near.mul hu hy.near hoff, fun hk he => ?_⟩
    rcases hd with rfl | hb
    · simp
    · -- the factors are not zero, so the product has their places or many of them
      have hsmall : ∀ i ≤ N, drift Wide.productRoundoff i < 1 := fun i hi =>
        lt_of_le_of_lt (drift_mono hu hi) hdrift
      have hx0 := coefficient_ne_zero hb (hsmall k (by omega)) hx.near
      have hy0 := coefficient_ne_zero hb (hsmall l (by omega)) hy.near
      have hsize := hN.abs_mul_le hu hx.near hy.near hk he
      have hscale := hplaces hx0 hy0 (hsize.trans (by norm_num))
      have hxs := hx.places (by omega) (by omega)
      have hys := hy.places (by omega) (by omega)
      rw [Nat.mul_add]
      omega
  · intro hk he
    apply Wide.exists_mul
    exact lt_of_le_of_lt (hN.abs_mul_le hu hx.near hy.near hk he) (by norm_num)

end Products

/-! ## §3. Powers with natural numbers. -/

/-- A result, or none, that stands for a number. -/
structure Approximates (o : Option Decimal) (q ε : ℚ) : Prop where
  /-- A result is off by `ε` at most. -/
  off : ∀ z, o = some z → |z.value - q| ≤ ε
  /-- There is a result for a number of moderate size. -/
  exists_eq : |q| ≤ 7 * 10 ^ 28 → ∃ z, o = some z

theorem Approximates.of_value {x : Decimal} {q ε : ℚ} (hε : 0 ≤ ε) (h : x.value = q) :
    Approximates (some x) q ε := by
  refine ⟨fun z hz => ?_, fun _ => ⟨x, rfl⟩⟩
  cases hz
  rw [h, sub_self, abs_zero]
  exact hε

theorem Approximates.norm {o : Option Decimal} {q ε : ℚ} (h : Approximates o q ε) :
    Approximates (o.map norm) q ε := by
  constructor
  · intro z hz
    obtain ⟨x, hx, rfl⟩ := Option.map_eq_some_iff.1 hz
    rw [value_norm]
    exact h.off x hx
  · intro hq
    obtain ⟨x, hx⟩ := h.exists_eq hq
    exact ⟨x.norm, by rw [hx]; rfl⟩

section Natural

variable {b : Decimal} {u q : ℚ} {n : ℕ}

/-- A power of moderate size leaves room for what its roundings are off by. -/
theorem moderate_of_drift_le (hdrift : drift u n ≤ 1 / 100) (h : |q ^ n| ≤ 7 * 10 ^ 28) :
    Moderate u q n := by
  have hsize : powerSize q n ≤ 7 * 10 ^ 28 := by
    rw [powerSize_eq]
    exact max_le (by norm_num) h
  have hone := one_le_powerSize q n
  unfold Moderate
  calc (1 + drift u n) * powerSize q n ≤ (1 + 1 / 100) * (7 * 10 ^ 28) := by
        apply mul_le_mul (by linarith) hsize (by linarith) (by norm_num)
    _ ≤ 75 * 10 ^ 27 := by norm_num

/-- Repeated squaring of a decimal. -/
theorem squaring_approximates (hn : n < wideExponent) :
    Approximates (bySquaring mul one b n) (b.value ^ n)
      (2 * n * unitRoundoff * Max.max 1 |b.value ^ n|) := by
  have hu := unitRoundoff_nonneg
  have hfew : 2 * n * unitRoundoff ≤ 1 / 100 := by
    have hcast : (n : ℚ) ≤ 1024 := by exact_mod_cast hn.le
    unfold unitRoundoff
    linarith
  have hdrift := drift_le hu (hfew.trans (by norm_num))
  have hone : Near unitRoundoff b.value 0 0 one.value := by
    rw [value_one]
    exact near_one _ _
  have htracks : ∀ N, Moderate unitRoundoff b.value N →
      Tracks (fun k e (z : Decimal) => Near unitRoundoff b.value k e z.value) N n n
        (bySquaring mul one b n) := by
    intro N hN
    have h := bySquaring_tracks (fun hx hy => mul_tracks hN hx hy) n hone (near_base _ b.value)
    simpa using h
  constructor
  · intro z hz
    have hnear := (htracks 0 (moderate_zero _ _)).holds z hz
    unfold Near at hnear
    rw [powerSize_eq] at hnear
    refine hnear.trans (mul_le_mul_of_nonneg_right ?_ (zero_le_one.trans (le_max_left _ _)))
    exact hdrift
  · intro hq
    have hmoderate := moderate_of_drift_le (hdrift.trans hfew) hq
    exact (htracks n hmoderate).exists_eq le_rfl le_rfl

/-- A base whose high powers are moderate is not an integer, unless its size is at most one. -/
theorem one_le_scale_of_pow_le (hb : 1 < |b.value|) (hn : 1024 ≤ n)
    (h : |b.value ^ n| ≤ 7 * 10 ^ 28) : 1 ≤ b.scale := by
  by_contra hscale
  have hscale : b.scale = 0 := by omega
  have hsize : |b.value| = b.coefficient := by
    have habs : |b.value| = b.size := abs_signed _ b.size_nonneg
    rw [habs, size, hscale, pow_zero, div_one]
  have htwo : (2 : ℚ) ≤ |b.value| := by
    rw [hsize] at hb ⊢
    exact_mod_cast hb
  have hpow : (2 : ℚ) ^ 100 ≤ |b.value ^ n| := by
    rw [abs_pow]
    calc (2 : ℚ) ^ 100 ≤ 2 ^ n := pow_le_pow_right₀ (by norm_num) (by omega)
      _ ≤ |b.value| ^ n := pow_le_pow_left₀ (by norm_num) htwo n
  have hlarge : (7 * 10 ^ 28 : ℚ) < 2 ^ 100 := by norm_num
  linarith

/-- Wide products are so good that as many as an exponent has room for are off by little. -/
theorem drift_wide_le (hn : n ≤ 2 ^ 63) : drift Wide.productRoundoff n ≤ 1 / 10 ^ 28 := by
  have hu := Wide.productRoundoff_nonneg
  have hcast : (n : ℚ) ≤ 2 ^ 63 := by exact_mod_cast hn
  have hroom : (2 : ℚ) * 2 ^ 63 * Wide.productRoundoff ≤ 1 / 10 ^ 28 := by
    norm_num [Wide.productRoundoff]
  have hfew : 2 * n * Wide.productRoundoff ≤ 1 / 10 ^ 28 := le_trans (by gcongr) hroom
  exact (drift_le hu (hfew.trans (by norm_num))).trans hfew

/-- Repeated squaring of a wide number. -/
theorem wide_squaring_tracks {N d : ℕ} (hN : Moderate Wide.productRoundoff b.value N)
    (hdrift : drift Wide.productRoundoff N < 1)
    (hd : d = 0 ∨ d = 1 ∧ 1 ≤ |b.value| ∧ 1 ≤ b.scale) :
    Tracks (WideNear b.value d N) N n n
      (bySquaring Wide.mul Wide.one (Wide.ofDecimal b) n) := by
  have hone : WideNear b.value d N 0 0 Wide.one :=
    ⟨Wide.inRange_one, by rw [Wide.value_one]; exact near_one _ _, fun _ _ => Nat.zero_le _⟩
  have hbase : WideNear b.value d N 0 1 (Wide.ofDecimal b) := by
    refine ⟨Wide.inRange_ofDecimal b, near_base _ _, fun _ _ => ?_⟩
    show Min.min (d * 1) 28 ≤ b.scale
    rcases hd with rfl | ⟨rfl, -, hscale⟩
    · simp
    · omega
  have h := bySquaring_tracks
    (fun hx hy => wide_mul_tracks hN hdrift (hd.imp_right fun h => h.2.1) hx hy) n hone hbase
  simpa using h

/-- The decimal that is made of a wide power. -/
theorem wide_squaring_off (hn : 1024 ≤ n) (hmax : n ≤ 2 ^ 63) {w : Wide} {z : Decimal}
    (hw : bySquaring Wide.mul Wide.one (Wide.ofDecimal b) n = some w)
    (hz : w.toDecimal? = some z) :
    |z.value - b.value ^ n| ≤ 2 * n * unitRoundoff * Max.max 1 |b.value ^ n| := by
  have hdrift := drift_wide_le hmax
  have hone := one_le_powerSize b.value n
  have hnear := ((wide_squaring_tracks (moderate_zero _ b.value) (by simp [drift_zero])
    (Or.inl rfl)).holds w hw).near
  have hwide : Max.max 1 |w.value| ≤ (1 + 1 / 10 ^ 28) * powerSize b.value n := by
    apply max_le (by linarith)
    exact hnear.abs_le.trans (mul_le_mul_of_nonneg_right (by linarith) (by linarith))
  have hoff : |w.value - b.value ^ n| ≤ 1 / 10 ^ 28 * powerSize b.value n :=
    hnear.trans (mul_le_mul_of_nonneg_right hdrift (by linarith))
  have hcast : (1024 : ℚ) ≤ n := by exact_mod_cast hn
  rw [← powerSize_eq]
  -- one rounding to a decimal, and next to nothing before it
  calc |z.value - b.value ^ n| ≤ |z.value - w.value| + |w.value - b.value ^ n| :=
        abs_sub_le _ _ _
    _ ≤ Wide.decimalRoundoff * ((1 + 1 / 10 ^ 28) * powerSize b.value n)
        + 1 / 10 ^ 28 * powerSize b.value n := by
        refine add_le_add ((Wide.toDecimal?_off hz).trans ?_) hoff
        exact mul_le_mul_of_nonneg_left hwide (by norm_num [Wide.decimalRoundoff])
    _ ≤ 2 * 1024 * unitRoundoff * powerSize b.value n := by
        norm_num [Wide.decimalRoundoff, unitRoundoff]
        linarith
    _ ≤ 2 * n * unitRoundoff * powerSize b.value n := by
        unfold unitRoundoff
        gcongr

/-- A power of moderate size is not out of range. -/
theorem exists_wide_squaring (hn : 1024 ≤ n) (hmax : n ≤ 2 ^ 63)
    (h : |b.value ^ n| ≤ 7 * 10 ^ 28) :
    ∃ w z, bySquaring Wide.mul Wide.one (Wide.ofDecimal b) n = some w
      ∧ w.toDecimal? = some z := by
  have hdrift := drift_wide_le hmax
  have hmoderate := moderate_of_drift_le (hdrift.trans (by norm_num)) h
  have hless : drift Wide.productRoundoff n < 1 := lt_of_le_of_lt hdrift (by norm_num)
  rcases le_or_gt |b.value| 1 with hb | hb
  · -- the power is at most one, and so far from the greatest decimal
    have htracks := wide_squaring_tracks (n := n) (d := 0) hmoderate hless (Or.inl rfl)
    obtain ⟨w, hw⟩ := htracks.exists_eq le_rfl le_rfl
    have hwn := htracks.holds w hw
    have hsize := hwn.near.abs_le
    rw [Wide.abs_value, powerSize, max_eq_left hb, one_pow, mul_one] at hsize
    have hsmall : w.size ≤ 2 := by linarith
    obtain ⟨z, hz⟩ := Wide.exists_toDecimal? hwn.inRange (hsmall.trans (by norm_num))
      (Or.inl (lt_of_le_of_lt hsmall (by norm_num)))
    exact ⟨w, z, hw, hz⟩
  · -- the base has a place, and so the power has many
    have hscale := one_le_scale_of_pow_le hb hn h
    have htracks := wide_squaring_tracks (n := n) (d := 1) hmoderate hless
      (Or.inr ⟨rfl, hb.le, hscale⟩)
    obtain ⟨w, hw⟩ := htracks.exists_eq le_rfl le_rfl
    have hwn := htracks.holds w hw
    have hsize := hwn.near.abs_le.trans hmoderate
    rw [Wide.abs_value] at hsize
    have hplaces := hwn.places le_rfl le_rfl
    obtain ⟨z, hz⟩ := Wide.exists_toDecimal? hwn.inRange hsize (Or.inr (by omega))
    exact ⟨w, z, hw, hz⟩

/-- **Powers with natural numbers** are off by two units of the last place for each unit of the
exponent at most. -/
theorem powNat_approximates (b : Decimal) (hn : n ≤ 2 ^ 63) :
    Approximates (b.powNat n) (b.value ^ n) (2 * n * unitRoundoff * Max.max 1 |b.value ^ n|) := by
  have hbound : 0 ≤ 2 * n * unitRoundoff * Max.max 1 |b.value ^ n| := by
    have hone : (0 : ℚ) ≤ Max.max 1 |b.value ^ n| := zero_le_one.trans (le_max_left _ _)
    have hu := unitRoundoff_nonneg
    positivity
  unfold powNat
  by_cases h0 : n = 0
  · rw [if_pos h0]
    exact .of_value hbound (by rw [h0, pow_zero, value_one])
  rw [if_neg h0]
  by_cases hzero : b.isZero = true
  · rw [if_pos hzero]
    exact .of_value hbound (by rw [value_of_isZero hzero, value_zero, zero_pow h0])
  rw [if_neg hzero]
  by_cases hone : b.sameValue one = true
  · rw [if_pos hone]
    rw [sameValue_iff, value_one] at hone
    exact .of_value hbound (by rw [hone, one_pow, value_one])
  rw [if_neg hone]
  by_cases h1 : n = 1
  · rw [if_pos h1]
    exact .of_value hbound (by rw [h1, pow_one])
  rw [if_neg h1]
  by_cases h2 : n = 2
  · subst h2
    rw [if_pos rfl, pow_two]
    have hrounds := mul_rounds b b
    refine ⟨fun z hz => ?_, fun hq => hrounds.exists_eq (hq.trans (by norm_num))⟩
    rw [hrounds.value_eq z hz]
    refine (abs_rounded_sub_le _).trans (mul_le_mul_of_nonneg_right ?_ ?_)
    · norm_num [unitRoundoff]
    · exact zero_le_one.trans (le_max_left _ _)
  rw [if_neg h2]
  by_cases hwide : n < wideExponent
  · rw [if_pos hwide]
    exact (squaring_approximates hwide).norm
  · rw [if_neg hwide]
    have hlarge : 1024 ≤ n := not_lt.1 hwide
    constructor
    · intro z hz
      obtain ⟨w, hw, hz⟩ := Option.bind_eq_some_iff.1 hz
      obtain ⟨x, hx, rfl⟩ := Option.map_eq_some_iff.1 hz
      rw [value_norm]
      exact wide_squaring_off hlarge hn hw hx
    · intro hq
      obtain ⟨w, x, hw, hx⟩ := exists_wide_squaring hlarge hn hq
      exact ⟨x.norm, by rw [hw, Option.bind_some, hx]; rfl⟩

end Natural

/-! ## §4. Powers with integers. -/

section Integer

variable {b : Decimal} {m : ℕ} {n : ℤ}

/-- A power that is not out of range, for an exponent that is not negative. -/
theorem powInt_natCast (b : Decimal) (m : ℕ) : b.powInt m = b.powNat m := by
  rw [powInt, if_pos (Int.natCast_nonneg m), Int.toNat_natCast]

/-- A negative power is the inverse of the positive one. -/
theorem powInt_neg (b : Decimal) (hm : 1 ≤ m) :
    b.powInt (-m) = (b.powNat m).bind fun p => if p.isZero then none else one.div p := by
  rw [powInt, if_neg (by omega), neg_neg, Int.toNat_natCast]

/-- The inverse of a number that is off by a share of its size, at most a half. -/
theorem abs_inv_sub_le {p q ρ : ℚ} (hq : q ≠ 0) (h : |p - q| ≤ ρ * |q|) (hρ : ρ ≤ 1 / 2) :
    p ≠ 0 ∧ |p⁻¹| ≤ 2 * |q⁻¹| ∧ |p⁻¹ - q⁻¹| ≤ 2 * ρ * |q⁻¹| := by
  have hpos : 0 < |q| := abs_pos.2 hq
  have hshare : ρ * |q| ≤ 1 / 2 * |q| := mul_le_mul_of_nonneg_right hρ hpos.le
  -- the number keeps half of its size at least
  have hhalf : |q| / 2 ≤ |p| := by
    have htriangle : |q| ≤ |q - p| + |p| := by
      simpa using abs_add_le (q - p) p
    rw [abs_sub_comm] at htriangle
    linarith
  have hp : p ≠ 0 := by
    rintro rfl
    rw [abs_zero] at hhalf
    linarith
  have hinv : |p⁻¹| ≤ 2 * |q⁻¹| := by
    rw [abs_inv, abs_inv]
    calc |p|⁻¹ ≤ (|q| / 2)⁻¹ := inv_anti₀ (by linarith) hhalf
      _ = 2 * |q|⁻¹ := by rw [inv_div, div_eq_mul_inv]
  refine ⟨hp, hinv, ?_⟩
  have hdiff : p⁻¹ - q⁻¹ = p⁻¹ * (q - p) * q⁻¹ := by
    field_simp
  rw [hdiff, abs_mul, abs_mul, abs_sub_comm q p]
  calc |p⁻¹| * |p - q| * |q⁻¹| ≤ 2 * |q⁻¹| * (ρ * |q|) * |q⁻¹| := by gcongr
    _ = 2 * ρ * |q⁻¹| * (|q| * |q⁻¹|) := by ring
    _ = 2 * ρ * |q⁻¹| := by rw [← abs_mul, mul_inv_cancel₀ hq, abs_one, mul_one]

/-- The inverse of a decimal that stands for a number, as a decimal. -/
theorem exists_inv {p : Decimal} {q ρ : ℚ} (hq : q ≠ 0) (h : |p.value - q| ≤ ρ * |q|)
    (hρ : ρ ≤ 1 / 2) (hsize : |q⁻¹| ≤ 10 ^ 28) :
    p.isZero = false ∧ ∃ z, one.div p = some z
      ∧ |z.value - q⁻¹| ≤ 2 * (unitRoundoff + ρ) * Max.max 1 |q⁻¹| := by
  obtain ⟨hp, hinv, hoff⟩ := abs_inv_sub_le hq h hρ
  have hzero : p.isZero = false := by
    rw [← Bool.not_eq_true, ← value_eq_zero_iff]
    exact hp
  have hrounds := div_rounds one hzero
  rw [value_one, one_div] at hrounds
  obtain ⟨z, hz⟩ := hrounds.exists_eq (hinv.trans (by linarith))
  have hone : (1 : ℚ) ≤ Max.max 1 |q⁻¹| := le_max_left _ _
  have hself : |q⁻¹| ≤ Max.max 1 |q⁻¹| := le_max_right _ _
  have hu := unitRoundoff_nonneg
  have hρ0 : 0 ≤ ρ := by
    have hpos : 0 < |q| := abs_pos.2 hq
    by_contra hneg
    have hless : ρ * |q| < 0 := mul_neg_of_neg_of_pos (not_le.1 hneg) hpos
    linarith [abs_nonneg (p.value - q)]
  refine ⟨hzero, z, hz, ?_⟩
  rw [hrounds.value_eq z hz]
  calc |rounded p.value⁻¹ - q⁻¹| ≤ |rounded p.value⁻¹ - p.value⁻¹| + |p.value⁻¹ - q⁻¹| :=
        abs_sub_le _ _ _
    _ ≤ unitRoundoff * (2 * Max.max 1 |q⁻¹|) + 2 * ρ * Max.max 1 |q⁻¹| := by
        refine add_le_add ((abs_rounded_sub_le _).trans ?_) (hoff.trans ?_)
        · exact mul_le_mul_of_nonneg_left (max_le (by linarith) (by linarith)) hu
        · exact mul_le_mul_of_nonneg_left hself (by linarith)
    _ = 2 * (unitRoundoff + ρ) * Max.max 1 |q⁻¹| := by ring

/-- A positive power of a base that is not small, as far as there is one. -/
theorem powNat_off_of_one_le (hb : 1 ≤ |b.value|) (hmax : m ≤ 2 ^ 63) {p : Decimal}
    (hp : b.powNat m = some p) :
    |p.value - b.value ^ m| ≤ 2 * m * unitRoundoff * |b.value ^ m| := by
  have hoff := (powNat_approximates b hmax).off p hp
  rwa [max_eq_right (by rw [abs_pow]; exact one_le_pow₀ hb)] at hoff

/-- The positive power of a base below one is in range. -/
theorem exists_powNat_of_lt_one (hb : |b.value| < 1) (hmax : m ≤ 2 ^ 63) :
    ∃ p, b.powNat m = some p ∧ |p.value - b.value ^ m| ≤ 2 * m * unitRoundoff := by
  have hsize : |b.value ^ m| ≤ 1 := by
    rw [abs_pow]
    exact pow_le_one₀ (abs_nonneg _) hb.le
  have h := powNat_approximates b hmax
  obtain ⟨p, hp⟩ := h.exists_eq (hsize.trans (by norm_num))
  have hoff := h.off p hp
  rw [max_eq_left hsize, mul_one] at hoff
  exact ⟨p, hp, hoff⟩

/-- **Negative powers of a base that is not small** are as accurate as positive ones.  Where there
is none, the power is less than the last place. -/
theorem powInt_neg_of_one_le (hb : 1 ≤ |b.value|) (hm : 1 ≤ m) (hmax : m ≤ 2 ^ 63) :
    (∃ z, b.powInt (-m) = some z ∧ |z.value - (b.value ^ m)⁻¹| ≤ m / 10 ^ 27)
      ∨ b.powInt (-m) = none ∧ 1 < |b.value| ∧ |(b.value ^ m)⁻¹| ≤ m / 10 ^ 27 := by
  have hsize : 1 ≤ |b.value ^ m| := by
    rw [abs_pow]
    exact one_le_pow₀ hb
  have hcast : (1 : ℚ) ≤ m := by exact_mod_cast hm
  have hne : b.value ^ m ≠ 0 := abs_pos.1 (by linarith)
  have hinv : |(b.value ^ m)⁻¹| ≤ 1 := by
    rw [abs_inv]
    exact inv_le_one_of_one_le₀ hsize
  rw [powInt_neg b hm]
  cases hp : b.powNat m with
  | some p =>
    left
    have hshare : 2 * m * unitRoundoff ≤ 1 / 2 := by
      have hlarge : (m : ℚ) ≤ 2 ^ 63 := by exact_mod_cast hmax
      have hroom : (2 : ℚ) * 2 ^ 63 * unitRoundoff ≤ 1 / 2 := by
        norm_num [unitRoundoff]
      refine le_trans ?_ hroom
      unfold unitRoundoff
      gcongr
    obtain ⟨hzero, z, hz, hoff⟩ := exists_inv hne (powNat_off_of_one_le hb hmax hp) hshare
      (hinv.trans (by norm_num))
    refine ⟨z, by simp [hzero, hz], hoff.trans ?_⟩
    rw [max_eq_left hinv, unitRoundoff]
    linarith
  | none =>
    -- only a large power is missing, and its inverse is small
    right
    have hlarge : 7 * 10 ^ 28 < |b.value ^ m| := by
      by_contra hsmall
      obtain ⟨p, hp'⟩ := (powNat_approximates b hmax).exists_eq (not_lt.1 hsmall)
      rw [hp] at hp'
      exact nomatch hp'
    refine ⟨rfl, ?_, ?_⟩
    · refine hb.lt_of_ne fun hone => ?_
      rw [abs_pow, ← hone, one_pow] at hlarge
      norm_num at hlarge
    · rw [abs_inv]
      calc |b.value ^ m|⁻¹ ≤ (7 * 10 ^ 28)⁻¹ := inv_anti₀ (by norm_num) hlarge.le
        _ ≤ 1 / 10 ^ 27 := by norm_num
        _ ≤ m / 10 ^ 27 := by gcongr

/-- **Negative powers of a base below one** are inverses of small numbers, and are off by the square
of what the small number is off by.  There is one as long as that is little. -/
theorem powInt_neg_of_lt_one (hb0 : b.value ≠ 0) (hb : |b.value| < 1) (hm : 1 ≤ m)
    (hmax : m ≤ 2 ^ 63) (h : m * |(b.value ^ m)⁻¹| ≤ 10 ^ 27) :
    ∃ z, b.powInt (-m) = some z
      ∧ |z.value - (b.value ^ m)⁻¹| ≤ m / 10 ^ 27 * |(b.value ^ m)⁻¹| ^ 2 := by
  have hne : b.value ^ m ≠ 0 := pow_ne_zero m hb0
  have hcast : (1 : ℚ) ≤ m := by exact_mod_cast hm
  have hu := unitRoundoff_nonneg
  have hinv : 1 ≤ |(b.value ^ m)⁻¹| := by
    rw [abs_inv, abs_pow]
    exact (one_le_inv₀ (pow_pos (abs_pos.2 hb0) m)).2 (pow_le_one₀ (abs_nonneg _) hb.le)
  obtain ⟨p, hp, hoff⟩ := exists_powNat_of_lt_one hb hmax
  -- what the small number has lost, as a share of it
  have hshare : |p.value - b.value ^ m|
      ≤ 2 * m * unitRoundoff * |(b.value ^ m)⁻¹| * |b.value ^ m| := by
    rw [mul_assoc _ |(b.value ^ m)⁻¹|, ← abs_mul, inv_mul_cancel₀ hne, abs_one, mul_one]
    exact hoff
  have hhalf : 2 * m * unitRoundoff * |(b.value ^ m)⁻¹| ≤ 1 / 2 := by
    unfold unitRoundoff
    linarith
  have hsize : |(b.value ^ m)⁻¹| ≤ 10 ^ 28 := by
    have hless : 1 * |(b.value ^ m)⁻¹| ≤ m * |(b.value ^ m)⁻¹| := by gcongr
    linarith
  obtain ⟨hzero, z, hz, hclose⟩ := exists_inv hne hshare hhalf hsize
  refine ⟨z, by simp [powInt_neg b hm, hp, hzero, hz], hclose.trans ?_⟩
  rw [max_eq_right hinv]
  have hone : 1 * 1 ≤ m * |(b.value ^ m)⁻¹| := mul_le_mul hcast hinv zero_le_one (by linarith)
  have hgrow : unitRoundoff * |(b.value ^ m)⁻¹|
      ≤ unitRoundoff * (m * |(b.value ^ m)⁻¹|) * |(b.value ^ m)⁻¹| := by
    have h := mul_le_mul_of_nonneg_left hone (mul_nonneg hu (abs_nonneg (b.value ^ m)⁻¹))
    linarith
  calc 2 * (unitRoundoff + 2 * m * unitRoundoff * |(b.value ^ m)⁻¹|) * |(b.value ^ m)⁻¹|
      = 2 * (unitRoundoff * |(b.value ^ m)⁻¹|)
        + 4 * (unitRoundoff * (m * |(b.value ^ m)⁻¹|) * |(b.value ^ m)⁻¹|) := by ring
    _ ≤ 10 * (unitRoundoff * (m * |(b.value ^ m)⁻¹|) * |(b.value ^ m)⁻¹|) := by
        have hpos : 0 ≤ unitRoundoff * (m * |(b.value ^ m)⁻¹|) * |(b.value ^ m)⁻¹| := by positivity
        linarith
    _ = m / 10 ^ 27 * |(b.value ^ m)⁻¹| ^ 2 := by
        unfold unitRoundoff
        ring

end Integer

end ShapeEstimator.Decimal
