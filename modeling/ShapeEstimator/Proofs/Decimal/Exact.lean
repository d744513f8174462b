/-
  ShapeEstimator.Proofs.Decimal.Exact
  ────────────────────────────────
  **NOTHING IS LOST WHERE THE RESULT IS A DECIMAL.**

  An operation rounds its exact result, and a decimal is rounded to itself.  So a sum, a product or
  a quotient that is a decimal comes out exactly, whatever scales its operands have.

  A power is made in steps.  In its shortest form a decimal has no zeros at the end that a power
  could shed, so a lower power has fewer digits and fewer places than a higher one:

      b ^ n  is a decimal   →   b ^ k  is a decimal, for all  k ≤ n

  and every step toward an exact power is exact.  Powers with more than a thousand factors are
  decimals for the bases 0, 1 and -1 only.  For those the wide products shed zeros and nothing else.
-/
import Mathlib.RingTheory.Int.Basic
import ShapeEstimator.Proofs.Decimal.Power

namespace ShapeEstimator.Decimal

/-! ## §1. Numbers that are decimals. -/

/-- A number that some decimal stands for: a coefficient of 96 bits, and 28 places at most. -/
def IsDecimal (q : ℚ) : Prop := ∃ (m : ℤ) (s : ℕ), |m| < 2 ^ 96 ∧ s ≤ 28 ∧ q = m / 10 ^ s

/-- The digits of a decimal with its sign. -/
def digits (x : Decimal) : ℤ := if x.negative then -x.coefficient else x.coefficient

section IsDecimal

variable {q : ℚ} {o : Option Decimal}

theorem value_eq_digits (x : Decimal) : x.value = x.digits / 10 ^ x.scale := by
  unfold value signed size digits
  split
  · push_cast
    ring
  · push_cast
    rfl

theorem abs_digits_lt (x : Decimal) : |x.digits| < 2 ^ 96 := by
  have hlt := x.coefficient_lt
  unfold digits
  split
  · rw [abs_neg, Nat.abs_cast]
    exact_mod_cast hlt
  · rw [Nat.abs_cast]
    exact_mod_cast hlt

theorem isDecimal_value (x : Decimal) : IsDecimal x.value :=
  ⟨x.digits, x.scale, x.abs_digits_lt, x.scale_le, value_eq_digits x⟩

theorem IsDecimal.exists_value (h : IsDecimal q) : ∃ x : Decimal, x.value = q := by
  obtain ⟨m, s, hm, hs, rfl⟩ := h
  have hcoefficient : m.natAbs < 2 ^ 96 := by
    rw [← Int.ofNat_lt, Int.natCast_natAbs]
    exact_mod_cast hm
  refine ⟨⟨decide (m < 0), m.natAbs, s, hcoefficient, hs⟩, ?_⟩
  rw [value_eq_digits]
  congr 2
  unfold digits
  rcases lt_or_ge m 0 with hneg | hpos
  · rw [decide_eq_true hneg, if_pos rfl]
    dsimp only
    omega
  · rw [decide_eq_false (not_lt.2 hpos), if_neg Bool.false_ne_true]
    dsimp only
    omega

theorem IsDecimal.rounded_eq (h : IsDecimal q) : rounded q = q := by
  obtain ⟨x, rfl⟩ := h.exists_value
  exact rounded_value x

theorem IsDecimal.abs_le (h : IsDecimal q) : |q| ≤ 2 ^ 96 - 1 := by
  obtain ⟨m, s, hm, -, rfl⟩ := h
  have hdigits : ((|m| : ℤ) : ℚ) ≤ 2 ^ 96 - 1 := by
    have hle : |m| ≤ 2 ^ 96 - 1 := by omega
    exact_mod_cast hle
  have hpow : (1 : ℚ) ≤ 10 ^ s := one_le_pow₀ (by norm_num)
  rw [abs_div, abs_of_pos (show (0 : ℚ) < 10 ^ s by positivity), ← Int.cast_abs]
  exact (div_le_self (by positivity) hpow).trans hdigits

/-- **An operation is exact where its result is a decimal.** -/
theorem Rounds.exact (h : Rounds o q) (hq : IsDecimal q) : ∃ z, o = some z ∧ z.value = q := by
  obtain ⟨z, hz⟩ := h.exists_eq hq.abs_le
  exact ⟨z, hz, by rw [h.value_eq z hz, hq.rounded_eq]⟩

/-- An operation with a result of a known size is off by some units of the last of 28 places. -/
theorem Rounds.exists_off {m : ℚ} (h : Rounds o q) (hone : 1 ≤ m) (hm : m ≤ 10 ^ 28)
    (hq : |q| ≤ m) : ∃ z, o = some z ∧ |z.value - q| ≤ m / 10 ^ 28 := by
  obtain ⟨z, hz⟩ := h.exists_eq (hq.trans (hm.trans (by norm_num)))
  have hround := abs_rounded_sub_le q
  have hmax : Max.max 1 |q| ≤ m := max_le hone hq
  refine ⟨z, hz, ?_⟩
  rw [h.value_eq z hz]
  unfold unitRoundoff at hround
  linarith

end IsDecimal

/-! ## §2. Lower powers. -/

/-- Trimmed digits end in a zero only if there are no places. -/
theorem trimmed_normal (c s : ℕ) : (trimmed c s).2 = 0 ∨ (trimmed c s).1 % 10 ≠ 0 := by
  induction s generalizing c with
  | zero => exact Or.inl rfl
  | succ s ih =>
    unfold trimmed
    by_cases hzero : c % 10 = 0
    · rw [if_pos hzero]
      exact ih (c / 10)
    · rw [if_neg hzero]
      exact Or.inr hzero

/-- The shortest form of a decimal, as digits with a sign and places. -/
theorem exists_shortest (b : Decimal) :
    ∃ (m : ℤ) (s : ℕ), b.value = m / 10 ^ s ∧ (s = 0 ∨ ¬ (10 : ℤ) ∣ m) := by
  refine ⟨b.norm.digits, b.norm.scale, by rw [← value_eq_digits, value_norm], ?_⟩
  by_cases hzero : b.isZero = true
  · have hnorm : b.norm = zero := if_pos hzero
    rw [hnorm]
    exact Or.inl rfl
  · have hscale : b.norm.scale = (trimmed b.coefficient b.scale).2 := by
      unfold norm
      rw [if_neg hzero]
    have hcoefficient : b.norm.coefficient = (trimmed b.coefficient b.scale).1 := by
      unfold norm
      rw [if_neg hzero]
    rw [hscale]
    refine (trimmed_normal _ _).imp_right fun hdigit => ?_
    rw [← hcoefficient] at hdigit
    unfold digits
    split <;> omega

section Powers

variable {m : ℤ} {s n k : ℕ}

/-- A power of an integer that ends in a zero is one of an integer that does. -/
theorem ten_dvd_of_dvd_pow (h : (10 : ℤ) ∣ m ^ n) : (10 : ℤ) ∣ m := by
  have htwo : ((2 : ℕ) : ℤ) ∣ m := Int.Prime.dvd_pow' Nat.prime_two (dvd_trans (by norm_num) h)
  have hfive : ((5 : ℕ) : ℤ) ∣ m := Int.Prime.dvd_pow' Nat.prime_five (dvd_trans (by norm_num) h)
  omega

/-- A power that is a decimal has as many digits and places as its factors together. -/
theorem digits_of_pow (hshort : s = 0 ∨ ¬ (10 : ℤ) ∣ m) (h : IsDecimal (((m : ℚ) / 10 ^ s) ^ n)) :
    s * n ≤ 28 ∧ |m ^ n| < 2 ^ 96 := by
  obtain ⟨M, S, hM, hS, heq⟩ := h
  have hinteger : m ^ n * 10 ^ S = M * 10 ^ (s * n) := by
    rw [div_pow, ← pow_mul, div_eq_div_iff (by positivity) (by positivity)] at heq
    exact_mod_cast heq
  -- fewer places would make the power end in a zero
  have hplaces : s * n ≤ S := by
    by_contra hlt
    obtain ⟨d, hd⟩ := Nat.exists_eq_add_of_lt (not_le.1 hlt)
    have hpower : m ^ n = M * 10 ^ d * 10 := by
      have hpow : (10 : ℤ) ^ S ≠ 0 := by positivity
      apply mul_right_cancel₀ hpow
      rw [hinteger, hd]
      ring
    rcases hshort with rfl | hend
    · omega
    · exact hend (ten_dvd_of_dvd_pow (hpower ▸ dvd_mul_left _ _))
  refine ⟨hplaces.trans hS, ?_⟩
  obtain ⟨d, rfl⟩ := Nat.exists_eq_add_of_le hplaces
  have hdigits : M = m ^ n * 10 ^ d := by
    have hpow : (10 : ℤ) ^ (s * n) ≠ 0 := by positivity
    apply mul_right_cancel₀ hpow
    rw [← hinteger, pow_add]
    ring
  calc |m ^ n| = |m ^ n| * 1 := (mul_one _).symm
    _ ≤ |m ^ n| * 10 ^ d := by
        gcongr
        exact one_le_pow₀ (by norm_num)
    _ = |M| := by rw [hdigits, abs_mul, abs_of_pos (show (0 : ℤ) < 10 ^ d by positivity)]
    _ < 2 ^ 96 := hM

variable {b : Decimal}

/-- **Lower powers are decimals, too.** -/
theorem isDecimal_pow_of_le (h : IsDecimal (b.value ^ n)) (hk : k ≤ n) :
    IsDecimal (b.value ^ k) := by
  obtain ⟨m, s, hvalue, hshort⟩ := exists_shortest b
  rw [hvalue] at h ⊢
  obtain ⟨hplaces, hdigits⟩ := digits_of_pow hshort h
  by_cases hm : m = 0
  · -- all powers of zero are zero or one
    refine ⟨(0 : ℤ) ^ k, 0, ?_, Nat.zero_le _, by simp [hm]⟩
    rcases Nat.eq_zero_or_pos k with rfl | hpos
    · norm_num
    · rw [zero_pow hpos.ne']
      norm_num
  · refine ⟨m ^ k, s * k, lt_of_le_of_lt ?_ hdigits, ?_, by rw [div_pow, ← pow_mul]; push_cast; rfl⟩
    · rw [abs_pow, abs_pow]
      exact pow_le_pow_right₀ (Int.one_le_abs hm) hk
    · exact (Nat.mul_le_mul_left s hk).trans hplaces

/-- High powers are decimals for few bases only. -/
theorem value_of_isDecimal_pow (hn : 1024 ≤ n) (h : IsDecimal (b.value ^ n)) :
    b.value = 0 ∨ b.value = 1 ∨ b.value = -1 := by
  obtain ⟨m, s, hvalue, hshort⟩ := exists_shortest b
  rw [hvalue] at h
  obtain ⟨hplaces, hdigits⟩ := digits_of_pow hshort h
  have hs : s = 0 := by
    by_contra hpos
    have hmany : 1 * 1024 ≤ s * n := Nat.mul_le_mul (Nat.one_le_iff_ne_zero.2 hpos) hn
    omega
  have hm : |m| ≤ 1 := by
    by_contra hlarge
    have htwo : (2 : ℤ) ^ 96 ≤ |m ^ n| := by
      rw [abs_pow]
      calc (2 : ℤ) ^ 96 ≤ 2 ^ n := pow_le_pow_right₀ (by norm_num) (by omega)
        _ ≤ |m| ^ n := pow_le_pow_left₀ (by norm_num) (by omega) n
    omega
  have hcases : m = 0 ∨ m = 1 ∨ m = -1 := by
    rw [abs_le] at hm
    omega
  rw [hvalue, hs]
  rcases hcases with rfl | rfl | rfl
  · simp
  · simp
  · simp

end Powers

/-! ## §3. Wide numbers of size one. -/

namespace Wide

/-- A wide number of size one: a one and as many zeros as places. -/
structure IsUnit (w : Wide) : Prop where
  /-- The digits are a one and zeros. -/
  coefficient_eq : w.coefficient = 10 ^ w.scale
  /-- There are 57 places at most. -/
  scale_le : w.scale ≤ 57

section Unit

variable {w x y : Wide} {words places s n : ℕ}

/-- Only zeros are cut from a one with zeros. -/
theorem cut_tenPow {m last : ℕ} (hm : m = 10 ^ s) (hlast : last = 0) {r : ℕ × ℕ × ℕ}
    (h : cut words m s n last = some r) : r.1 = 10 ^ r.2.1 ∧ r.2.2 = 0 := by
  have hsplit : ∀ {p scale : ℕ}, p ≤ scale →
      10 ^ scale / 10 ^ p = 10 ^ (scale - p) ∧ 10 ^ scale % 10 ^ p = 0 := by
    intro p scale hp
    exact ⟨Nat.pow_div hp (by norm_num), Nat.mod_eq_zero_of_dvd (Nat.pow_dvd_pow 10 hp)⟩
  fun_induction cut words m s n last with
  | case1 m scale n last hdone =>
    cases h
    exact ⟨hm, hlast⟩
  | case2 => cases h
  | case3 => cases h
  | case4 m scale n last hmore p hscale hlong hne ih =>
    obtain ⟨hdiv, hmod⟩ := hsplit (not_lt.1 hscale)
    exact ih (by rw [hm, hdiv]) (by rw [hm, hmod]) h
  | case5 m scale n last hmore p hscale hlong ih =>
    obtain ⟨hdiv, hmod⟩ := hsplit (not_lt.1 hscale)
    exact ih (by rw [hm, hdiv]) (by rw [hm, hmod]) h

/-- A one with zeros is fitted to a one with fewer zeros. -/
theorem fitTo_tenPow {r : ℕ × ℕ} (h : fitTo words places (10 ^ s) s = some r) :
    r.1 = 10 ^ r.2 := by
  unfold fitTo at h
  dsimp only at h
  split at h
  · cases h
    rfl
  · split at h
    · cases h
      rfl
    · split at h
      · exact nomatch h
      · obtain ⟨⟨m, t, last⟩, hcut, h⟩ := Option.bind_eq_some_iff.1 h
        obtain ⟨hm, hlast⟩ := cut_tenPow rfl rfl hcut
        have hkeep : (if last ≠ 0 ∧ (m % 2 = 1 ∨ 1 < last) then m + 1 else m) = m :=
          if_neg fun hup => hup.1 hlast
        dsimp only at hm h
        rw [hkeep] at h
        split at h
        · cases h
          exact hm
        · split at h
          · exact nomatch h
          · rename_i ht
            cases h
            dsimp only
            obtain ⟨u, rfl⟩ := Nat.exists_eq_succ_of_ne_zero ht
            rw [hm, pow_succ, Nat.mul_div_cancel _ (by norm_num)]
            rfl

theorem IsUnit.size_eq (h : w.IsUnit) : w.size = 1 := by
  unfold size
  rw [h.coefficient_eq]
  push_cast
  exact div_self (by positivity)

theorem IsUnit.value_eq (h : w.IsUnit) : w.value = signed w.negative 1 := by
  rw [value, h.size_eq]

theorem IsUnit.inRange (h : w.IsUnit) : w.InRange := by
  refine ⟨?_, h.scale_le⟩
  rw [h.coefficient_eq]
  calc 10 ^ w.scale ≤ 10 ^ 57 := Nat.pow_le_pow_right (by norm_num) h.scale_le
    _ < 2 ^ 192 := by norm_num

/-- A product of numbers of size one is exact. -/
theorem IsUnit.exists_mul (hx : x.IsUnit) (hy : y.IsUnit) :
    ∃ z, x.mul y = some z ∧ z.IsUnit ∧ z.value = x.value * y.value := by
  have hpos : ∀ {w : Wide}, w.IsUnit → w.coefficient ≠ 0 := by
    intro w hw
    rw [hw.coefficient_eq]
    positivity
  have hsmall : |x.value * y.value| < 2 ^ 191 := by
    rw [abs_mul, abs_value, abs_value, hx.size_eq, hy.size_eq]
    norm_num
  obtain ⟨z, hz⟩ := Wide.exists_mul hsmall
  have hrange := (mul_isProduct hz).inRange
  have hparts := hz
  rw [mul_eq (hpos hx) (hpos hy), hx.coefficient_eq, hy.coefficient_eq, ← pow_add] at hparts
  obtain ⟨r, hr, rfl⟩ := Option.map_eq_some_iff.1 hparts
  have hdigits : r.1 = 10 ^ r.2 := by
    split at hr
    · -- so few digits have few places, and none of them is dropped
      rename_i hshort
      have hscale : x.scale + y.scale ≤ 57 := by
        by_contra hlong
        have hlarge : 10 ^ 58 ≤ 10 ^ (x.scale + y.scale) :=
          Nat.pow_le_pow_right (by norm_num) (by omega)
        omega
      rw [dropPlaces, dif_pos hscale] at hr
      cases hr
      rfl
    · exact fitTo_tenPow hr
  have hunit : IsUnit ⟨x.negative != y.negative, r.1, r.2⟩ := ⟨hdigits, hrange.scale_le⟩
  refine ⟨_, hz, hunit, ?_⟩
  rw [hunit.value_eq, hx.value_eq, hy.value_eq, signed_mul, mul_one]

/-- A number of size one is a decimal. -/
theorem IsUnit.exists_toDecimal? (h : w.IsUnit) :
    ∃ z, w.toDecimal? = some z ∧ z.value = w.value := by
  have hone : ∀ {m t : ℕ} {z : Decimal}, m = 10 ^ t → (make? w.negative m t).map clean = some z →
      z.value = w.value := by
    intro m t z hm hz
    rw [value_of_make? hz, h.value_eq, hm]
    push_cast
    rw [div_self (by positivity)]
  obtain ⟨z, hz⟩ := Wide.exists_toDecimal? h.inRange (by rw [h.size_eq]; norm_num)
    (Or.inl (by rw [h.size_eq]; norm_num))
  refine ⟨z, hz, ?_⟩
  unfold toDecimal? at hz
  rw [h.coefficient_eq] at hz
  split at hz
  · exact hone rfl hz
  · obtain ⟨⟨m, t⟩, hfit, hz⟩ := Option.bind_eq_some_iff.1 hz
    exact hone (fitTo_tenPow hfit) hz

end Unit

end Wide

/-! ## §4. Exact powers. -/

section Power

variable {b : Decimal} {n : ℕ}

/-- Repeated squaring toward a power that is a decimal. -/
theorem squaring_exact (h : IsDecimal (b.value ^ n)) :
    ∃ z, bySquaring mul one b n = some z ∧ z.value = b.value ^ n := by
  -- a number that is made on the way is exact, as long as it is no higher power
  have hmul : ∀ {k l e f : ℕ} {x y : Decimal}, (e ≤ n → x.value = b.value ^ e) →
      (f ≤ n → y.value = b.value ^ f) →
      Tracks (fun _ e (z : Decimal) => e ≤ n → z.value = b.value ^ e) n (k + l + 1) (e + f)
        (mul x y) := by
    intro k l e f x y hx hy
    have hexact : e + f ≤ n → ∃ z, x.mul y = some z ∧ z.value = b.value ^ (e + f) := by
      intro he
      have hrounds := mul_rounds x y
      rw [hx (by omega), hy (by omega), ← pow_add] at hrounds
      exact hrounds.exact (isDecimal_pow_of_le h he)
    constructor
    · intro z hz he
      obtain ⟨z', hz', hvalue⟩ := hexact he
      rw [hz] at hz'
      cases hz'
      exact hvalue
    · intro _ he
      obtain ⟨z, hz, -⟩ := hexact he
      exact ⟨z, hz⟩
  have hone : 0 ≤ n → one.value = b.value ^ 0 := fun _ => by rw [value_one, pow_zero]
  have hbase : 1 ≤ n → b.value = b.value ^ 1 := fun _ => by rw [pow_one]
  have htracks : Tracks (fun _ e (z : Decimal) => e ≤ n → z.value = b.value ^ e) n n n
      (bySquaring mul one b n) := by
    simpa using bySquaring_tracks (k := 0) (l := 0) hmul n hone hbase
  obtain ⟨z, hz⟩ := htracks.exists_eq le_rfl le_rfl
  exact ⟨z, hz, htracks.holds z hz le_rfl⟩

/-- Repeated squaring of a wide number of size one. -/
theorem wide_squaring_exact (hb : (Wide.ofDecimal b).IsUnit) :
    ∃ w, bySquaring Wide.mul Wide.one (Wide.ofDecimal b) n = some w ∧ w.IsUnit
      ∧ w.value = b.value ^ n := by
  have hmul : ∀ {k l e f : ℕ} {x y : Wide}, x.IsUnit ∧ x.value = b.value ^ e →
      y.IsUnit ∧ y.value = b.value ^ f →
      Tracks (fun _ e (w : Wide) => w.IsUnit ∧ w.value = b.value ^ e) n (k + l + 1) (e + f)
        (Wide.mul x y) := by
    intro k l e f x y hx hy
    obtain ⟨z, hz, hunit, hvalue⟩ := hx.1.exists_mul hy.1
    rw [hx.2, hy.2, ← pow_add] at hvalue
    rw [hz]
    exact Tracks.of_some ⟨hunit, hvalue⟩
  have hone : Wide.one.IsUnit := ⟨rfl, by norm_num [Wide.one]⟩
  have hproduct : Wide.one.IsUnit ∧ Wide.one.value = b.value ^ 0 :=
    ⟨hone, by rw [Wide.value_one, pow_zero]⟩
  have hpower : (Wide.ofDecimal b).IsUnit ∧ (Wide.ofDecimal b).value = b.value ^ 1 :=
    ⟨hb, by rw [pow_one]; rfl⟩
  have htracks : Tracks (fun _ e (w : Wide) => w.IsUnit ∧ w.value = b.value ^ e) n n n
      (bySquaring Wide.mul Wide.one (Wide.ofDecimal b) n) := by
    simpa using bySquaring_tracks (k := 0) (l := 0) hmul n hproduct hpower
  obtain ⟨w, hw⟩ := htracks.exists_eq le_rfl le_rfl
  exact ⟨w, hw, htracks.holds w hw⟩

/-- The digits of minus one. -/
theorem isUnit_of_value (hb : b.value = -1) : (Wide.ofDecimal b).IsUnit := by
  refine ⟨?_, b.scale_le.trans (by norm_num)⟩
  have hinteger : b.value = ((-1 : ℤ) : ℚ) := by
    rw [hb]
    norm_num
  have hdigits := coefficient_of_integer hinteger
  rwa [show (-1 : ℤ).natAbs = 1 from rfl, Nat.one_mul] at hdigits

/-- **A power that is a decimal comes out exactly.** -/
theorem powNat_exact (h : IsDecimal (b.value ^ n)) :
    ∃ z, b.powNat n = some z ∧ z.value = b.value ^ n := by
  unfold powNat
  by_cases h0 : n = 0
  · rw [if_pos h0]
    exact ⟨one, rfl, by rw [value_one, h0, pow_zero]⟩
  rw [if_neg h0]
  by_cases hzero : b.isZero = true
  · rw [if_pos hzero]
    exact ⟨zero, rfl, by rw [value_of_isZero hzero, value_zero, zero_pow h0]⟩
  rw [if_neg hzero]
  by_cases hone : b.sameValue one = true
  · rw [if_pos hone]
    rw [sameValue_iff, value_one] at hone
    exact ⟨one, rfl, by rw [hone, one_pow, value_one]⟩
  rw [if_neg hone]
  by_cases h1 : n = 1
  · rw [if_pos h1]
    exact ⟨b, rfl, by rw [h1, pow_one]⟩
  rw [if_neg h1]
  by_cases h2 : n = 2
  · subst h2
    rw [if_pos rfl]
    rw [pow_two] at h ⊢
    exact (mul_rounds b b).exact h
  rw [if_neg h2]
  by_cases hwide : n < wideExponent
  · rw [if_pos hwide]
    obtain ⟨z, hz, hvalue⟩ := squaring_exact h
    exact ⟨z.norm, by rw [hz]; rfl, by rw [value_norm, hvalue]⟩
  · -- only minus one is left
    rw [if_neg hwide]
    have hminus : b.value = -1 := by
      rw [← value_eq_zero_iff] at hzero
      rw [sameValue_iff, value_one] at hone
      rcases value_of_isDecimal_pow (not_lt.1 hwide) h with hb | hb | hb
      · exact absurd hb hzero
      · exact absurd hb hone
      · exact hb
    obtain ⟨w, hw, hunit, hpower⟩ := wide_squaring_exact (n := n) (isUnit_of_value hminus)
    obtain ⟨z, hz, hvalue⟩ := hunit.exists_toDecimal?
    exact ⟨z.norm, by rw [hw, Option.bind_some, hz]; rfl, by rw [value_norm, hvalue, hpower]⟩

end Power

end ShapeEstimator.Decimal
