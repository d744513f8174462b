/-
  ShapeEstimator.Proofs.Binary64.Rounding
  ────────────────────────────────
  **OPERATIONS ON DOUBLES ARE ROUNDED EXACTLY.**

  An operation on doubles cuts the exact result to size bit by bit, and keeps of what it
  cuts off only whether it was nothing, less than a half, a half, or more.  That is all
  that rounding needs, so what comes out is the magnitude nearest to the exact result:

      roundWithAccuracy (m, e, what is below)  =  nearest ((m + f) · 2 ^ e)

  And the nearest magnitude grows with the result.
-/
import ShapeEstimator.Proofs.Binary64.Nearest

namespace ShapeEstimator.Binary64

open Float.Model (Format UnpackedFloat)
open Float.Model.UnpackedFloat (Accuracy ExtendedMantissa accuracyOfFraction decreaseExponent
  divCore roundWithAccuracy shiftToTargetExponent)

/-! ## §1. What is cut off. -/

/-- What an accuracy tells of the part below the last bit. -/
def Tells : Accuracy → ℚ → Prop
  | .exact, f => f = 0
  | .inexact .lt, f => 0 < f ∧ f < 1 / 2
  | .inexact .eq, f => f = 1 / 2
  | .inexact .gt, f => 1 / 2 < f ∧ f < 1

theorem Tells.bounds {a : Accuracy} {f : ℚ} (h : Tells a f) : 0 ≤ f ∧ f < 1 := by
  rcases a with _ | o
  · obtain rfl : f = 0 := h
    norm_num
  · cases o with
    | lt =>
      obtain ⟨hlow, hhigh⟩ : 0 < f ∧ f < 1 / 2 := h
      constructor <;> linarith
    | eq =>
      obtain rfl : f = 1 / 2 := h
      norm_num
    | gt =>
      obtain ⟨hlow, hhigh⟩ : 1 / 2 < f ∧ f < 1 := h
      constructor <;> linarith

/-- A significand with its two bits below stands for a number. -/
def Holds (em : ExtendedMantissa) (x : ℚ) : Prop := Tells em.accuracy (x - em.mantissa)

namespace Holds

variable {em : ExtendedMantissa} {x : ℚ}

theorem of_accuracy {a : Accuracy} {f : ℚ} (h : Tells a f) (m : ℕ) :
    Holds (ExtendedMantissa.ofMantissaAndAccuracy m a) (m + f) := by
  have hf : (m : ℚ) + f - m = f := add_sub_cancel_left _ _
  rcases a with _ | o
  · exact hf.trans h
  · cases o <;> exact (congrArg (Tells _) hf).mpr h

/-- One bit less of the significand is half the number. -/
theorem shiftRightOne (h : Holds em x) : Holds em.shiftRightOne (x / 2) := by
  obtain ⟨m, round, sticky⟩ := em
  obtain ⟨hnonneg, hlt⟩ : 0 ≤ x - m ∧ x - m < 1 := Tells.bounds h
  have hexact : (round || sticky) = false → x - m = 0 := by
    intro hnone
    obtain ⟨rfl, rfl⟩ := Bool.or_eq_false_iff.1 hnone
    exact h
  have hinexact : (round || sticky) = true → 0 < x - m := by
    intro hsome
    cases round <;> cases sticky
    · exact absurd hsome Bool.false_ne_true
    · exact (show 0 < x - m ∧ x - m < 1 / 2 from h).1
    · exact (show x - m = 1 / 2 from h) ▸ one_half_pos
    · exact one_half_pos.trans (show 1 / 2 < x - m ∧ x - m < 1 from h).1
  have hsplit : (m : ℚ) = 2 * (m / 2 : ℕ) + (m % 2 : ℕ) := by
    exact_mod_cast (Nat.div_add_mod m 2).symm
  show Tells (ExtendedMantissa.accuracy ⟨m / 2, m % 2 != 0, round || sticky⟩) (x / 2 - (m / 2 : ℕ))
  generalize (round || sticky) = inexact at hexact hinexact
  -- the bit that is cut off says on which side of a half the rest is
  rcases Nat.mod_two_eq_zero_or_one m with hbit | hbit
  · have hrest : x / 2 - (m / 2 : ℕ) = (x - m) / 2 := by
      rw [hsplit, hbit]
      push_cast
      ring
    rw [hbit, hrest]
    cases inexact
    · show (x - m) / 2 = 0
      rw [hexact rfl, zero_div]
    · have hpos := hinexact rfl
      show 0 < (x - m) / 2 ∧ (x - m) / 2 < 1 / 2
      constructor <;> linarith
  · have hrest : x / 2 - (m / 2 : ℕ) = (x - m) / 2 + 1 / 2 := by
      rw [hsplit, hbit]
      push_cast
      ring
    rw [hbit, hrest]
    cases inexact
    · show (x - m) / 2 + 1 / 2 = 1 / 2
      rw [hexact rfl, zero_div, zero_add]
    · have hpos := hinexact rfl
      show 1 / 2 < (x - m) / 2 + 1 / 2 ∧ (x - m) / 2 + 1 / 2 < 1
      constructor <;> linarith

theorem shiftRight (h : Holds em x) (n : ℕ) : Holds (em >>> n) (x / 2 ^ n) := by
  show Holds (n.repeat ExtendedMantissa.shiftRightOne em) (x / 2 ^ n)
  induction n with
  | zero => rwa [pow_zero, div_one]
  | succ n ih =>
    rw [pow_succ, ← div_div]
    exact ih.shiftRightOne

/-- The two bits are enough to round. -/
theorem isHalfEven (h : Holds em x) : IsHalfEven x em.roundedMantissa := by
  obtain ⟨m, round, sticky⟩ := em
  cases round <;> cases sticky
  · obtain h : x - m = 0 := h
    show IsHalfEven x m
    rw [sub_eq_zero.1 h]
    exact IsHalfEven.natCast m
  · obtain ⟨hlow, hhigh⟩ : 0 < x - m ∧ x - m < 1 / 2 := h
    show IsHalfEven x m
    exact ⟨by linarith, by linarith, fun _ => ⟨by linarith, by linarith⟩⟩
  · obtain h : x - m = 1 / 2 := h
    show IsHalfEven x (m + m % 2)
    -- half way, to the even one
    rcases Nat.mod_two_eq_zero_or_one m with hbit | hbit
    · rw [hbit, add_zero]
      exact ⟨by linarith, by linarith, fun hodd => absurd hodd (by omega)⟩
    · rw [hbit]
      refine ⟨?_, ?_, fun hodd => absurd hodd (by omega)⟩ <;> push_cast <;> linarith
  · obtain ⟨hlow, hhigh⟩ : 1 / 2 < x - m ∧ x - m < 1 := h
    show IsHalfEven x (m + 1)
    refine ⟨?_, ?_, fun _ => ⟨?_, ?_⟩⟩ <;> push_cast <;> linarith

end Holds

/-! ## §2. Rounding. -/

/-- A double with a sign and a magnitude. -/
def ofMagnitude (s : UnpackedFloat.Sign) (m : Magnitude) : UnpackedFloat :=
  if h : m.significand = 0 then .zero s
  else .finite s m.significand m.exponent (Nat.pos_of_ne_zero h)

/-- The exponent that a significand is brought to. -/
theorem targetExponent_eq (m : ℕ) (e : ℤ) :
    Format.binary64.targetExponent (Float.Model.totalExponent m e)
      = max ((m.log2 : ℤ) + e - 52) leastExponent := by
  show max ((m.log2 : ℤ) + 1 + e - (53 : ℕ)) (-1074) = max ((m.log2 : ℤ) + e - 52) (-1074)
  congr 1
  push_cast
  ring

theorem shiftToTargetExponent_eq {m k : ℕ} {e : ℤ} (a : Accuracy)
    (h : (max ((m.log2 : ℤ) + e - 52) leastExponent - e).toNat = k) :
    shiftToTargetExponent .binary64 m e a
      = (ExtendedMantissa.ofMantissaAndAccuracy m a >>> k, e + k) := by
  rw [← targetExponent_eq] at h
  subst h
  rfl

/-- A rounded significand has at most one bit too many, and then it is a power of two. -/
theorem shiftToTargetExponent_rounded {n : ℕ} {e : ℤ} (hn : n ≤ 2 ^ 53) (he : leastExponent ≤ e) :
    (shiftToTargetExponent .binary64 n e .exact).1.mantissa = (Magnitude.canonical n e).significand
      ∧ (shiftToTargetExponent .binary64 n e .exact).2 = (Magnitude.canonical n e).exponent := by
  unfold Magnitude.canonical
  by_cases hfull : n = 2 ^ 53
  · rw [if_pos hfull, hfull, shiftToTargetExponent_eq (k := 1)]
    · exact ⟨rfl, rfl⟩
    · rw [show (2 ^ 53 : ℕ).log2 = 53 from Nat.log2_two_pow]
      omega
  · have hlog : n.log2 ≤ 52 := by
      rcases Nat.eq_zero_or_pos n with rfl | hpos
      · decide
      · have := (Nat.log2_lt hpos.ne').2 (show n < 2 ^ 53 by omega)
        omega
    rw [if_neg hfull, shiftToTargetExponent_eq (k := 0)]
    · exact ⟨rfl, add_zero e⟩
    · omega

theorem roundWithAccuracy_of_shift {s : UnpackedFloat.Sign} {m : ℕ} {e e₁ : ℤ} {a : Accuracy}
    {em : ExtendedMantissa} (h : shiftToTargetExponent .binary64 m e a = (em, e₁)) :
    roundWithAccuracy .binary64 s m e a
      = ofMagnitude s ⟨(shiftToTargetExponent .binary64 em.roundedMantissa e₁ .exact).1.mantissa,
          (shiftToTargetExponent .binary64 em.roundedMantissa e₁ .exact).2⟩ := by
  unfold roundWithAccuracy
  rw [h]
  rfl

theorem add_one_le_two_pow (m : ℕ) : (m : ℚ) + 1 ≤ 2 ^ ((m.log2 : ℤ) + 1) := by
  exact_mod_cast Nat.lt_log2_self (n := m)

/-- The exponent of a significand that is long enough is the one its value is rounded at. -/
theorem exponentFor_eq {m : ℕ} {e : ℤ} {f : ℚ} (hf : 0 ≤ f ∧ f < 1)
    (hlong : 2 ^ 52 ≤ m ∨ e ≤ leastExponent) (hq : ((m : ℚ) + f) * 2 ^ e ≠ 0) :
    Magnitude.exponentFor (((m : ℚ) + f) * 2 ^ e) = max ((m.log2 : ℤ) + e - 52) leastExponent := by
  have hpos : (0 : ℚ) < ((m : ℚ) + f) * 2 ^ e :=
    lt_of_le_of_ne (mul_nonneg (add_nonneg m.cast_nonneg hf.1) (by positivity)) hq.symm
  have hlt : ((m : ℚ) + f) * 2 ^ e < ((2 : ℕ) : ℚ) ^ ((m.log2 : ℤ) + e + 1) := by
    calc ((m : ℚ) + f) * 2 ^ e < ((m : ℚ) + 1) * 2 ^ e :=
          mul_lt_mul_of_pos_right (by linarith [hf.2]) (by positivity)
      _ ≤ 2 ^ ((m.log2 : ℤ) + 1) * 2 ^ e :=
          mul_le_mul_of_nonneg_right (add_one_le_two_pow m) (by positivity)
      _ = ((2 : ℕ) : ℚ) ^ ((m.log2 : ℤ) + e + 1) := by
          rw [← zpow_add₀ two_ne_zero]
          push_cast
          congr 1
          ring
  have hlog := (Int.lt_zpow_iff_log_lt one_lt_two hpos).1 hlt
  unfold Magnitude.exponentFor
  rcases Nat.eq_zero_or_pos m with rfl | hm
  · -- nothing but the part below the last bit: both exponents are the least one
    have he : e ≤ leastExponent := hlong.resolve_left (by norm_num)
    rw [show (0 : ℕ).log2 = 0 from rfl] at hlog ⊢
    omega
  · have hge : ((2 : ℕ) : ℚ) ^ ((m.log2 : ℤ) + e) ≤ ((m : ℚ) + f) * 2 ^ e := by
      have hlow : (2 : ℚ) ^ (m.log2 : ℤ) ≤ m := by exact_mod_cast Nat.log2_self_le hm.ne'
      calc ((2 : ℕ) : ℚ) ^ ((m.log2 : ℤ) + e) = 2 ^ (m.log2 : ℤ) * 2 ^ e := by
            rw [← zpow_add₀ two_ne_zero]
            norm_cast
        _ ≤ ((m : ℚ) + f) * 2 ^ e := mul_le_mul_of_nonneg_right (by linarith [hf.1]) (by positivity)
    have := (Int.zpow_le_iff_le_log one_lt_two hpos).1 hge
    omega

/-- **A result is rounded to the nearest magnitude**, whatever was cut off below its last bit, if it
has 53 bits or the least exponent. -/
theorem roundWithAccuracy_eq {m : ℕ} {e : ℤ} {a : Accuracy} {f : ℚ} (s : UnpackedFloat.Sign)
    (hf : Tells a f) (hlong : 2 ^ 52 ≤ m ∨ e ≤ leastExponent) :
    roundWithAccuracy .binary64 s m e a
      = ofMagnitude s (Magnitude.nearest (((m : ℚ) + f) * 2 ^ e)) := by
  obtain ⟨E, hE⟩ : ∃ E, E = max ((m.log2 : ℤ) + e - 52) leastExponent := ⟨_, rfl⟩
  have hbounds := hf.bounds
  have hle : e ≤ E := by
    rcases hlong with hlong | hlong
    · have := (Nat.le_log2 (by omega)).2 hlong
      omega
    · omega
  obtain ⟨k, hk⟩ : ∃ k : ℕ, E = e + k := ⟨(E - e).toNat, by omega⟩
  have hscaled : ((m : ℚ) + f) * 2 ^ e * 2 ^ (-E) = ((m : ℚ) + f) / 2 ^ k := by
    rw [mul_assoc, ← zpow_add₀ two_ne_zero, hk, neg_add, add_neg_cancel_left, zpow_neg,
      zpow_natCast, div_eq_mul_inv]
  -- the first shift brings the exponent up, and the bits that are left round as the number does
  have hholds := (Holds.of_accuracy hf m).shiftRight k
  have hrounded : (ExtendedMantissa.ofMantissaAndAccuracy m a >>> k).roundedMantissa
      = halfEven (((m : ℚ) + f) * 2 ^ e * 2 ^ (-E)) := by
    rw [hscaled]
    exact hholds.isHalfEven.unique
      (isHalfEven_halfEven (div_nonneg (add_nonneg m.cast_nonneg hbounds.1) (by positivity)))
  have hfits : halfEven (((m : ℚ) + f) * 2 ^ e * 2 ^ (-E)) ≤ 2 ^ 53 := by
    have hlt : ((m : ℚ) + f) / 2 ^ k ≤ ((2 ^ 53 : ℕ) : ℚ) := by
      rw [div_le_iff₀ (by positivity)]
      calc (m : ℚ) + f ≤ (m : ℚ) + 1 := by linarith
        _ ≤ 2 ^ ((m.log2 : ℤ) + 1) := add_one_le_two_pow m
        _ ≤ 2 ^ ((53 + k : ℕ) : ℤ) := zpow_le_zpow_right₀ one_le_two (by push_cast; omega)
        _ = ((2 ^ 53 : ℕ) : ℚ) * 2 ^ k := by
          rw [zpow_natCast, pow_add]
          norm_cast
    calc halfEven (((m : ℚ) + f) * 2 ^ e * 2 ^ (-E)) ≤ halfEven ((2 ^ 53 : ℕ) : ℚ) := by
          rw [hscaled]
          exact halfEven_mono (div_nonneg (add_nonneg m.cast_nonneg hbounds.1) (by positivity)) hlt
      _ = 2 ^ 53 := halfEven_natCast _
  rw [roundWithAccuracy_of_shift (shiftToTargetExponent_eq a (by rw [← hE]; omega : _ = k)),
    hrounded, ← hk]
  obtain ⟨hsignificand, hexponent⟩ :=
    shiftToTargetExponent_rounded hfits (show leastExponent ≤ E by omega)
  rw [hsignificand, hexponent]
  unfold Magnitude.nearest
  by_cases hq : ((m : ℚ) + f) * 2 ^ e = 0
  · rw [if_pos hq, hq, zero_mul, show halfEven 0 = 0 from halfEven_natCast 0]
    rfl
  · rw [if_neg hq, exponentFor_eq hbounds hlong hq, ← hE]

/-- A significand of whatever length is rounded to the nearest magnitude, once it is long enough. -/
theorem round_eq {m : ℕ} (e : ℤ) (s : UnpackedFloat.Sign) (hm : 0 < m) :
    UnpackedFloat.round .binary64 s m e = ofMagnitude s (Magnitude.nearest (m * 2 ^ e)) := by
  obtain ⟨T, hT⟩ : ∃ T, T = max ((m.log2 : ℤ) + e - 52) leastExponent := ⟨_, rfl⟩
  obtain ⟨k, hk⟩ : ∃ k : ℕ, k = (e - T).toNat := ⟨_, rfl⟩
  have hround : UnpackedFloat.round .binary64 s m e
      = roundWithAccuracy .binary64 s (m * 2 ^ k) (e - k) .exact := by
    rw [hk, hT, ← targetExponent_eq, ← Nat.shiftLeft_eq]
    rfl
  have hvalue : (((m * 2 ^ k : ℕ) : ℚ) + 0) * 2 ^ (e - (k : ℤ)) = m * 2 ^ e := by
    rw [add_zero, zpow_sub₀ two_ne_zero, zpow_natCast]
    push_cast
    field_simp
  have hlong : 2 ^ 52 ≤ m * 2 ^ k ∨ e - k ≤ leastExponent := by
    rcases le_or_gt ((m.log2 : ℤ) + e - 52) leastExponent with hsmall | hlarge
    · exact Or.inr (by omega)
    · -- the bits that are missing to 53 are what the shift adds
      refine Or.inl ?_
      calc 2 ^ 52 ≤ 2 ^ (m.log2 + k) := Nat.pow_le_pow_right two_pos (by omega)
        _ = 2 ^ m.log2 * 2 ^ k := pow_add _ _ _
        _ ≤ m * 2 ^ k := Nat.mul_le_mul_right _ (Nat.log2_self_le hm.ne')
  rw [hround, roundWithAccuracy_eq s (show Tells .exact 0 from rfl) hlong, hvalue]

/-! ## §3. Quotients. -/

theorem tells_accuracyOfFraction {r d : ℕ} (h : r < d) :
    Tells (accuracyOfFraction r d) ((r : ℚ) / d) := by
  have hd : (0 : ℚ) < d := by exact_mod_cast Nat.zero_lt_of_lt h
  unfold accuracyOfFraction
  by_cases hr : r = 0
  · rw [if_pos hr]
    show (r : ℚ) / d = 0
    rw [hr, Nat.cast_zero, zero_div]
  · have hrpos : (0 : ℚ) < r := by exact_mod_cast Nat.pos_of_ne_zero hr
    rw [if_neg hr]
    rcases lt_trichotomy (2 * r) d with hlt | heq | hgt
    · have hlt : (2 : ℚ) * r < d := by exact_mod_cast hlt
      rw [Nat.compare_eq_lt.2 (by assumption)]
      refine ⟨div_pos hrpos hd, ?_⟩
      rw [div_lt_div_iff₀ hd two_pos]
      linarith
    · have hval : (2 : ℚ) * r = d := by exact_mod_cast heq
      rw [Nat.compare_eq_eq.2 heq]
      show (r : ℚ) / d = 1 / 2
      rw [div_eq_div_iff hd.ne' two_ne_zero]
      linarith
    · have hval : (d : ℚ) < 2 * r := by exact_mod_cast hgt
      have hrd : (r : ℚ) < d := by exact_mod_cast h
      rw [Nat.compare_eq_gt.2 hgt]
      refine ⟨?_, (div_lt_one hd).2 hrd⟩
      rw [div_lt_div_iff₀ two_pos hd]
      linarith

/-- **A quotient is cut to size with enough bits to round it.** -/
theorem divCore_spec {m₁ m₂ : ℕ} (e₁ e₂ : ℤ) (h₁ : 0 < m₁) (h₂ : 0 < m₂) :
    ∃ m e a f, divCore .binary64 m₁ e₁ m₂ e₂ = (m, e, a) ∧ Tells a f
      ∧ (2 ^ 52 ≤ m ∨ e ≤ leastExponent)
      ∧ ((m : ℚ) + f) * 2 ^ e = m₁ * 2 ^ e₁ / (m₂ * 2 ^ e₂) := by
  have hm₂ : (0 : ℚ) < m₂ := by exact_mod_cast h₂
  obtain ⟨T, hT⟩ : ∃ T, T = min (e₁ - e₂)
      (max ((m₁.log2 : ℤ) + e₁ - (m₂.log2 + e₂) - 53) leastExponent) := ⟨_, rfl⟩
  obtain ⟨k, hk⟩ : ∃ k : ℕ, k = (e₁ - e₂ - T).toNat := ⟨_, rfl⟩
  have hcore : divCore .binary64 m₁ e₁ m₂ e₂
      = (m₁ * 2 ^ k / m₂, T, accuracyOfFraction (m₁ * 2 ^ k % m₂) m₂) := by
    have htarget : T = min (e₁ - e₂) (Format.binary64.targetExponent
        (Float.Model.totalExponent m₁ e₁ - Float.Model.totalExponent m₂ e₂)) := by
      rw [hT]
      show _ = min (e₁ - e₂) (max ((m₁.log2 : ℤ) + 1 + e₁ - (m₂.log2 + 1 + e₂) - (53 : ℕ)) (-1074))
      congr 2
      push_cast
      ring
    rw [hk, htarget, ← Nat.shiftLeft_eq]
    rfl
  refine ⟨_, _, _, _, hcore, tells_accuracyOfFraction (Nat.mod_lt _ h₂), ?_, ?_⟩
  · rcases le_or_gt T leastExponent with hsmall | hlarge
    · exact Or.inr hsmall
    · have hbits : m₂.log2 + 1 + 52 ≤ m₁.log2 + k := by omega
      refine Or.inl ((Nat.le_div_iff_mul_le h₂).2 ?_)
      calc 2 ^ 52 * m₂ ≤ 2 ^ 52 * 2 ^ (m₂.log2 + 1) := Nat.mul_le_mul_left _ Nat.lt_log2_self.le
        _ = 2 ^ (m₂.log2 + 1 + 52) := by rw [← pow_add, add_comm]
        _ ≤ 2 ^ (m₁.log2 + k) := Nat.pow_le_pow_right two_pos hbits
        _ = 2 ^ m₁.log2 * 2 ^ k := pow_add _ _ _
        _ ≤ m₁ * 2 ^ k := Nat.mul_le_mul_right _ (Nat.log2_self_le h₁.ne')
  · have hwhole : ((m₁ * 2 ^ k / m₂ : ℕ) : ℚ) + ((m₁ * 2 ^ k % m₂ : ℕ) : ℚ) / m₂
        = m₁ * 2 ^ k / m₂ := by
      have hdivision : (m₂ : ℚ) * (m₁ * 2 ^ k / m₂ : ℕ) + (m₁ * 2 ^ k % m₂ : ℕ) = m₁ * 2 ^ k := by
        exact_mod_cast Nat.div_add_mod (m₁ * 2 ^ k) m₂
      rw [eq_div_iff hm₂.ne', ← hdivision]
      field_simp
    have hexponent : T = e₁ - e₂ - k := by omega
    rw [hwhole, hexponent, zpow_sub₀ two_ne_zero, zpow_sub₀ two_ne_zero, zpow_natCast]
    field_simp

/-! ## §4. The nearest magnitude. -/

/-- The bound that all finite doubles stay below. -/
def limit : ℚ := 2 ^ (1024 : ℤ)

theorem limit_pos : 0 < limit := by
  unfold limit
  positivity

namespace Magnitude

variable {p q : ℚ}

theorem value_canonical (n : ℕ) (e : ℤ) : (canonical n e).value = n * 2 ^ e := by
  unfold canonical value
  by_cases hfull : n = 2 ^ 53
  · rw [if_pos hfull, hfull]
    show ((2 ^ 52 : ℕ) : ℚ) * 2 ^ (e + 1) = ((2 ^ 53 : ℕ) : ℚ) * 2 ^ e
    rw [zpow_add_one₀ two_ne_zero]
    push_cast
    ring
  · rw [if_neg hfull]

theorem value_nearest (q : ℚ) :
    (nearest q).value = halfEven (q * 2 ^ (-exponentFor q)) * 2 ^ exponentFor q := by
  unfold nearest
  by_cases hq : q = 0
  · rw [if_pos hq, hq, zero_mul, show halfEven 0 = 0 from halfEven_natCast 0, Nat.cast_zero,
      zero_mul]
    show ((0 : ℕ) : ℚ) * _ = 0
    rw [Nat.cast_zero, zero_mul]
  · rw [if_neg hq, value_canonical]

theorem value_nearest_zero : (nearest 0).value = 0 := by
  rw [value_nearest, zero_mul, show halfEven 0 = 0 from halfEven_natCast 0, Nat.cast_zero, zero_mul]

/-- Scaled to its exponent a value has at most 53 bits. -/
theorem scaled_lt_two_pow (hq : 0 < q) : q * 2 ^ (-exponentFor q) < ((2 ^ 53 : ℕ) : ℚ) := by
  have hlog : q < ((2 : ℕ) : ℚ) ^ (exponentFor q + 53) := by
    rw [Int.lt_zpow_iff_log_lt one_lt_two hq]
    unfold exponentFor
    omega
  calc q * 2 ^ (-exponentFor q) < 2 ^ (exponentFor q + 53) * 2 ^ (-exponentFor q) :=
        mul_lt_mul_of_pos_right (by exact_mod_cast hlog) (by positivity)
    _ = ((2 ^ 53 : ℕ) : ℚ) := by
      rw [← zpow_add₀ two_ne_zero, show exponentFor q + 53 + -exponentFor q = 53 by ring]
      norm_num

/-- And it has 53, unless the exponent is the least one. -/
theorem two_pow_le_scaled (hq : 0 < q) (h : leastExponent < exponentFor q) :
    ((2 ^ 52 : ℕ) : ℚ) ≤ q * 2 ^ (-exponentFor q) := by
  have hlog : ((2 : ℕ) : ℚ) ^ (exponentFor q + 52) ≤ q := by
    rw [Int.zpow_le_iff_le_log one_lt_two hq]
    unfold exponentFor at h ⊢
    omega
  calc ((2 ^ 52 : ℕ) : ℚ) = 2 ^ (exponentFor q + 52) * 2 ^ (-exponentFor q) := by
        rw [← zpow_add₀ two_ne_zero, show exponentFor q + 52 + -exponentFor q = 52 by ring]
        norm_num
    _ ≤ q * 2 ^ (-exponentFor q) :=
      mul_le_mul_of_nonneg_right (by exact_mod_cast hlog) (by positivity)

theorem halfEven_scaled_le (hq : 0 < q) : halfEven (q * 2 ^ (-exponentFor q)) ≤ 2 ^ 53 := by
  calc halfEven (q * 2 ^ (-exponentFor q)) ≤ halfEven ((2 ^ 53 : ℕ) : ℚ) :=
        halfEven_mono (by positivity) (scaled_lt_two_pow hq).le
    _ = 2 ^ 53 := halfEven_natCast _

theorem le_halfEven_scaled (hq : 0 < q) (h : leastExponent < exponentFor q) :
    2 ^ 52 ≤ halfEven (q * 2 ^ (-exponentFor q)) := by
  calc 2 ^ 52 = halfEven ((2 ^ 52 : ℕ) : ℚ) := (halfEven_natCast _).symm
    _ ≤ halfEven (q * 2 ^ (-exponentFor q)) :=
        halfEven_mono (by positivity) (two_pow_le_scaled hq h)

theorem value_nonneg (m : Magnitude) : 0 ≤ m.value := by
  unfold value
  positivity

theorem exponentFor_mono (hp : 0 < p) (h : p ≤ q) : exponentFor p ≤ exponentFor q := by
  have hlog := Int.log_mono_right (b := 2) hp h
  unfold exponentFor
  omega

/-- **The nearest magnitude grows with the value.** -/
theorem value_nearest_mono (hp : 0 ≤ p) (h : p ≤ q) : (nearest p).value ≤ (nearest q).value := by
  rcases eq_or_lt_of_le hp with rfl | hpos
  · rw [value_nearest_zero]
    exact value_nonneg _
  · have hqpos : 0 < q := lt_of_lt_of_le hpos h
    rw [value_nearest, value_nearest]
    rcases eq_or_lt_of_le (exponentFor_mono hpos h) with heq | hlt
    · rw [heq]
      have hscaled : p * 2 ^ (-exponentFor q) ≤ q * 2 ^ (-exponentFor q) :=
        mul_le_mul_of_nonneg_right h (by positivity)
      exact mul_le_mul_of_nonneg_right
        (by exact_mod_cast halfEven_mono (by positivity) hscaled) (by positivity)
    · -- a power of two lies between
      have hleast : leastExponent < exponentFor q :=
        lt_of_le_of_lt (le_max_right _ _) hlt
      have hupper : (halfEven (p * 2 ^ (-exponentFor p)) : ℚ) ≤ 2 ^ (53 : ℤ) := by
        exact_mod_cast halfEven_scaled_le hpos
      have hlower : (2 : ℚ) ^ (52 : ℤ) ≤ halfEven (q * 2 ^ (-exponentFor q)) := by
        exact_mod_cast le_halfEven_scaled hqpos hleast
      calc (halfEven (p * 2 ^ (-exponentFor p)) : ℚ) * 2 ^ exponentFor p
          ≤ 2 ^ (53 : ℤ) * 2 ^ exponentFor p := mul_le_mul_of_nonneg_right hupper (by positivity)
        _ = 2 ^ (53 + exponentFor p) := (zpow_add₀ two_ne_zero _ _).symm
        _ ≤ 2 ^ (52 + exponentFor q) := zpow_le_zpow_right₀ one_le_two (by omega)
        _ = 2 ^ (52 : ℤ) * 2 ^ exponentFor q := zpow_add₀ two_ne_zero _ _
        _ ≤ halfEven (q * 2 ^ (-exponentFor q)) * 2 ^ exponentFor q :=
          mul_le_mul_of_nonneg_right hlower (by positivity)

/-- A nearest magnitude is one that a double has, unless its exponent is too great. -/
theorem canonical_nearest (hq : 0 ≤ q) (h : (nearest q).exponent ≤ 971) :
    (nearest q).Canonical := by
  rcases eq_or_lt_of_le hq with rfl | hpos
  · exact ⟨by decide, fun _ => rfl, le_rfl, by decide⟩
  · unfold nearest at h ⊢
    rw [if_neg hpos.ne'] at h ⊢
    have hle := halfEven_scaled_le hpos
    have hleast : leastExponent ≤ exponentFor q := le_max_right _ _
    unfold canonical at h ⊢
    by_cases hfull : halfEven (q * 2 ^ (-exponentFor q)) = 2 ^ 53
    · rw [if_pos hfull] at h ⊢
      refine ⟨by norm_num, fun hlt => absurd hlt (by norm_num), ?_, h⟩
      show leastExponent ≤ exponentFor q + 1
      omega
    · rw [if_neg hfull] at h ⊢
      refine ⟨lt_of_le_of_ne hle hfull, fun hlt => ?_, hleast, h⟩
      by_contra hne
      have := le_halfEven_scaled hpos (lt_of_le_of_ne hleast (Ne.symm hne))
      exact absurd hlt (not_lt.2 this)

/-- With too great an exponent it has 53 bits, since only the least exponent allows fewer. -/
theorem le_significand_nearest (h : 971 < (nearest q).exponent) (hq : 0 ≤ q) :
    2 ^ 52 ≤ (nearest q).significand := by
  rcases eq_or_lt_of_le hq with rfl | hpos
  · exact absurd h (by decide)
  · unfold nearest canonical at h ⊢
    rw [if_neg hpos.ne'] at h ⊢
    by_cases hfull : halfEven (q * 2 ^ (-exponentFor q)) = 2 ^ 53
    · rw [if_pos hfull]
    · rw [if_neg hfull] at h ⊢
      exact le_halfEven_scaled hpos (lt_trans (by decide) h)

/-- With too great an exponent it is beyond all doubles. -/
theorem le_value_nearest (h : 971 < (nearest q).exponent) (hq : 0 ≤ q) :
    limit ≤ (nearest q).value := by
  have hbits : (2 : ℚ) ^ (52 : ℤ) ≤ (nearest q).significand := by
    exact_mod_cast le_significand_nearest h hq
  calc limit ≤ 2 ^ (52 + (nearest q).exponent) := zpow_le_zpow_right₀ one_le_two (by omega)
    _ = 2 ^ (52 : ℤ) * 2 ^ (nearest q).exponent := zpow_add₀ two_ne_zero _ _
    _ ≤ (nearest q).value := mul_le_mul_of_nonneg_right hbits (by positivity)

/-- A double is within them. -/
theorem Canonical.value_lt {m : Magnitude} (h : m.Canonical) : m.value < limit := by
  have hbits : (m.significand : ℚ) < 2 ^ (53 : ℤ) := by exact_mod_cast h.significand_lt
  have hexponent := h.exponent_le
  calc m.value < 2 ^ (53 : ℤ) * 2 ^ m.exponent := mul_lt_mul_of_pos_right hbits (by positivity)
    _ = 2 ^ (53 + m.exponent) := (zpow_add₀ two_ne_zero _ _).symm
    _ ≤ limit := zpow_le_zpow_right₀ one_le_two (by omega)

end Magnitude

end ShapeEstimator.Binary64
