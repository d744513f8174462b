/-
  ShapeEstimator.Proofs.Decimal.Wide
  ────────────────────────────────
  **WIDE NUMBERS ARE CUT WITH LITTLE LOSS.**

  A coefficient that is too long loses digits until it fits, and the last block of them decides
  whether it goes up by one.  So it is off by one unit of its last place at most, and that place is
  either the last one there is or behind nearly all digits there is room for:

      unit  ≤  10 ^ (-places)      or      unit  ≤  10 / 2 ^ bits  of the number
-/
import Mathlib.Algebra.Order.Floor.Semiring
import ShapeEstimator.Proofs.Decimal.Value

namespace ShapeEstimator.Decimal.Wide

/-! ## §1. Words and surplus digits. -/

/-- The first coefficient that is too long for `words + 1` words, halved. -/
abbrev halfLimit (words : ℕ) : ℕ := 2 ^ (32 * words + 31)

section Surplus

variable {words m : ℕ}

theorem topWord_le_iff : topWord m ≤ words ↔ m < 2 * halfLimit words := by
  have hlimit : 2 * halfLimit words = 2 ^ (32 * (words + 1)) := by
    rw [halfLimit, ← pow_succ']
    congr 1
  rw [hlimit]
  unfold topWord
  rcases Nat.eq_zero_or_pos m with rfl | hm
  · simp
  · rw [← Nat.log2_lt hm.ne']
    omega

theorem lt_topWord_iff : words < topWord m ↔ 2 * halfLimit words ≤ m := by
  rw [← not_le, topWord_le_iff, not_lt]

/-- The factor 77 / 256 is a little less than the decimal logarithm of two. -/
theorem ten_pow_le_two_pow (n : ℕ) : 10 ^ (n * 77 / 256) ≤ 2 ^ n := by
  have hpow : (10 ^ (n * 77 / 256)) ^ 256 ≤ (2 ^ n) ^ 256 := by
    calc (10 ^ (n * 77 / 256)) ^ 256 = 10 ^ (n * 77 / 256 * 256) := (pow_mul _ _ _).symm
      _ ≤ 10 ^ (77 * n) := by
          apply Nat.pow_le_pow_right (by norm_num)
          rw [mul_comm 77 n]
          exact Nat.div_mul_le_self _ _
      _ = (10 ^ 77) ^ n := pow_mul _ _ _
      _ ≤ (2 ^ 256) ^ n := Nat.pow_le_pow_left (by norm_num) n
      _ = (2 ^ n) ^ 256 := by rw [← pow_mul, ← pow_mul, mul_comm]
  exact (Nat.pow_le_pow_iff_left (by norm_num)).1 hpow

/-- The surplus of a coefficient that is too long, by its bits. -/
theorem surplus_eq (h : words < topWord m) :
    surplus words m = (m.log2 - (32 * words + 31)) * 77 / 256 + 1 := by
  have hbits : (topWord m - words) * 32 - (31 - m.log2 % 32) = m.log2 - (32 * words + 31) := by
    unfold topWord at h ⊢
    omega
  unfold surplus
  rw [if_neg (not_le.2 h), hbits]

/-- Dropping the surplus, but for one digit, leaves at least half of what there is room for. -/
theorem le_of_surplus {i : ℕ} (h : surplus words m = i + 1) : halfLimit words * 10 ^ i ≤ m := by
  have hlong : words < topWord m := by
    by_contra hshort
    rw [surplus, if_pos (not_lt.1 hshort)] at h
    exact nomatch h
  have hi : i = (m.log2 - (32 * words + 31)) * 77 / 256 := by
    have heq := surplus_eq hlong
    omega
  have hlog : 32 * words + 31 ≤ m.log2 := by
    unfold topWord at hlong
    omega
  have hm : m ≠ 0 := by
    rintro rfl
    exact absurd hlong (by simp [topWord])
  calc halfLimit words * 10 ^ i
      ≤ halfLimit words * 2 ^ (m.log2 - (32 * words + 31)) := by
        rw [hi]
        exact Nat.mul_le_mul_left _ (ten_pow_le_two_pow _)
    _ = 2 ^ m.log2 := by
        rw [halfLimit, ← pow_add]
        congr 1
        omega
    _ ≤ m := Nat.log2_self_le hm

end Surplus

/-! ## §2. Cutting. -/

/-- What is left of a coefficient after `k` digits have been dropped: at least `n` of them, and no
more than needed. -/
structure IsCut (words m scale n k : ℕ) (r : ℕ × ℕ × ℕ) : Prop where
  /-- At least as many digits are dropped as asked for. -/
  le_dropped : n ≤ k
  /-- Only places are dropped. -/
  dropped_le : k ≤ scale
  /-- The rest of the digits. -/
  digits_eq : r.1 = m / 10 ^ k
  /-- The rest of the places. -/
  scale_eq : r.2.1 = scale - k
  /-- The rest is short enough. -/
  fits : topWord r.1 ≤ words
  /-- One digit less would be too long, or less than asked for. -/
  least : k = n ∨ ∃ i, k = i + 1 ∧ words < topWord (m / 10 ^ i)

/-- A cut after some digits have been dropped is a cut. -/
theorem IsCut.after {words m scale n n' p k : ℕ} {r : ℕ × ℕ × ℕ} (hp : p ≤ scale)
    (h : IsCut words (m / 10 ^ p) (scale - p) n' k r) (hn : n ≤ p + n')
    (hleast : n' = n - p ∧ p ≤ n ∨ n' = 1 ∧ words < topWord (m / 10 ^ p)) :
    IsCut words m scale n (p + k) r := by
  have hdropped := h.dropped_le
  have hle := h.le_dropped
  refine ⟨by omega, by omega, ?_, ?_, h.fits, ?_⟩
  · rw [h.digits_eq, Nat.div_div_eq_div_mul, ← pow_add]
  · rw [h.scale_eq]
    omega
  · rcases h.least with hk | ⟨i, hi, hlong⟩
    · rcases hleast with ⟨hn', hpn⟩ | ⟨hn', hlong⟩
      · left
        omega
      · exact Or.inr ⟨p, by omega, hlong⟩
    · right
      rw [Nat.div_div_eq_div_mul, ← pow_add] at hlong
      exact ⟨p + i, by omega, hlong⟩

/-- The digits that are dropped at a time are some of those that are asked for. -/
theorem block_bounds {words m n : ℕ} (hn : 1 ≤ n ∨ topWord m ≤ words)
    (h : ¬ (n = 0 ∧ topWord m ≤ words)) :
    1 ≤ Nat.max 1 (Nat.min n 9) ∧ Nat.max 1 (Nat.min n 9) ≤ n := by
  have hn : 1 ≤ n := by
    by_contra hzero
    exact h ⟨by omega, hn.resolve_left hzero⟩
  exact ⟨Nat.le_max_left .., Nat.max_le.2 ⟨hn, Nat.min_le_left ..⟩⟩

/-- **Cutting.**  A coefficient is cut as it should be, unless digits before the point would have to
go. -/
theorem cut_spec (words m scale n last : ℕ) (hn : 1 ≤ n ∨ topWord m ≤ words) :
    (∀ r, cut words m scale n last = some r → ∃ k, IsCut words m scale n k r)
      ∧ (cut words m scale n last = none → scale < n ∨ words < topWord (m / 10 ^ scale)) := by
  fun_induction cut words m scale n last with
  | case1 m scale n last h =>
    -- nothing is left to drop
    obtain ⟨rfl, hfits⟩ := h
    refine ⟨fun r hr => ?_, nofun⟩
    cases hr
    exact ⟨0, ⟨le_rfl, Nat.zero_le _, by simp, rfl, hfits, Or.inl rfl⟩⟩
  | case2 m scale n last h p hscale =>
    have hpn := (block_bounds hn h).2
    exact ⟨nofun, fun _ => Or.inl (lt_of_lt_of_le hscale hpn)⟩
  | case3 m n last h p hlong hscale =>
    exact ⟨nofun, fun _ => Or.inr hlong.1⟩
  | case4 m scale n last h p hscale hlong hne ih =>
    -- all digits that were asked for are dropped, and the rest is still too long
    obtain ⟨hp, hpn⟩ := block_bounds hn h
    obtain ⟨hsome, hnone⟩ := ih (Or.inl le_rfl)
    constructor
    · intro r hr
      obtain ⟨k, hk⟩ := hsome r hr
      exact ⟨p + k, hk.after (not_lt.1 hscale) (by omega) (Or.inr ⟨rfl, hlong.1⟩)⟩
    · intro hr
      rcases hnone hr with hlt | hlong'
      · omega
      · right
        rwa [Nat.div_div_eq_div_mul, ← pow_add, Nat.add_sub_of_le (not_lt.1 hscale)] at hlong'
  | case5 m scale n last h p hscale hlong ih =>
    -- digits are left that were asked for, or the rest is short enough
    obtain ⟨hp, hpn⟩ := block_bounds hn h
    have hrest : 1 ≤ n - p ∨ topWord (m / 10 ^ p) ≤ words := by
      by_contra hneither
      rw [not_or, not_le, not_le] at hneither
      exact hlong ⟨hneither.2, by omega⟩
    obtain ⟨hsome, hnone⟩ := ih hrest
    constructor
    · intro r hr
      obtain ⟨k, hk⟩ := hsome r hr
      exact ⟨p + k, hk.after (not_lt.1 hscale) (by omega) (Or.inl ⟨rfl, hpn⟩)⟩
    · intro hr
      rcases hnone hr with hlt | hlong'
      · left
        omega
      · right
        rwa [Nat.div_div_eq_div_mul, ← pow_add, Nat.add_sub_of_le (not_lt.1 hscale)] at hlong'

/-! ## §3. Fitting. -/

/-- The grain of a number that is cut: a unit of its last place, or of its last digit. -/
def grain (words places : ℕ) (q : ℚ) : ℚ := Max.max (1 / 10 ^ places) (10 / halfLimit words * q)

section Fit

variable {words places m s k : ℕ} {r : ℕ × ℕ × ℕ}

/-- The digits that are left, as a part of the number. -/
theorem div_pow_eq (hk : k ≤ s) : (m : ℚ) / 10 ^ s = (m : ℚ) / 10 ^ k / 10 ^ (s - k) := by
  rw [div_div, ← pow_add, Nat.add_sub_of_le hk]

/-- The number is between the digits that are left and the next ones. -/
theorem digits_bounds (m k : ℕ) :
    ((m / 10 ^ k : ℕ) : ℚ) ≤ (m : ℚ) / 10 ^ k ∧ (m : ℚ) / 10 ^ k < ((m / 10 ^ k : ℕ) : ℚ) + 1 := by
  have hpow : (0 : ℚ) < 10 ^ k := by positivity
  rw [le_div_iff₀ hpow, div_lt_iff₀ hpow]
  constructor
  · exact_mod_cast Nat.div_mul_le_self m (10 ^ k)
  · have h := Nat.lt_mul_div_succ m (show 0 < 10 ^ k by positivity)
    rw [mul_comm] at h
    exact_mod_cast h

/-- Digits that fill half of the room make the last of them small. -/
theorem le_grain (places : ℕ) (hk : k ≤ s) (h : (halfLimit words : ℚ) ≤ (m : ℚ) / 10 ^ k) :
    10 / 10 ^ (s - k) ≤ grain words places ((m : ℚ) / 10 ^ s) := by
  have hhalf : (0 : ℚ) < halfLimit words := by positivity
  apply le_max_of_le_right
  rw [div_pow_eq hk, div_mul_div_comm]
  rw [div_le_div_iff₀ (by positivity) (by positivity)]
  have hpow : (0 : ℚ) < 10 ^ (s - k) := by positivity
  calc 10 * (halfLimit words * 10 ^ (s - k)) ≤ 10 * ((m : ℚ) / 10 ^ k * 10 ^ (s - k)) := by gcongr
    _ = 10 * ((m : ℚ) / 10 ^ k) * 10 ^ (s - k) := by ring

/-- The last place of a number that is cut is small. -/
theorem IsCut.unit_le
    (h : IsCut words m s (Nat.max (surplus words m) (s - places)) k r)
    (hn : 1 ≤ Nat.max (surplus words m) (s - places)) :
    1 / 10 ^ (s - k) ≤ grain words places ((m : ℚ) / 10 ^ s) := by
  have hks := h.dropped_le
  -- either all places are left that there are, or one digit more would fill half of the room
  have hwhy : s - k = places ∨ ∃ i, k = i + 1 ∧ halfLimit words * 10 ^ i ≤ m := by
    rcases h.least with hk | ⟨i, hi, hlong⟩
    · rcases le_total (surplus words m) (s - places) with hle | hle
      · rw [show Nat.max (surplus words m) (s - places) = s - places from Nat.max_eq_right hle]
          at hk hn
        left
        omega
      · rw [show Nat.max (surplus words m) (s - places) = surplus words m from Nat.max_eq_left hle]
          at hk hn
        obtain ⟨i, hi⟩ : ∃ i, surplus words m = i + 1 := ⟨surplus words m - 1, by omega⟩
        exact Or.inr ⟨i, by omega, le_of_surplus hi⟩
    · refine Or.inr ⟨i, hi, ?_⟩
      have hlong := (Nat.le_div_iff_mul_le (by positivity)).1 (lt_topWord_iff.1 hlong)
      refine le_trans (Nat.mul_le_mul_right _ ?_) hlong
      omega
  rcases hwhy with hplaces | ⟨i, rfl, hi⟩
  · rw [hplaces]
    exact le_max_left _ _
  · have hdigits : (halfLimit words : ℚ) ≤ (m : ℚ) / 10 ^ i := by
      rw [le_div_iff₀ (by positivity)]
      exact_mod_cast hi
    have hgrain := le_grain places (show i ≤ s by omega) hdigits
    have hstep : s - i = s - (i + 1) + 1 := by omega
    rw [hstep, pow_succ, ← div_div, div_right_comm, div_self (by norm_num)] at hgrain
    exact hgrain

/-- A coefficient and a scale that were brought to size. -/
structure IsFit (words places m s : ℕ) (r : ℕ × ℕ) : Prop where
  /-- The digits are short enough. -/
  digits_lt : r.1 < 2 * halfLimit words
  /-- There are few enough places. -/
  scale_le : r.2 ≤ places
  /-- Nothing is changed, or the number is off by a unit of the last place, which is small. -/
  off : r = (m, s)
    ∨ |(r.1 : ℚ) / 10 ^ r.2 - (m : ℚ) / 10 ^ s| ≤ 1 / 10 ^ r.2
    ∧ 1 / 10 ^ r.2 ≤ grain words places ((m : ℚ) / 10 ^ s)

/-- The digits that are left, or the next ones, are off by one unit at most. -/
theorem abs_digits_sub_le {m₁ : ℕ} (hk : k ≤ s) (hm : m₁ = m / 10 ^ k ∨ m₁ = m / 10 ^ k + 1) :
    |(m₁ : ℚ) / 10 ^ (s - k) - (m : ℚ) / 10 ^ s| ≤ 1 / 10 ^ (s - k) := by
  have hpow : (0 : ℚ) < 10 ^ (s - k) := by positivity
  obtain ⟨hlower, hupper⟩ := digits_bounds m k
  rw [div_pow_eq hk, ← sub_div, abs_div, abs_of_pos hpow]
  apply div_le_div_of_nonneg_right _ hpow.le
  rw [abs_le]
  rcases hm with rfl | rfl
  · constructor <;> linarith
  · push_cast
    constructor <;> linarith

/-- Digits that come out one too long lose one more. -/
theorem isFit_carried (hk : k < s) (hplaces : s - k ≤ places)
    (hm : m / 10 ^ k + 1 = 2 * halfLimit words) :
    IsFit words places m s (2 * halfLimit words / 10, s - k - 1) := by
  have hhalf : 0 < halfLimit words := by positivity
  obtain ⟨hlower, hupper⟩ := digits_bounds m k
  have hcast : ((m / 10 ^ k : ℕ) : ℚ) + 1 = 2 * halfLimit words := by exact_mod_cast hm
  have hone : (1 : ℚ) ≤ halfLimit words := by exact_mod_cast hhalf
  have hgrain := le_grain places (m := m) hk.le
    (show (halfLimit words : ℚ) ≤ (m : ℚ) / 10 ^ k by linarith)
  have hstep : s - k = s - k - 1 + 1 := by omega
  have hpow : (0 : ℚ) < 10 ^ (s - k) := by positivity
  have hunit : (1 : ℚ) / 10 ^ (s - k - 1) = 10 / 10 ^ (s - k) := by
    rw [hstep, Nat.add_sub_cancel, pow_succ]
    field_simp
  refine ⟨by omega, by omega, Or.inr ⟨?_, hunit.trans_le hgrain⟩⟩
  · have hdigit : (2 * halfLimit words : ℕ) = 10 * (2 * halfLimit words / 10)
        + 2 * halfLimit words % 10 := (Nat.div_add_mod _ _).symm
    have hrest : ((2 * halfLimit words % 10 : ℕ) : ℚ) ≤ 9 := by
      exact_mod_cast Nat.le_of_lt_succ (Nat.mod_lt _ (by norm_num))
    have hrest' : (0 : ℚ) ≤ ((2 * halfLimit words % 10 : ℕ) : ℚ) := Nat.cast_nonneg _
    have hcut : 2 * (halfLimit words : ℚ) = 10 * ((2 * halfLimit words / 10 : ℕ) : ℚ)
        + ((2 * halfLimit words % 10 : ℕ) : ℚ) := by exact_mod_cast hdigit
    have hvalue : ((2 * halfLimit words / 10 : ℕ) : ℚ) / 10 ^ (s - k - 1)
        = 10 * ((2 * halfLimit words / 10 : ℕ) : ℚ) / 10 ^ (s - k) := by
      rw [hstep, Nat.add_sub_cancel, pow_succ]
      field_simp
    show |((2 * halfLimit words / 10 : ℕ) : ℚ) / 10 ^ (s - k - 1) - _| ≤ 1 / 10 ^ (s - k - 1)
    rw [hunit, hvalue, div_pow_eq hk.le, ← sub_div, abs_div, abs_of_pos hpow]
    apply div_le_div_of_nonneg_right _ hpow.le
    rw [abs_le]
    constructor <;> linarith

/-- What a cut leaves, rounded up or not, is returned if it is short enough, and loses one more
digit otherwise. -/
def finish (words m s : ℕ) : Option (ℕ × ℕ) :=
  if topWord m ≤ words then some (m, s) else if s = 0 then none else some (m / 10, s - 1)

/-- How a number is fitted. -/
theorem fitTo_cases (words places m s : ℕ) :
    (topWord m ≤ words ∧ (s ≤ 28 ∨ s ≤ places) ∧ fitTo words places m s = some (m, s))
      ∨ ((s < surplus words m ∨ words < topWord (m / 10 ^ s)) ∧ fitTo words places m s = none)
      ∨ ∃ k r m', 1 ≤ Nat.max (surplus words m) (s - places)
        ∧ IsCut words m s (Nat.max (surplus words m) (s - places)) k r
        ∧ (m' = m / 10 ^ k ∨ m' = m / 10 ^ k + 1)
        ∧ fitTo words places m s = finish words m' (s - k) := by
  unfold fitTo
  by_cases hsmall : topWord m ≤ words ∧ s ≤ 28
  · rw [if_pos hsmall]
    exact Or.inl ⟨hsmall.1, Or.inl hsmall.2, rfl⟩
  rw [if_neg hsmall]
  dsimp only
  have hplaces : s - places ≤ Nat.max (surplus words m) (s - places) := Nat.le_max_right ..
  by_cases hzero : Nat.max (surplus words m) (s - places) = 0
  · have hsurplus : surplus words m ≤ 0 := hzero ▸ Nat.le_max_left ..
    have hshort : topWord m ≤ words := by
      by_contra hlong
      rw [surplus_eq (not_le.1 hlong)] at hsurplus
      omega
    rw [if_pos hzero]
    exact Or.inl ⟨hshort, Or.inr (by omega), rfl⟩
  rw [if_neg hzero]
  have hn : 1 ≤ Nat.max (surplus words m) (s - places) := Nat.one_le_iff_ne_zero.2 hzero
  -- only the surplus can be more than there are places
  have hleft : s < Nat.max (surplus words m) (s - places) → s < surplus words m := by
    intro hs
    exact (lt_max_iff.1 hs).resolve_right (by omega)
  by_cases hs : s < Nat.max (surplus words m) (s - places)
  · rw [if_pos hs]
    exact Or.inr (Or.inl ⟨Or.inl (hleft hs), rfl⟩)
  rw [if_neg hs]
  obtain ⟨hsome, hnone⟩ := cut_spec words m s _ 0 (Or.inl hn)
  cases hcut : cut words m s (Nat.max (surplus words m) (s - places)) 0 with
  | none => exact Or.inr (Or.inl ⟨(hnone hcut).imp_left hleft, rfl⟩)
  | some r =>
    obtain ⟨k, hk⟩ := hsome r hcut
    obtain ⟨d, s', last⟩ := r
    have hd : d = m / 10 ^ k := hk.digits_eq
    have hs' : s' = s - k := hk.scale_eq
    refine Or.inr (Or.inr ⟨k, (d, s', last), _, hn, hk, ?_, by rw [← hs']; rfl⟩)
    rw [← hd]
    exact (ite_eq_or_eq _ _ _).symm

/-- The next digits can be too long only if they are the first that are. -/
theorem eq_limit_of_next {d m' : ℕ} (hd : topWord d ≤ words) (hm : m' = d ∨ m' = d + 1)
    (hlong : ¬ topWord m' ≤ words) : m' = 2 * halfLimit words ∧ d + 1 = 2 * halfLimit words := by
  have hshort := topWord_le_iff.1 hd
  have hlarge := lt_topWord_iff.1 (not_le.1 hlong)
  omega

/-- **Fitting.**  What comes out has the right size and is off by little. -/
theorem fitTo_isFit (hplaces : 28 ≤ places) {r : ℕ × ℕ} (h : fitTo words places m s = some r) :
    IsFit words places m s r := by
  rcases fitTo_cases words places m s with
    ⟨hshort, hs, heq⟩ | ⟨-, heq⟩ | ⟨k, c, m', hn, hk, hm, heq⟩
  · rw [heq] at h
    cases h
    exact ⟨topWord_le_iff.1 hshort, by omega, Or.inl rfl⟩
  · rw [heq] at h
    exact nomatch h
  · have hunit := hk.unit_le hn
    have hks := hk.dropped_le
    have hfits := hk.fits
    rw [hk.digits_eq] at hfits
    have hkp : s - k ≤ places := by
      have hall := (Nat.le_max_right ..).trans hk.le_dropped
      omega
    rw [heq, finish] at h
    by_cases hshort : topWord m' ≤ words
    · rw [if_pos hshort] at h
      cases h
      exact ⟨topWord_le_iff.1 hshort, hkp,
        Or.inr ⟨abs_digits_sub_le hks hm, hunit⟩⟩
    · obtain ⟨hm', hnext⟩ := eq_limit_of_next hfits hm hshort
      rw [if_neg hshort, hm'] at h
      -- the digits have become the first ones that are too long
      by_cases hscale : s - k = 0
      · rw [if_pos hscale] at h
        exact nomatch h
      · rw [if_neg hscale] at h
        cases h
        exact isFit_carried (by omega) hkp hnext

/-- Fitting fails only where digits before the point would have to go. -/
theorem fitTo_eq_none (h : fitTo words places m s = none) :
    s < surplus words m ∨ 2 * (halfLimit words : ℚ) - 1 ≤ (m : ℚ) / 10 ^ s := by
  have hlarge : 2 * halfLimit words ≤ m / 10 ^ s + 1 →
      2 * (halfLimit words : ℚ) - 1 ≤ (m : ℚ) / 10 ^ s := by
    intro hdigits
    have hcast : 2 * (halfLimit words : ℚ) ≤ ((m / 10 ^ s : ℕ) : ℚ) + 1 := by
      exact_mod_cast hdigits
    linarith [(digits_bounds m s).1]
  rcases fitTo_cases words places m s with ⟨-, -, heq⟩ | ⟨hwhy, -⟩ | ⟨k, c, m', -, hk, hm, heq⟩
  · rw [heq] at h
    exact nomatch h
  · refine hwhy.imp_right fun hlong => hlarge ?_
    exact (lt_topWord_iff.1 hlong).trans (Nat.le_succ _)
  · have hks := hk.dropped_le
    have hfits := hk.fits
    rw [hk.digits_eq] at hfits
    rw [heq, finish] at h
    by_cases hshort : topWord m' ≤ words
    · rw [if_pos hshort] at h
      exact nomatch h
    · rw [if_neg hshort] at h
      by_cases hscale : s - k = 0
      · -- no places are left, and the next digits are too long
        have hall : k = s := by omega
        subst hall
        exact Or.inr (hlarge (eq_limit_of_next hfits hm hshort).2.ge)
      · rw [if_neg hscale] at h
        exact nomatch h

/-- A number whose digits before the point would have to go is large. -/
theorem le_of_lt_surplus (h : s < surplus words m) : (halfLimit words : ℚ) ≤ (m : ℚ) / 10 ^ s := by
  obtain ⟨i, hi⟩ : ∃ i, surplus words m = i + 1 := ⟨surplus words m - 1, by omega⟩
  rw [le_div_iff₀ (by positivity)]
  have hpow : 10 ^ s ≤ 10 ^ i := Nat.pow_le_pow_right (by norm_num) (by omega)
  exact_mod_cast (Nat.mul_le_mul_left _ hpow).trans (le_of_surplus hi)

end Fit

/-! ## §4. Places. -/

theorem dropDigits_le {c p : ℕ} (hp : 1 ≤ p) : dropDigits c p ≤ c := by
  have hpow : 10 ≤ 10 ^ p := Nat.le_self_pow (by omega) 10
  rcases Nat.eq_zero_or_pos c with rfl | hc
  · simp [dropDigits, nearestEven]
  · have hdiv : c / 10 ^ p ≤ c / 10 := Nat.div_le_div_left hpow (by norm_num)
    have hnext := nearestEven_le_succ c (10 ^ p)
    unfold dropDigits
    omega

/-- A number without some of its digits is off by half a unit at most. -/
theorem abs_dropDigits_sub_le {c s p : ℕ} (hp : p ≤ s) :
    |(dropDigits c p : ℚ) / 10 ^ (s - p) - (c : ℚ) / 10 ^ s| ≤ 1 / 2 / 10 ^ (s - p) := by
  have hpow : (0 : ℚ) < 10 ^ (s - p) := by positivity
  have hround := isHalfEven_halfEven (q := (c : ℚ) / 10 ^ s * 10 ^ (s - p)) (by positivity)
  rw [← dropDigits_eq hp] at hround
  have hvalue : (c : ℚ) / 10 ^ s = (c : ℚ) / 10 ^ s * 10 ^ (s - p) / 10 ^ (s - p) := by
    field_simp
  rw [hvalue, ← sub_div, abs_div, abs_of_pos hpow]
  apply div_le_div_of_nonneg_right _ hpow.le
  rw [abs_le]
  constructor <;> linarith [hround.lower, hround.upper]

/-- What dropping places does, from the number with its places `s`. -/
structure DropsPlaces (c s : ℕ) (r : ℕ × ℕ) : Prop where
  /-- The digits do not become more. -/
  digits_le : r.1 ≤ c
  /-- As many places are left as there may be. -/
  scale_eq : r.2 = Min.min s 57
  /-- The roundings of several blocks add up to less than a unit. -/
  off : |(r.1 : ℚ) / 10 ^ r.2 - (c : ℚ) / 10 ^ s| ≤ 1 / 10 ^ 57 - 1 / 10 ^ Max.max s 57

theorem dropPlaces_spec (c s : ℕ) : DropsPlaces c s (dropPlaces c s) := by
  fun_induction dropPlaces c s with
  | case1 c s h =>
    refine ⟨le_rfl, (min_eq_left h).symm, ?_⟩
    rw [max_eq_right h, sub_self, sub_self, abs_zero]
  | case2 c s h p ih =>
    have hp : 1 ≤ p := Nat.le_min.2 ⟨by omega, by norm_num⟩
    have hps : p ≤ s - 57 := Nat.min_le_left ..
    obtain ⟨hdigits, hscale, hoff⟩ := ih
    refine ⟨hdigits.trans (dropDigits_le hp), by rw [hscale]; omega, ?_⟩
    have hstep := abs_dropDigits_sub_le (c := c) (show p ≤ s by omega)
    have hleft : Max.max (s - p) 57 = s - p := max_eq_left (by omega)
    have hall : Max.max s 57 = s := max_eq_left (by omega)
    rw [hleft] at hoff
    -- the step is off by less than what the places it drops leave
    have hunit : (1 : ℚ) / 10 ^ s ≤ 1 / 2 / 10 ^ (s - p) := by
      have hsplit : s = s - p + p := by omega
      have hten : (2 : ℚ) ≤ 10 ^ p :=
        le_trans (by norm_num) (le_self_pow₀ (show (1 : ℚ) ≤ 10 by norm_num) (by omega))
      rw [div_div, div_le_div_iff₀ (by positivity) (by positivity), one_mul, one_mul]
      calc (2 : ℚ) * 10 ^ (s - p) ≤ 10 ^ p * 10 ^ (s - p) := by gcongr
        _ = 10 ^ s := by rw [← pow_add, add_comm, ← hsplit]
    have hhalf : (1 : ℚ) / 10 ^ (s - p) = 1 / 2 / 10 ^ (s - p) + 1 / 2 / 10 ^ (s - p) := by ring
    rw [hall]
    have htriangle := abs_sub_le ((dropPlaces (dropDigits c p) (s - p)).1 / 10 ^
      (dropPlaces (dropDigits c p) (s - p)).2 : ℚ) (dropDigits c p / 10 ^ (s - p)) (c / 10 ^ s)
    linarith

/-! ## §5. Products. -/

/-- The value without the sign. -/
def size (x : Wide) : ℚ := x.coefficient / 10 ^ x.scale

/-- The value. -/
def value (x : Wide) : ℚ := signed x.negative x.size

/-- A wide number with as many digits and places as there is room for. -/
structure InRange (x : Wide) : Prop where
  /-- There are 192 bits. -/
  coefficient_lt : x.coefficient < 2 ^ 192
  /-- There are 57 places. -/
  scale_le : x.scale ≤ 57

/-- By how much a wide product is off, relative to its size or one. -/
def productRoundoff : ℚ := 1 / 10 ^ 56

theorem productRoundoff_nonneg : 0 ≤ productRoundoff := by norm_num [productRoundoff]

section Products

variable {x y z : Wide}

theorem size_nonneg (x : Wide) : 0 ≤ x.size := by
  unfold size
  positivity

theorem abs_value (x : Wide) : |x.value| = x.size := abs_signed _ x.size_nonneg

theorem inRange_ofDecimal (x : Decimal) : (ofDecimal x).InRange :=
  ⟨lt_trans x.coefficient_lt (by norm_num), x.scale_le.trans (by norm_num)⟩

@[simp] theorem value_one : one.value = 1 := by
  simp [value, size, signed, one]

theorem inRange_one : one.InRange := ⟨by norm_num [one], by norm_num [one]⟩

theorem value_mul_value (x y : Wide) : x.value * y.value = signed (x.negative != y.negative)
    (((x.coefficient * y.coefficient : ℕ) : ℚ) / 10 ^ (x.scale + y.scale)) := by
  rw [value, value, signed_mul, size, size, pow_add, div_mul_div_comm]
  push_cast
  rfl

theorem grain_product_le (q : ℚ) : grain 5 57 q ≤ productRoundoff * Max.max 1 q := by
  have hone : (1 : ℚ) ≤ Max.max 1 q := le_max_left 1 q
  have hself : q ≤ Max.max 1 q := le_max_right 1 q
  unfold grain productRoundoff
  apply max_le
  · norm_num
    linarith
  · rw [halfLimit]
    norm_num
    linarith

theorem abs_signed_sub (negative : Bool) (q r : ℚ) :
    |signed negative q - signed negative r| = |q - r| := by
  rw [← signed_sub]
  cases negative with
  | false => rfl
  | true => exact abs_neg (q - r)

/-- What is known of a product of wide numbers. -/
structure IsProduct (x y z : Wide) : Prop where
  /-- The product has as many digits and places as there is room for. -/
  inRange : z.InRange
  /-- It is off by little. -/
  off : |z.value - x.value * y.value| ≤ productRoundoff * Max.max 1 |x.value * y.value|
  /-- A product of moderate size keeps the places of its factors, or many of them. -/
  places : x.coefficient ≠ 0 → y.coefficient ≠ 0 → |x.value * y.value| ≤ 8 * 10 ^ 28 →
    Min.min (x.scale + y.scale) 28 ≤ z.scale

/-- A number of moderate size with a small last place has many places. -/
theorem le_scale_of_grain {q : ℚ} {t : ℕ} (hq : q ≤ 8 * 10 ^ 28) (h : 1 / 10 ^ t ≤ grain 5 57 q) :
    28 ≤ t := by
  by_contra hlt
  have hpow : (10 : ℚ) ^ t ≤ 10 ^ 27 := pow_le_pow_right₀ (by norm_num) (by omega)
  have hunit : (1 : ℚ) / 10 ^ 27 ≤ 1 / 10 ^ t := one_div_le_one_div_of_le (by positivity) hpow
  have hgrain : grain 5 57 q < 1 / 10 ^ 27 := by
    unfold grain halfLimit
    apply max_lt
    · norm_num
    · norm_num at hq ⊢
      linarith
  linarith

/-- A product with a factor zero. -/
theorem isProduct_zero (hzero : x.coefficient = 0 ∨ y.coefficient = 0) :
    IsProduct x y ⟨false, 0, 0⟩ := by
  have hproduct : x.value * y.value = 0 := by
    rw [value_mul_value]
    rcases hzero with h | h <;> simp [h, signed_zero]
  have hvalue : (⟨false, 0, 0⟩ : Wide).value = 0 := by
    simp [value, size, signed_zero]
  refine ⟨⟨by norm_num, by norm_num⟩, ?_, ?_⟩
  · rw [hproduct, hvalue]
    norm_num [productRoundoff]
  · intro hx hy
    exact absurd hzero (not_or.2 ⟨hx, hy⟩)

/-- The product without its sign. -/
theorem abs_value_mul (x y : Wide) : |x.value * y.value|
    = ((x.coefficient * y.coefficient : ℕ) : ℚ) / 10 ^ (x.scale + y.scale) := by
  rw [value_mul_value]
  exact abs_signed _ (by positivity)

/-- By how much digits and places are off as a product. -/
theorem abs_sub_product (x y : Wide) (c s : ℕ) :
    |(⟨x.negative != y.negative, c, s⟩ : Wide).value - x.value * y.value|
      = |(c : ℚ) / 10 ^ s
          - ((x.coefficient * y.coefficient : ℕ) : ℚ) / 10 ^ (x.scale + y.scale)| := by
  rw [value_mul_value]
  exact abs_signed_sub _ _ _

/-- A product whose digits are few enough loses places only. -/
theorem isProduct_dropPlaces (hshort : x.coefficient * y.coefficient < 2 ^ 192) {r : ℕ × ℕ}
    (hr : dropPlaces (x.coefficient * y.coefficient) (x.scale + y.scale) = r) :
    IsProduct x y ⟨x.negative != y.negative, r.1, r.2⟩ := by
  obtain ⟨hdigits, hscale, hdrop⟩ :=
    dropPlaces_spec (x.coefficient * y.coefficient) (x.scale + y.scale)
  rw [hr] at hdigits hscale hdrop
  refine ⟨⟨lt_of_le_of_lt hdigits hshort, by rw [hscale]; exact min_le_right _ _⟩, ?_, ?_⟩
  · rw [abs_sub_product]
    have hone : (1 : ℚ) ≤ Max.max 1 |x.value * y.value| := le_max_left _ _
    have hunit : (0 : ℚ) ≤ 1 / 10 ^ Max.max (x.scale + y.scale) 57 := by positivity
    have hroundoff : (1 : ℚ) / 10 ^ 57 ≤ productRoundoff := by
      norm_num [productRoundoff]
    have hgrow : productRoundoff * 1 ≤ productRoundoff * Max.max 1 |x.value * y.value| :=
      mul_le_mul_of_nonneg_left hone productRoundoff_nonneg
    linarith
  · intro _ _ _
    show _ ≤ r.2
    omega

/-- A product whose digits are too many is cut. -/
theorem isProduct_fitTo (hlong : ¬ x.coefficient * y.coefficient < 2 ^ 192) {r : ℕ × ℕ}
    (hr : fitTo 5 57 (x.coefficient * y.coefficient) (x.scale + y.scale) = some r) :
    IsProduct x y ⟨x.negative != y.negative, r.1, r.2⟩ := by
  obtain ⟨hdigits, hscale, hfit⟩ := fitTo_isFit (by norm_num) hr
  rw [← abs_value_mul] at hfit
  have hcut := hfit.resolve_left (by
    intro hsame
    rw [hsame] at hdigits
    exact hlong hdigits)
  refine ⟨⟨hdigits, hscale⟩, ?_, ?_⟩
  · rw [abs_sub_product, ← abs_value_mul]
    exact (hcut.1.trans hcut.2).trans (grain_product_le _)
  · intro _ _ hmoderate
    exact (min_le_right _ _).trans (le_scale_of_grain hmoderate hcut.2)

/-- The parts of a product that is not zero. -/
theorem mul_eq (hx : x.coefficient ≠ 0) (hy : y.coefficient ≠ 0) :
    x.mul y = (if x.coefficient * y.coefficient < 2 ^ 192
        then some (dropPlaces (x.coefficient * y.coefficient) (x.scale + y.scale))
        else fitTo 5 57 (x.coefficient * y.coefficient) (x.scale + y.scale)).map
      fun r => ⟨x.negative != y.negative, r.1, r.2⟩ := by
  unfold mul
  rw [if_neg (by simp [hx, hy])]

/-- **Products.**  A product of wide numbers is off by little, and it exists unless it is large. -/
theorem mul_isProduct (h : x.mul y = some z) : IsProduct x y z := by
  by_cases hzero : x.coefficient = 0 ∨ y.coefficient = 0
  · unfold mul at h
    rw [if_pos hzero] at h
    cases h
    exact isProduct_zero hzero
  · obtain ⟨hx, hy⟩ := not_or.1 hzero
    rw [mul_eq hx hy] at h
    obtain ⟨r, hr, rfl⟩ := Option.map_eq_some_iff.1 h
    by_cases hshort : x.coefficient * y.coefficient < 2 ^ 192
    · rw [if_pos hshort] at hr
      exact isProduct_dropPlaces hshort (Option.some_inj.1 hr)
    · rw [if_neg hshort] at hr
      exact isProduct_fitTo hshort hr

theorem exists_mul (h : |x.value * y.value| < 2 ^ 191) : ∃ z, x.mul y = some z := by
  by_cases hzero : x.coefficient = 0 ∨ y.coefficient = 0
  · unfold mul
    rw [if_pos hzero]
    exact ⟨_, rfl⟩
  · obtain ⟨hx0, hy0⟩ := not_or.1 hzero
    rw [mul_eq hx0 hy0]
    split
    · exact ⟨_, rfl⟩
    · rw [abs_value_mul] at h
      cases hfit : fitTo 5 57 (x.coefficient * y.coefficient) (x.scale + y.scale) with
      | some r => exact ⟨_, rfl⟩
      | none =>
        exfalso
        have hhalf : (halfLimit 5 : ℚ) = 2 ^ 191 := by norm_num [halfLimit]
        rcases fitTo_eq_none hfit with hs | hlarge
        · have hlarge := le_of_lt_surplus hs
          linarith
        · have hone : (1 : ℚ) ≤ 2 ^ 191 := by norm_num
          linarith

end Products

/-! ## §6. Decimals again. -/

/-- By how much a decimal is off that is made of a wide number, relative to its size or one. -/
def decimalRoundoff : ℚ := 3 / 10 ^ 28

section Decimals

variable {x : Wide} {z : Decimal}

theorem value_of_make? {negative : Bool} {m s : ℕ} (h : (make? negative m s).map clean = some z) :
    z.value = signed negative ((m : ℚ) / 10 ^ s) := by
  obtain ⟨w, hw, rfl⟩ := Option.map_eq_some_iff.1 h
  rw [value_clean, value_make? hw]

/-- The decimal of a wide number is that number, or it is off by a unit of its last place. -/
theorem toDecimal?_cut (h : x.toDecimal? = some z) :
    z.value = x.value ∨ ∃ s : ℕ, |z.value - x.value| ≤ 1 / 10 ^ s
      ∧ 1 / 10 ^ s ≤ grain 2 28 x.size := by
  have hexact : ∀ {m s : ℕ}, (m, s) = (x.coefficient, x.scale) →
      (make? x.negative m s).map clean = some z → z.value = x.value := by
    rintro m s heq hz
    cases heq
    exact value_of_make? hz
  unfold toDecimal? at h
  split at h
  · exact Or.inl (hexact rfl h)
  · obtain ⟨r, hr, hz⟩ := Option.bind_eq_some_iff.1 h
    obtain ⟨-, -, hoff⟩ := fitTo_isFit (by norm_num) hr
    rcases hoff with hsame | ⟨hoff, hunit⟩
    · exact Or.inl (hexact hsame hz)
    · refine Or.inr ⟨r.2, ?_, hunit⟩
      rw [value_of_make? hz, value, abs_signed_sub]
      exact hoff

/-- **Decimals of wide numbers.**  The decimal is off by little. -/
theorem toDecimal?_off (h : x.toDecimal? = some z) :
    |z.value - x.value| ≤ decimalRoundoff * Max.max 1 |x.value| := by
  have hone : (1 : ℚ) ≤ Max.max 1 |x.value| := le_max_left _ _
  have hself : |x.value| ≤ Max.max 1 |x.value| := le_max_right _ _
  rcases toDecimal?_cut h with hsame | ⟨s, hoff, hunit⟩
  · rw [hsame, sub_self, abs_zero]
    exact mul_nonneg (by norm_num [decimalRoundoff]) (by linarith)
  · refine (hoff.trans hunit).trans ?_
    rw [abs_value] at hone hself ⊢
    unfold grain decimalRoundoff
    apply max_le
    · norm_num
      linarith
    · rw [halfLimit]
      norm_num
      linarith

/-- A number of moderate size has places for all its surplus digits, if it is not near the greatest
decimal or has many places. -/
theorem surplus_le_scale (hx : x.InRange) (hsize : x.size ≤ 75 * 10 ^ 27)
    (hplaces : x.size < 2 ^ 95 ∨ 28 ≤ x.scale) : surplus 2 x.coefficient ≤ x.scale := by
  by_contra hs
  rcases hplaces with hless | hscale
  · have hlarge := le_of_lt_surplus (not_le.1 hs)
    have hhalf : (halfLimit 2 : ℚ) = 2 ^ 95 := by norm_num [halfLimit]
    rw [hhalf] at hlarge
    exact absurd hless (not_lt.2 hlarge)
  · -- 192 bits have 29 digits too many at most, and as many digits as the size allows 28
    have hm0 : x.coefficient ≠ 0 := by
      intro hzero
      rw [hzero] at hs
      exact hs (by simp [surplus, topWord])
    have hlong : 2 < topWord x.coefficient := by
      by_contra hshort
      rw [surplus, if_pos (not_lt.1 hshort)] at hs
      exact hs (Nat.zero_le _)
    rw [surplus_eq hlong] at hs
    have hbits : x.coefficient.log2 < 192 := (Nat.log2_lt hm0).2 hx.coefficient_lt
    have hscale' : x.scale = 28 := by omega
    have hdigits : x.coefficient < 2 ^ 189 := by
      unfold size at hsize
      rw [hscale', div_le_iff₀ (by positivity)] at hsize
      have hlt : (x.coefficient : ℚ) < 2 ^ 189 := lt_of_le_of_lt hsize (by norm_num)
      exact_mod_cast hlt
    have hbits' : x.coefficient.log2 < 189 := (Nat.log2_lt hm0).2 hdigits
    omega

/-- There is a decimal for such a number. -/
theorem exists_toDecimal? (hx : x.InRange) (hsize : x.size ≤ 75 * 10 ^ 27)
    (hplaces : x.size < 2 ^ 95 ∨ 28 ≤ x.scale) : ∃ z, x.toDecimal? = some z := by
  have hmake : ∀ {m s : ℕ}, m < 2 ^ 96 → s ≤ 28 →
      ∃ z, (make? x.negative m s).map clean = some z := by
    intro m s hm hs
    obtain ⟨w, hw⟩ := exists_make? x.negative hm hs
    exact ⟨w.clean, by rw [hw]; rfl⟩
  unfold toDecimal?
  split
  · rename_i hsmall
    exact hmake hsmall.1 hsmall.2
  · cases hfit : fitTo 2 28 x.coefficient x.scale with
    | none =>
      exfalso
      rcases fitTo_eq_none hfit with hs | hlarge
      · exact absurd (surplus_le_scale hx hsize hplaces) (not_le.2 hs)
      · unfold size at hsize
        have hhalf : (halfLimit 2 : ℚ) = 2 ^ 95 := by norm_num [halfLimit]
        rw [hhalf] at hlarge
        norm_num at hlarge hsize
        linarith
    | some r =>
      obtain ⟨hdigits, hscale, -⟩ := fitTo_isFit (by norm_num) hfit
      exact hmake hdigits hscale

end Decimals

end ShapeEstimator.Decimal.Wide
