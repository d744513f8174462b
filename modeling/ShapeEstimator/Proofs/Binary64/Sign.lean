/-
  ShapeEstimator.Proofs.Binary64.Sign
  ────────────────────────────────
  **SIGNS OF DOUBLES.**

  An operation rounds, and may lose a number to zero or to NaN.  What it does not lose
  has the sign of the exact result:

      sign (x - y)  =  -  if x < y,  + if y < x        sign (x * y)  =  sign x · sign y

  so a chain of operations has, where it has one, the sign that it would have in exact
  arithmetic.
-/
import ShapeEstimator.Binary64.Greater
import ShapeEstimator.Proofs.Binary64.Finite

namespace ShapeEstimator.Binary64

open Float.Model (Format UnpackedFloat)
open Float.Model.UnpackedFloat (pack packComponents unpack unpackSign unpackExponent unpackMantissa
  decreaseExponent roundWithAccuracy)

/-! ## §1. Unpacked doubles. -/

/-- The sign of a number other than zero. -/
def unpackedSign? : UnpackedFloat → Option UnpackedFloat.Sign
  | .notANumber | .zero _ => none
  | .infinity s | .finite s _ _ _ => some s

/-- An unpacked double in canonical form: a significand of 53 bits, or a shorter one with the least
exponent. -/
def Canonical : UnpackedFloat → Prop
  | .finite _ m e _ => m < 2 ^ 53 ∧ -1074 ≤ e ∧ (-1074 < e → 2 ^ 52 ≤ m)
  | _ => True

theorem canonical_unpack (b : BitVec Format.binary64.numBits) : Canonical (unpack .binary64 b) := by
  have hfraction : (unpackMantissa b).toNat < 2 ^ 52 := (unpackMantissa b).isLt
  have hbias : ((Format.binary64.exponentBias : ℕ) : ℤ) = 1023 := rfl
  have hwidth : ((Format.binary64.mantissaBitsWithoutImplicit : ℕ) : ℤ) = 52 := rfl
  unfold unpack
  dsimp only
  by_cases hones : unpackExponent b = -1#_
  · rw [if_pos hones]
    split <;> trivial
  · rw [if_neg hones]
    by_cases hzero : unpackExponent b = 0#_
    · rw [if_pos hzero]
      by_cases hnil : unpackMantissa b = 0#_
      · rw [dif_pos hnil]
        trivial
      · -- a subnormal number has the least exponent
        rw [dif_neg hnil, hzero, hbias, hwidth]
        refine ⟨by omega, ?_, fun h => absurd h ?_⟩ <;> decide
    · rw [if_neg hzero]
      have hleading : (1#1 ++ unpackMantissa b).toNat = 2 ^ 52 + (unpackMantissa b).toNat := by
        rw [BitVec.toNat_append, Nat.shiftLeft_eq]
        exact (Nat.two_pow_add_eq_or_of_lt hfraction 1).symm
      have hpos : 0 < (unpackExponent b).toNat :=
        Nat.pos_of_ne_zero fun heq => hzero (BitVec.toNat_inj.1 heq)
      rw [hbias, hwidth]
      refine ⟨?_, ?_, fun _ => ?_⟩ <;> omega

theorem unpackSign_packComponents {spec : Format} (s : UnpackedFloat.Sign)
    (e : BitVec spec.exponentBits) (m : BitVec spec.mantissaBitsWithoutImplicit) :
    UnpackedFloat.Sign.ofBitVec (unpackSign (packComponents spec s e m)) = s := by
  have hbit : unpackSign (packComponents spec s e m) = s.toBitVec := by
    apply BitVec.eq_of_getLsbD_eq
    intro i hi
    obtain rfl : i = 0 := by omega
    unfold unpackSign packComponents
    simp [BitVec.getLsbD_append, BitVec.getElem_append]
  rw [hbit]
  cases s <;> rfl

/-- An unpacked number has the sign of its bits. -/
theorem unpackedSign?_unpack {b : BitVec Format.binary64.numBits} {r : UnpackedFloat.Sign}
    (h : unpackedSign? (unpack .binary64 b) = some r) :
    UnpackedFloat.Sign.ofBitVec (unpackSign b) = r := by
  unfold unpack at h
  dsimp only at h
  by_cases hones : unpackExponent b = -1#_
  · rw [if_pos hones] at h
    by_cases hfraction : unpackMantissa b = 0#_
    · rw [if_pos hfraction] at h
      exact Option.some.inj h
    · rw [if_neg hfraction] at h
      exact nomatch h
  · rw [if_neg hones] at h
    by_cases hzero : unpackExponent b = 0#_
    · rw [if_pos hzero] at h
      by_cases hfraction : unpackMantissa b = 0#_
      · rw [dif_pos hfraction] at h
        exact nomatch h
      · rw [dif_neg hfraction] at h
        exact Option.some.inj h
    · rw [if_neg hzero] at h
      exact Option.some.inj h

/-- Packing keeps the sign, or loses the number. -/
theorem unpackedSign?_of_pack {u : UnpackedFloat} {r : UnpackedFloat.Sign}
    (h : unpackedSign? (unpack .binary64 (pack .binary64 u)) = some r) :
    unpackedSign? u = some r := by
  cases u with
  | notANumber => exact nomatch (show none = some r from h)
  | zero s => cases s <;> exact nomatch (show none = some r from h)
  | infinity s =>
    have hs : UnpackedFloat.Sign.ofBitVec (unpackSign (packComponents .binary64 s _ _)) = r :=
      unpackedSign?_unpack h
    rw [unpackSign_packComponents] at hs
    exact congrArg some hs
  | finite s m e hm =>
    have hs := unpackedSign?_unpack h
    unfold pack at hs
    dsimp only at hs
    -- too big a number becomes an infinity of its sign
    split at hs
    · unfold UnpackedFloat.packedInfinity at hs
      rw [unpackSign_packComponents] at hs
      exact congrArg some hs
    · split at hs
      · rw [unpackSign_packComponents] at hs
        exact congrArg some hs
      · rw [unpackSign_packComponents] at hs
        exact congrArg some hs

/-! ## §2. Operations. -/

section Unpacked

variable {u v : UnpackedFloat} {r s : UnpackedFloat.Sign}

/-- A magnitude is rounded to a zero or to a finite number, of the sign that it is given. -/
theorem roundWithAccuracy_cases (s : UnpackedFloat.Sign) (m : ℕ) (e : ℤ)
    (a : UnpackedFloat.Accuracy) :
    roundWithAccuracy .binary64 s m e a = .zero s
      ∨ ∃ n f hn, roundWithAccuracy .binary64 s m e a = .finite s n f hn := by
  obtain ⟨n, f, hround⟩ : ∃ (n : ℕ) (f : ℤ), roundWithAccuracy .binary64 s m e a
      = if hn : n = 0 then .zero s else .finite s n f (Nat.pos_of_ne_zero hn) := ⟨_, _, rfl⟩
  by_cases hn : n = 0
  · exact Or.inl (hround.trans (dif_pos hn))
  · exact Or.inr ⟨n, f, _, hround.trans (dif_neg hn)⟩

theorem unpackedSign?_roundWithAccuracy {m : ℕ} {e : ℤ} {a : UnpackedFloat.Accuracy}
    (h : unpackedSign? (roundWithAccuracy .binary64 s m e a) = some r) : s = r := by
  rcases roundWithAccuracy_cases s m e a with hzero | ⟨n, f, hn, hfinite⟩
  · rw [hzero] at h
    exact nomatch h
  · rw [hfinite] at h
    exact Option.some.inj h

theorem unpackedSign?_normalize {m : ℤ} {e : ℤ}
    (h : unpackedSign? (UnpackedFloat.normalize .binary64 m e s) = some r) :
    r = .negative ∧ m < 0 ∨ r = .positive ∧ 0 < m := by
  unfold UnpackedFloat.normalize at h
  split at h
  · rename_i hm
    exact Or.inl ⟨(unpackedSign?_roundWithAccuracy h).symm, Int.compare_eq_lt.1 hm⟩
  · exact nomatch h
  · rename_i hm
    exact Or.inr ⟨(unpackedSign?_roundWithAccuracy h).symm, Int.compare_eq_gt.1 hm⟩

/-- The sign of a product is that of its factors. -/
theorem unpackedSign?_mul (h : unpackedSign? (UnpackedFloat.mul .binary64 u v) = some r) :
    ∃ s t, unpackedSign? u = some s ∧ unpackedSign? v = some t ∧ s * t = r := by
  -- a zero or NaN makes the product one that has no sign either
  cases u with
  | notANumber => exact nomatch h
  | infinity s =>
    cases v with
    | notANumber | zero t => exact nomatch h
    | infinity t | finite t m e hm => exact ⟨s, t, rfl, rfl, Option.some.inj h⟩
  | zero s => cases v <;> exact nomatch h
  | finite s m e hm =>
    cases v with
    | notANumber | zero t => exact nomatch h
    | infinity t => exact ⟨s, t, rfl, rfl, Option.some.inj h⟩
    | finite t n f hn => exact ⟨s, t, rfl, rfl, unpackedSign?_roundWithAccuracy h⟩

/-- The sign of a quotient by a positive number is that of the dividend. -/
theorem unpackedSign?_div (hv : unpackedSign? v = some .positive)
    (h : unpackedSign? (UnpackedFloat.div .binary64 u v) = some r) : unpackedSign? u = some r := by
  have hone : ∀ s : UnpackedFloat.Sign, s / .positive = s := by
    intro s
    cases s <;> rfl
  cases v with
  | notANumber | zero t => exact nomatch hv
  | infinity t =>
    -- what is divided by an infinity is lost
    cases u <;> exact nomatch h
  | finite t n f hn =>
    obtain rfl : t = .positive := Option.some.inj hv
    cases u with
    | notANumber | zero s => exact nomatch h
    | infinity s => exact (congrArg some (hone s)).symm.trans h
    | finite s m e hm =>
      have hs : s / .positive = r := unpackedSign?_roundWithAccuracy h
      exact congrArg some ((hone s).symm.trans hs)

/-- A significand as `sub` aligns it to a smaller exponent. -/
theorem decreaseExponent_fst (m : ℕ) {e k : ℤ} {d : ℕ} (h : e = k + d) :
    (decreaseExponent m e k).1 = m * 2 ^ d := by
  show m <<< (e - k).toNat = m * 2 ^ d
  rw [Nat.shiftLeft_eq, show (e - k).toNat = d by omega]

/-- In canonical form the greater exponent makes the greater number, whatever the significands. -/
theorem aligned_lt {m₁ m₂ : ℕ} {e₁ e₂ : ℤ} (h₁ : m₁ < 2 ^ 53) (he₁ : -1074 ≤ e₁)
    (h₂ : -1074 < e₂ → 2 ^ 52 ≤ m₂) (he : e₁ < e₂) :
    (decreaseExponent m₁ e₁ (min e₁ e₂)).1 < (decreaseExponent m₂ e₂ (min e₁ e₂)).1 := by
  obtain ⟨d, hd⟩ : ∃ d : ℕ, e₂ = e₁ + (d + 1 : ℕ) := ⟨(e₂ - e₁ - 1).toNat, by omega⟩
  rw [min_eq_left he.le, decreaseExponent_fst m₁ (show e₁ = e₁ + (0 : ℕ) by omega),
    decreaseExponent_fst m₂ hd, pow_zero, mul_one]
  calc m₁ < 2 ^ 52 * 2 ^ (0 + 1) := h₁
    _ ≤ m₂ * 2 ^ (d + 1) :=
      Nat.mul_le_mul (h₂ (by omega)) (Nat.pow_le_pow_right (by norm_num) (by omega))

/-- The comparison of canonical magnitudes is that of their aligned significands. -/
theorem compare_aligned {m₁ m₂ : ℕ} {e₁ e₂ : ℤ} {hm₁ : 0 < m₁} {hm₂ : 0 < m₂}
    {s₁ s₂ : UnpackedFloat.Sign} (h₁ : Canonical (.finite s₁ m₁ e₁ hm₁))
    (h₂ : Canonical (.finite s₂ m₂ e₂ hm₂)) :
    (compare e₁ e₂).then (compare m₁ m₂)
      = compare (decreaseExponent m₁ e₁ (min e₁ e₂)).1 (decreaseExponent m₂ e₂ (min e₁ e₂)).1 := by
  obtain ⟨hlt₁, hle₁, hlong₁⟩ := h₁
  obtain ⟨hlt₂, hle₂, hlong₂⟩ := h₂
  -- where the exponents differ they decide, before and after the alignment
  rcases lt_trichotomy e₁ e₂ with he | rfl | he
  · rw [Int.compare_eq_lt.2 he, Nat.compare_eq_lt.2 (aligned_lt hlt₁ hle₁ hlong₂ he)]
    rfl
  · rw [min_self, decreaseExponent_fst m₁ (show e₁ = e₁ + (0 : ℕ) by omega),
      decreaseExponent_fst m₂ (show e₁ = e₁ + (0 : ℕ) by omega), pow_zero, mul_one, mul_one,
      Int.compare_eq_eq.2 rfl]
    rfl
  · have hlt := aligned_lt hlt₂ hle₂ hlong₁ he
    rw [min_comm] at hlt
    rw [Int.compare_eq_gt.2 he, Nat.compare_eq_gt.2 hlt]
    rfl

/-- The comparison of canonical numbers is that of their significands, aligned and signed. -/
theorem compare_finite {m n : ℕ} {e f : ℤ} {hm : 0 < m} {hn : 0 < n} {s t : UnpackedFloat.Sign}
    (hu : Canonical (.finite s m e hm)) (hv : Canonical (.finite t n f hn)) :
    UnpackedFloat.compare (.finite s m e hm) (.finite t n f hn)
      = some (compare (s.apply (decreaseExponent m e (min e f)).1)
          (t.apply (decreaseExponent n f (min e f)).1)) := by
  have hcompare := compare_aligned hu hv
  have hpos : 0 < (decreaseExponent m e (min e f)).1 := by
    rw [decreaseExponent_fst m (d := (e - min e f).toNat) (by omega)]
    positivity
  generalize (decreaseExponent m e (min e f)).1 = a at hcompare hpos
  generalize (decreaseExponent n f (min e f)).1 = b at hcompare
  have hcast : compare a b = compare (a : ℤ) b := by
    rcases lt_trichotomy a b with h | rfl | h
    · rw [Nat.compare_eq_lt.2 h, Int.compare_eq_lt.2 (by omega)]
    · rw [Nat.compare_eq_eq.2 rfl, Int.compare_eq_eq.2 rfl]
    · rw [Nat.compare_eq_gt.2 h, Int.compare_eq_gt.2 (by omega)]
  -- different signs decide by themselves, and two negative numbers compare the other way round
  cases s <;> cases t
  · show some ((compare e f).then (compare m n)).swap = some (compare (-(a : ℤ)) (-(b : ℤ)))
    rw [hcompare, hcast, Int.compare_swap]
    rcases lt_trichotomy a b with h | rfl | h
    · rw [Int.compare_eq_gt.2 (by omega), Int.compare_eq_gt.2 (by omega)]
    · rw [Int.compare_eq_eq.2 rfl, Int.compare_eq_eq.2 rfl]
    · rw [Int.compare_eq_lt.2 (by omega), Int.compare_eq_lt.2 (by omega)]
  · show some Ordering.lt = some (compare (-(a : ℤ)) b)
    rw [Int.compare_eq_lt.2 (by omega)]
  · show some Ordering.gt = some (compare (a : ℤ) (-(b : ℤ)))
    rw [Int.compare_eq_gt.2 (by omega)]
  · show some ((compare e f).then (compare m n)) = some (compare (a : ℤ) b)
    rw [hcompare, hcast]

/-- The sign of a difference tells which of the two is the greater. -/
theorem unpackedSign?_sub (hu : Canonical u) (hv : Canonical v)
    (h : unpackedSign? (UnpackedFloat.sub .binary64 u v) = some r) :
    r = .negative ∧ u.compare v = some .lt ∨ r = .positive ∧ u.compare v = some .gt := by
  cases u with
  | notANumber => exact nomatch h
  | infinity s =>
    cases v with
    | notANumber => exact nomatch h
    | infinity t =>
      -- infinities of one sign leave no number
      cases s <;> cases t
      · exact nomatch (show none = some r from h)
      · exact Or.inl ⟨(Option.some.inj h).symm, rfl⟩
      · exact Or.inr ⟨(Option.some.inj h).symm, rfl⟩
      · exact nomatch (show none = some r from h)
    | zero t | finite t n f hn =>
      cases s
      · exact Or.inl ⟨(Option.some.inj h).symm, rfl⟩
      · exact Or.inr ⟨(Option.some.inj h).symm, rfl⟩
  | zero s =>
    cases v with
    | notANumber => exact nomatch h
    | zero t => cases s <;> cases t <;> exact nomatch (show none = some r from h)
    | infinity t | finite t n f hn =>
      cases t
      · exact Or.inr ⟨(Option.some.inj h).symm, rfl⟩
      · exact Or.inl ⟨(Option.some.inj h).symm, rfl⟩
  | finite s m e hm =>
    cases v with
    | notANumber => exact nomatch h
    | infinity t =>
      cases t
      · exact Or.inr ⟨(Option.some.inj h).symm, by cases s <;> rfl⟩
      · exact Or.inl ⟨(Option.some.inj h).symm, by cases s <;> rfl⟩
    | zero t =>
      cases s
      · exact Or.inl ⟨(Option.some.inj h).symm, rfl⟩
      · exact Or.inr ⟨(Option.some.inj h).symm, rfl⟩
    | finite t n f hn =>
      -- the difference of the aligned significands is what is rounded
      rw [compare_finite hu hv]
      rcases unpackedSign?_normalize h with ⟨hr, hlt⟩ | ⟨hr, hlt⟩
      · exact Or.inl ⟨hr, congrArg some (Int.compare_eq_lt.2 (sub_neg.1 hlt))⟩
      · exact Or.inr ⟨hr, congrArg some (Int.compare_eq_gt.2 (sub_pos.1 hlt))⟩

/-- Comparing the other way round gives the other answer. -/
theorem compare_swap (u v : UnpackedFloat) : u.compare v = (v.compare u).map Ordering.swap := by
  cases u with
  | notANumber => cases v <;> rfl
  | infinity s =>
    cases v with
    | notANumber => rfl
    | infinity t => cases s <;> cases t <;> rfl
    | zero t => cases s <;> rfl
    | finite t n f hn => cases s <;> cases t <;> rfl
  | zero s =>
    cases v with
    | notANumber | zero t => rfl
    | infinity t | finite t n f hn => cases t <;> rfl
  | finite s m e hm =>
    cases v with
    | notANumber => rfl
    | infinity t => cases s <;> cases t <;> rfl
    | zero t => cases s <;> rfl
    | finite t n f hn =>
      have hswap : (compare e f).then (compare m n)
          = ((compare f e).then (compare n m)).swap := by
        rw [Ordering.swap_then, Int.compare_swap, Nat.compare_swap]
      cases s <;> cases t
      · show some ((compare e f).then (compare m n)).swap = some _
        rw [hswap]
      · rfl
      · rfl
      · show some ((compare e f).then (compare m n)) = some _
        rw [hswap]

end Unpacked

/-! ## §3. Doubles. -/

variable {x y : Float} {r : UnpackedFloat.Sign}

/-- The sign of a double other than zero. -/
def sign? (x : Float) : Option UnpackedFloat.Sign := unpackedSign? x.toModel.unpack

theorem unpack_zero : (0 : Float).toModel.unpack = .zero .positive := by
  with_unfolding_all rfl

theorem lt_iff : x < y ↔ x.toModel.unpack.compare y.toModel.unpack = some .lt := by
  have hdecide : x < y ↔ (x.toModel.unpack.compare y.toModel.unpack == some .lt) = true :=
    decide_eq_true_iff
  rw [hdecide, beq_iff_eq]

theorem le_iff : x ≤ y ↔ (x.toModel.unpack.compare y.toModel.unpack).any (·.isLE) = true :=
  decide_eq_true_iff

theorem beq_iff : (x == y) = true ↔ x.toModel.unpack.compare y.toModel.unpack = some .eq := by
  have hdecide : (x == y) = true ↔ (x.toModel.unpack.compare y.toModel.unpack == some .eq) = true :=
    Iff.rfl
  rw [hdecide, beq_iff_eq]

theorem gt_iff : y < x ↔ x.toModel.unpack.compare y.toModel.unpack = some .gt := by
  rw [lt_iff, compare_swap]
  cases x.toModel.unpack.compare y.toModel.unpack with
  | none => exact iff_of_false nofun nofun
  | some o => cases o <;> decide

theorem lt_zero_iff : x < 0 ↔ sign? x = some .negative := by
  rw [lt_iff, unpack_zero]
  unfold sign?
  cases x.toModel.unpack with
  | notANumber | zero s => exact iff_of_false nofun nofun
  | infinity s | finite s m e hm =>
    cases s
    · exact iff_of_true rfl rfl
    · exact iff_of_false nofun nofun

theorem zero_lt_iff : 0 < x ↔ sign? x = some .positive := by
  rw [gt_iff, unpack_zero]
  unfold sign?
  cases x.toModel.unpack with
  | notANumber | zero s => exact iff_of_false nofun nofun
  | infinity s | finite s m e hm =>
    cases s
    · exact iff_of_false nofun nofun
    · exact iff_of_true rfl rfl

/-- **The sign of a difference** is that of the comparison. -/
theorem sign?_sub (h : sign? (x - y) = some r) :
    r = .negative ∧ x < y ∨ r = .positive ∧ y < x := by
  rw [lt_iff, gt_iff]
  exact unpackedSign?_sub (canonical_unpack _) (canonical_unpack _) (unpackedSign?_of_pack h)

/-- **The sign of a product** is that of its factors. -/
theorem sign?_mul (h : sign? (x * y) = some r) :
    ∃ s t, sign? x = some s ∧ sign? y = some t ∧ s * t = r :=
  unpackedSign?_mul (unpackedSign?_of_pack h)

/-- The sign of a quotient by a positive number is that of the dividend. -/
theorem sign?_div (hy : 0 < y) (h : sign? (x / y) = some r) : sign? x = some r :=
  unpackedSign?_div (zero_lt_iff.1 hy) (unpackedSign?_of_pack h)

theorem not_lt_of_le (h : x ≤ y) : ¬ y < x := by
  rw [le_iff] at h
  rw [gt_iff]
  intro hgt
  rw [hgt] at h
  exact nomatch h

theorem not_lt_of_lt (h : x < y) : ¬ y < x := by
  rw [lt_iff] at h
  rw [gt_iff, h]
  nofun

/-! ## §4. Zeros. -/

theorem beq_zero_iff : (x == 0) = true ↔ ∃ s, x.toModel.unpack = .zero s := by
  rw [beq_iff, unpack_zero]
  cases x.toModel.unpack with
  | notANumber => exact iff_of_false nofun fun ⟨_, h⟩ => nomatch h
  | zero s => exact iff_of_true rfl ⟨s, rfl⟩
  | infinity s | finite s m e hm =>
    refine iff_of_false ?_ fun ⟨_, h⟩ => nomatch h
    cases s <;> nofun

theorem beq_zero_of_sign?_eq_none (hnan : x.isNaN = false) (h : sign? x = none) :
    (x == 0) = true := by
  rw [beq_zero_iff]
  unfold sign? at h
  have hnan : x.toModel.unpack.isNaN = false := hnan
  cases hx : x.toModel.unpack with
  | notANumber =>
    rw [hx] at hnan
    exact nomatch hnan
  | zero s => exact ⟨s, rfl⟩
  | infinity s | finite s m e hm =>
    rw [hx] at h
    exact nomatch h

/-- Where a double is not above zero, the greater of the two is zero. -/
theorem greater_zero (h : ¬ 0 < x) : (greater x 0 == 0) = true := by
  have hzero : ((0 : Float) == 0) = true := by decide +kernel
  unfold greater
  split
  · exact hzero
  · rename_i hnan
    rw [if_neg (show ¬ (0 : Float).isNaN = true by decide +kernel)]
    split
    · exact hzero
    · rename_i hlt
      split
      · exact hzero
      · apply beq_zero_of_sign?_eq_none (Bool.not_eq_true _ ▸ hnan)
        rw [lt_zero_iff] at hlt
        rw [zero_lt_iff] at h
        cases hsign : sign? x with
        | none => rfl
        | some s => cases s <;> contradiction

/-- A zero is packed as a zero. -/
theorem pack_beq_zero {u : UnpackedFloat} (h : ∃ s, u = .zero s) :
    (Float.ofModel (.pack u) == 0) = true := by
  obtain ⟨s, rfl⟩ := h
  exact beq_zero_iff.2 ⟨s, by cases s <;> rfl⟩

/-- Zero times a finite double is zero. -/
theorem zero_mul_beq_zero (hx : (x == 0) = true) (hy : y.isFinite = true) :
    (x * y == 0) = true := by
  obtain ⟨s, hs⟩ := beq_zero_iff.1 hx
  have hy : y.toModel.unpack.isFinite = true := hy
  apply pack_beq_zero
  rw [hs]
  cases hunpacked : y.toModel.unpack with
  | notANumber | infinity t =>
    rw [hunpacked] at hy
    exact nomatch hy
  | zero t | finite t n f hn => exact ⟨s * t, rfl⟩

theorem isFinite_of_beq_zero (hx : (x == 0) = true) : x.isFinite = true := by
  obtain ⟨s, hs⟩ := beq_zero_iff.1 hx
  show x.toModel.unpack.isFinite = true
  rw [hs]
  rfl

/-- A product with zero is zero exactly where its factors are finite. -/
theorem zero_mul_mul_beq_zero_iff {z : Float} (hz : (z == 0) = true) :
    (z * x * y == 0) = true ↔ x.isFinite = true ∧ y.isFinite = true := by
  constructor
  · intro h
    obtain ⟨hproduct, hy⟩ := isFinite_of_mul (isFinite_of_beq_zero h)
    exact ⟨(isFinite_of_mul hproduct).2, hy⟩
  · rintro ⟨hx, hy⟩
    exact zero_mul_beq_zero (zero_mul_beq_zero hz hx) hy

/-! ## §5. Equal products. -/

theorem isNaN_unpack_iff (b : BitVec Format.binary64.numBits) :
    (unpack .binary64 b).isNaN = true ↔ unpackExponent b = -1#_ ∧ unpackMantissa b ≠ 0#_ := by
  unfold unpack
  dsimp only
  by_cases hones : unpackExponent b = -1#_
  · rw [if_pos hones]
    by_cases hfraction : unpackMantissa b = 0#_
    · rw [if_pos hfraction]
      exact iff_of_false Bool.false_ne_true fun h => h.2 hfraction
    · rw [if_neg hfraction]
      exact iff_of_true rfl ⟨hones, hfraction⟩
  · rw [if_neg hones]
    refine iff_of_false ?_ fun h => hones h.1
    by_cases hzero : unpackExponent b = 0#_
    · rw [if_pos hzero]
      by_cases hfraction : unpackMantissa b = 0#_
      · rw [dif_pos hfraction]
        exact Bool.false_ne_true
      · rw [dif_neg hfraction]
        exact Bool.false_ne_true
    · rw [if_neg hzero]
      exact Bool.false_ne_true

theorem isNaN_unpack_packComponents {s : UnpackedFloat.Sign}
    {e : BitVec Format.binary64.exponentBits}
    {m : BitVec Format.binary64.mantissaBitsWithoutImplicit} (h : e ≠ -1#_) :
    (unpack .binary64 (packComponents .binary64 s e m)).isNaN = false := by
  rw [← Bool.not_eq_true, isNaN_unpack_iff, UnpackedFloat.unpackExponent_packComponents]
  exact fun hones => h hones.1

/-- A number is packed as one. -/
theorem isNaN_unpack_pack {u : UnpackedFloat} (h : u.isNaN = false) :
    (unpack .binary64 (pack .binary64 u)).isNaN = false := by
  have hinfinity : ∀ s,
      (unpack .binary64 (UnpackedFloat.packedInfinity .binary64 s)).isNaN = false := by
    intro s
    cases s <;> rfl
  cases u with
  | notANumber => exact nomatch h
  | infinity s => exact hinfinity s
  | zero s => cases s <;> rfl
  | finite s m e hm =>
    unfold pack
    dsimp only
    split
    · exact hinfinity s
    · rename_i hsmall
      split
      · -- the exponent fits, and the greatest of its field is left to the infinities
        generalize (e + Format.binary64.exponentBias
          + Format.binary64.mantissaBitsWithoutImplicit).toNat = biased at hsmall ⊢
        have hlt : biased + 1 < 2 ^ 11 := not_le.1 hsmall
        refine isNaN_unpack_packComponents fun hones => ?_
        have hnat : biased % 2 ^ 11 = 2 ^ 11 - 1 := by
          rw [← BitVec.toNat_ofNat, hones]
          rfl
        omega
      · exact isNaN_unpack_packComponents (by decide)

theorem compare_self {u : UnpackedFloat} (h : u.isNaN = false) : u.compare u = some .eq := by
  cases u with
  | notANumber => exact nomatch h
  | zero s => rfl
  | infinity s => cases s <;> rfl
  | finite s m e hm =>
    have heq : (compare e e).then (compare m m) = .eq := by
      rw [Int.compare_eq_eq.2 rfl, Nat.compare_eq_eq.2 rfl]
      rfl
    cases s
    · show some ((compare e e).then (compare m m)).swap = some .eq
      rw [heq]
      rfl
    · exact congrArg some heq

theorem isNaN_roundWithAccuracy {s : UnpackedFloat.Sign} {m : ℕ} {e : ℤ}
    {a : UnpackedFloat.Accuracy} : (roundWithAccuracy .binary64 s m e a).isNaN = false := by
  rcases roundWithAccuracy_cases s m e a with hzero | ⟨n, f, hn, hfinite⟩
  · rw [hzero]
    rfl
  · rw [hfinite]
    rfl

/-- A product of finite doubles is a number, and equal to itself. -/
theorem mul_beq_self (hx : x.isFinite = true) (hy : y.isFinite = true) :
    (x * y == x * y) = true := by
  have hnan : (UnpackedFloat.mul .binary64 x.toModel.unpack y.toModel.unpack).isNaN = false := by
    have hx : x.toModel.unpack.isFinite = true := hx
    have hy : y.toModel.unpack.isFinite = true := hy
    cases hu : x.toModel.unpack with
    | notANumber | infinity s =>
      rw [hu] at hx
      exact nomatch hx
    | zero s =>
      cases hv : y.toModel.unpack with
      | notANumber | infinity t =>
        rw [hv] at hy
        exact nomatch hy
      | zero t | finite t n f hn => rfl
    | finite s m e hm =>
      cases hv : y.toModel.unpack with
      | notANumber | infinity t =>
        rw [hv] at hy
        exact nomatch hy
      | zero t => rfl
      | finite t n f hn => exact isNaN_roundWithAccuracy
  exact beq_iff.2 (compare_self (isNaN_unpack_pack hnan))

/-- Adding zero leaves a double other than zero as it is. -/
theorem add_zero_eq {z : Float} (hx : x.isFinite = true) (hne : ¬ (x == 0) = true)
    (hz : (z == 0) = true) : x + z = x := by
  obtain ⟨t, ht⟩ := beq_zero_iff.1 hz
  have hadd : UnpackedFloat.add .binary64 x.toModel.unpack z.toModel.unpack = x.toModel.unpack := by
    rw [ht]
    cases hu : x.toModel.unpack with
    | zero s => exact absurd (beq_zero_iff.2 ⟨s, hu⟩) hne
    | notANumber | infinity s | finite s m e hm => rfl
  calc x + z = .ofModel (.pack (UnpackedFloat.add .binary64 x.toModel.unpack z.toModel.unpack)) :=
        rfl
    _ = Float.ofBits x.toBits := by rw [hadd]; rfl
    _ = x := ofBits_toBits hx

/-- Adding zero to a zero leaves a zero. -/
theorem add_zero_beq_zero {z : Float} (hx : (x == 0) = true) (hz : (z == 0) = true) :
    (x + z == 0) = true := by
  obtain ⟨s, hs⟩ := beq_zero_iff.1 hx
  obtain ⟨t, ht⟩ := beq_zero_iff.1 hz
  apply pack_beq_zero
  rw [hs, ht]
  cases s <;> cases t <;> exact ⟨_, rfl⟩

/-- Adding zero to a factor does not change a product. -/
theorem add_zero_mul_beq {z : Float} (hx : x.isFinite = true) (hz : (z == 0) = true)
    (hy : y.isFinite = true) : ((x + z) * y == x * y) = true := by
  by_cases hzero : (x == 0) = true
  · -- the sign of the zero may change, but zeros are equal
    obtain ⟨s, hs⟩ := beq_zero_iff.1 (zero_mul_beq_zero (add_zero_beq_zero hzero hz) hy)
    obtain ⟨t, ht⟩ := beq_zero_iff.1 (zero_mul_beq_zero hzero hy)
    rw [beq_iff, hs, ht]
    rfl
  · rw [add_zero_eq hx hzero hz]
    exact mul_beq_self hx hy

end ShapeEstimator.Binary64
