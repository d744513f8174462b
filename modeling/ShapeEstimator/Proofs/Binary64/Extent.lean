/-
  ShapeEstimator.Proofs.Binary64.Extent
  ────────────────────────────────
  **DOUBLES ARE COMPARED BY THEIR EXTENTS.**

  A double that is unpacked comes back when it is packed and unpacked again.  Its extent
  is its exact value, and for an infinity the limit that all finite doubles stay below:

      x ≤ y  ↔  both are numbers, and extent x ≤ extent y
-/
import ShapeEstimator.Proofs.Binary64.Rounding
import ShapeEstimator.Proofs.Binary64.Sign

namespace ShapeEstimator.Binary64

open Float.Model (Format UnpackedFloat)
open Float.Model.UnpackedFloat (pack packComponents unpack unpackExponent unpackMantissa
  unpackSign)

/-! ## §1. Packing and unpacking. -/

/-- An unpacked double with the significand and the exponent of a double. -/
def Packable : UnpackedFloat → Prop
  | .finite _ m e _ => Magnitude.Canonical ⟨m, e⟩
  | _ => True

variable {u v : UnpackedFloat} {s : UnpackedFloat.Sign}

theorem Packable.canonical (h : Packable u) : Canonical u := by
  cases u with
  | notANumber | infinity s | zero s => trivial
  | finite s m e hm =>
    refine ⟨h.significand_lt, h.le_exponent, fun he => ?_⟩
    by_contra hshort
    have hleast : e = -1074 := h.exponent_eq (not_le.1 hshort)
    omega

theorem packable_unpack (b : BitVec Format.binary64.numBits) : Packable (unpack .binary64 b) := by
  have hcanonical := canonical_unpack b
  have hexponent : ∀ s m e hm, unpack .binary64 b = .finite s m e hm → e ≤ 971 := by
    intro s m e hm h
    have hfield : (unpackExponent b).toNat < 2 ^ 11 := (unpackExponent b).isLt
    have hbias : ((Format.binary64.exponentBias : ℕ) : ℤ) = 1023 := rfl
    have hwidth : ((Format.binary64.mantissaBitsWithoutImplicit : ℕ) : ℤ) = 52 := rfl
    unfold unpack at h
    dsimp only at h
    rw [hbias, hwidth] at h
    by_cases hones : unpackExponent b = -1#_
    · rw [if_pos hones] at h
      by_cases hfraction : unpackMantissa b = 0#_
      · rw [if_pos hfraction] at h
        cases h
      · rw [if_neg hfraction] at h
        cases h
    · rw [if_neg hones] at h
      have hne : (unpackExponent b).toNat ≠ 2047 := fun heq => hones (BitVec.toNat_inj.1 heq)
      by_cases hzero : unpackExponent b = 0#_
      · rw [if_pos hzero] at h
        have hnil : (unpackExponent b).toNat = 0 := by rw [hzero]; rfl
        by_cases hnil' : unpackMantissa b = 0#_
        · rw [dif_pos hnil'] at h
          cases h
        · rw [dif_neg hnil'] at h
          injection h
          omega
      · rw [if_neg hzero] at h
        injection h
        omega
  cases hu : unpack .binary64 b with
  | notANumber | infinity s | zero s => trivial
  | finite s m e hm =>
    rw [hu] at hcanonical
    obtain ⟨hlt, hle, hlong⟩ := hcanonical
    refine ⟨hlt, fun hshort => ?_, hle, hexponent s m e hm hu⟩
    by_contra hne
    exact absurd (hlong (lt_of_le_of_ne hle (Ne.symm hne))) (not_le.2 hshort)

theorem unpack_packedInfinity (s : UnpackedFloat.Sign) :
    unpack .binary64 (UnpackedFloat.packedInfinity .binary64 s) = .infinity s := by
  cases s <;> rfl

/-- Too great a number is packed as an infinity. -/
theorem pack_of_exponent_gt {m : ℕ} {e : ℤ} {hm : 0 < m} (h : 971 < e) :
    pack .binary64 (.finite s m e hm) = UnpackedFloat.packedInfinity .binary64 s := by
  unfold pack
  dsimp only
  have hbias : ((Format.binary64.exponentBias : ℕ) : ℤ) = 1023 := rfl
  have hwidth : ((Format.binary64.mantissaBitsWithoutImplicit : ℕ) : ℤ) = 52 := rfl
  rw [hbias, hwidth]
  exact if_pos (show 2 ^ 11 ≤ (e + 1023 + 52).toNat + 1 by omega)

section Components

variable {b : BitVec Format.binary64.numBits} {e : BitVec Format.binary64.exponentBits}
  {m : BitVec Format.binary64.mantissaBitsWithoutImplicit}

/-- The fields of a normal number are unpacked with a leading bit. -/
theorem unpack_normal (hsign : UnpackedFloat.Sign.ofBitVec (unpackSign b) = s)
    (hexponent : unpackExponent b = e) (hmantissa : unpackMantissa b = m) (hones : e ≠ -1#_)
    (hzero : e ≠ 0#_) (hm : 0 < (1#1 ++ m).toNat) :
    unpack .binary64 b = .finite s (1#1 ++ m).toNat (e.toNat - 1075) hm := by
  subst hsign hexponent hmantissa
  unfold unpack
  dsimp only
  rw [if_neg hones, if_neg hzero]
  rfl

/-- Those of a subnormal number without one, and with the least exponent. -/
theorem unpack_subnormal (hsign : UnpackedFloat.Sign.ofBitVec (unpackSign b) = s)
    (hexponent : unpackExponent b = 0#_) (hmantissa : unpackMantissa b = m) (hm : 0 < m.toNat) :
    unpack .binary64 b = .finite s m.toNat (-1074) hm := by
  have hne : m ≠ 0#_ := fun hnil => by
    rw [hnil] at hm
    exact absurd hm (by decide)
  subst hsign hmantissa
  unfold unpack
  dsimp only
  rw [if_neg (by rw [hexponent]; decide), if_pos hexponent, dif_neg hne, hexponent]
  rfl

end Components

/-- **A double comes back from packing as it went in.** -/
theorem unpack_pack (h : Packable u) : unpack .binary64 (pack .binary64 u) = u := by
  cases u with
  | notANumber => rfl
  | infinity s => exact unpack_packedInfinity s
  | zero s => cases s <;> rfl
  | finite s m e hm =>
    have hbits : m < 2 ^ 53 := h.significand_lt
    have hleast : -1074 ≤ e := h.le_exponent
    have hgreatest : e ≤ 971 := h.exponent_le
    have hpack : pack .binary64 (.finite s m e hm)
        = if m.log2 + 1 = 53 then
            packComponents .binary64 s (BitVec.ofNat 11 (e + 1075).toNat) (BitVec.ofNat 52 m)
          else packComponents .binary64 s 0#_ (BitVec.ofNat 52 m) := by
      have hbiased : (e + (Format.binary64.exponentBias : ℕ) + (52 : ℕ)).toNat
          = (e + 1075).toNat := by
        show (e + (1023 : ℕ) + (52 : ℕ)).toNat = (e + 1075).toNat
        omega
      unfold pack
      dsimp only
      rw [hbiased, if_neg (by omega)]
      rfl
    rw [hpack]
    by_cases hlong : 2 ^ 52 ≤ m
    · -- the leading bit is cleared, and comes back
      have hlog : m.log2 = 52 := by
        have hlow := (Nat.le_log2 hm.ne').2 hlong
        have hhigh := (Nat.log2_lt hm.ne').2 hbits
        omega
      have hfield : (BitVec.ofNat 11 (e + 1075).toNat).toNat = (e + 1075).toNat := by
        rw [BitVec.toNat_ofNat, Nat.mod_eq_of_lt (by omega)]
      have hones : BitVec.ofNat 11 (e + 1075).toNat ≠ -1#_ := fun heq => by
        have hnat : (e + 1075).toNat = 2047 := hfield.symm.trans (congrArg BitVec.toNat heq)
        omega
      have hzero : BitVec.ofNat 11 (e + 1075).toNat ≠ 0#_ := fun heq => by
        have hnat : (e + 1075).toNat = 0 := hfield.symm.trans (congrArg BitVec.toNat heq)
        omega
      have hleading : (1#1 ++ BitVec.ofNat 52 m).toNat = m := by
        have hsum : (1#1 ++ BitVec.ofNat 52 m).toNat = 2 ^ 52 + (BitVec.ofNat 52 m).toNat := by
          rw [BitVec.toNat_append, Nat.shiftLeft_eq]
          exact (Nat.two_pow_add_eq_or_of_lt (BitVec.ofNat 52 m).isLt 1).symm
        rw [hsum, BitVec.toNat_ofNat]
        omega
      rw [if_pos (by omega), unpack_normal (unpackSign_packComponents s _ _)
        UnpackedFloat.unpackExponent_packComponents UnpackedFloat.unpackMantissa_packComponents
        hones hzero (by rw [hleading]; exact hm)]
      congr 1
      rw [hfield]
      omega
    · have hlog : m.log2 < 52 := (Nat.log2_lt hm.ne').2 (not_le.1 hlong)
      have hfraction : (BitVec.ofNat 52 m).toNat = m := by
        rw [BitVec.toNat_ofNat, Nat.mod_eq_of_lt (not_le.1 hlong)]
      have hexponent : e = -1074 := h.exponent_eq (not_le.1 hlong)
      rw [if_neg (by omega), unpack_subnormal (unpackSign_packComponents s _ _)
        UnpackedFloat.unpackExponent_packComponents UnpackedFloat.unpackMantissa_packComponents
        (by rw [hfraction]; exact hm)]
      congr 1
      exact hexponent.symm

/-! ## §2. Extents. -/

/-- A number with a sign. -/
def signedBy : UnpackedFloat.Sign → ℚ → ℚ
  | .negative, q => -q
  | .positive, q => q

theorem abs_signedBy (s : UnpackedFloat.Sign) (q : ℚ) : |signedBy s q| = |q| := by
  cases s
  · exact abs_neg q
  · rfl

theorem signedBy_zero (s : UnpackedFloat.Sign) : signedBy s 0 = 0 := by
  cases s
  · exact neg_zero
  · rfl

/-- The sign of a quotient counts the sign of its divisor. -/
theorem signedBy_signedBy (s t : UnpackedFloat.Sign) (q : ℚ) :
    signedBy t (signedBy s q) = signedBy (s / t) q := by
  cases s <;> cases t
  · exact neg_neg q
  · rfl
  · rfl
  · rfl

theorem signedBy_div (s : UnpackedFloat.Sign) (p q : ℚ) :
    signedBy s p / q = signedBy s (p / q) := by
  cases s
  · exact neg_div q p
  · rfl

theorem signedBy_mul (s t : UnpackedFloat.Sign) (p q : ℚ) :
    signedBy s p * signedBy t q = signedBy (s * t) (p * q) := by
  cases s <;> cases t
  · exact neg_mul_neg p q
  · exact neg_mul p q
  · exact mul_neg p q
  · rfl

/-- The value of an unpacked double, the limit for an infinity. -/
def unpackedExtent : UnpackedFloat → ℚ
  | .notANumber | .zero _ => 0
  | .infinity s => signedBy s limit
  | .finite s m e _ => signedBy s (Magnitude.value ⟨m, e⟩)

theorem value_pos {m : ℕ} (e : ℤ) (hm : 0 < m) : 0 < Magnitude.value ⟨m, e⟩ := by
  have hmq : (0 : ℚ) < m := by exact_mod_cast hm
  exact mul_pos hmq (by positivity)

theorem abs_unpackedExtent_lt (hu : Packable u) (hfinite : u.isFinite = true) :
    |unpackedExtent u| < limit := by
  cases u with
  | notANumber | infinity s => exact nomatch hfinite
  | zero s => exact abs_zero.trans_lt limit_pos
  | finite s m e hm =>
    show |signedBy s (Magnitude.value ⟨m, e⟩)| < limit
    rw [abs_signedBy, abs_of_pos (value_pos e hm)]
    exact hu.value_lt

theorem abs_unpackedExtent_le (hu : Packable u) : |unpackedExtent u| ≤ limit := by
  cases u with
  | notANumber => exact abs_zero.trans_le limit_pos.le
  | infinity s =>
    show |signedBy s limit| ≤ limit
    rw [abs_signedBy, abs_of_pos limit_pos]
  | zero s => exact (abs_unpackedExtent_lt hu rfl).le
  | finite s m e hm => exact (abs_unpackedExtent_lt hu rfl).le

/-! ## §3. Comparison. -/

theorem compare_infinity (hv : Packable v) (hfinite : v.isFinite = true) :
    UnpackedFloat.compare (.infinity s) v = some (cmp (signedBy s limit) (unpackedExtent v)) := by
  obtain ⟨hlow, hhigh⟩ := abs_lt.1 (abs_unpackedExtent_lt hv hfinite)
  cases v with
  | notANumber | infinity t => exact nomatch hfinite
  | zero t | finite t n f hn =>
    cases s
    · exact congrArg some ((cmp_eq_lt_iff _ _).2 hlow).symm
    · exact congrArg some ((cmp_eq_gt_iff _ _).2 hhigh).symm

theorem compare_finite_zero {m : ℕ} {e : ℤ} {hm : 0 < m} (t : UnpackedFloat.Sign) :
    UnpackedFloat.compare (.finite s m e hm) (.zero t)
      = some (cmp (signedBy s (Magnitude.value ⟨m, e⟩)) 0) := by
  have hpos := value_pos e hm
  cases s
  · exact congrArg some ((cmp_eq_lt_iff _ _).2 (neg_neg_of_pos hpos)).symm
  · exact congrArg some ((cmp_eq_gt_iff _ _).2 hpos).symm

/-- A number with a sign, from its significand as it is aligned for a comparison. -/
theorem signedBy_aligned (s : UnpackedFloat.Sign) (m : ℕ) {e k : ℤ} (h : k ≤ e) :
    signedBy s (Magnitude.value ⟨m, e⟩)
      = (s.apply (UnpackedFloat.decreaseExponent m e k).1 : ℤ) * 2 ^ k := by
  obtain ⟨d, rfl⟩ : ∃ d : ℕ, e = k + d := ⟨(e - k).toNat, by omega⟩
  have hvalue : Magnitude.value ⟨m, k + d⟩ = ((m * 2 ^ d : ℕ) : ℚ) * 2 ^ k := by
    show (m : ℚ) * 2 ^ (k + d) = _
    rw [zpow_add₀ two_ne_zero, zpow_natCast]
    push_cast
    ring
  rw [decreaseExponent_fst m rfl, hvalue]
  cases s
  · show -(((m * 2 ^ d : ℕ) : ℚ) * 2 ^ k) = ((-((m * 2 ^ d : ℕ) : ℤ) : ℤ) : ℚ) * 2 ^ k
    push_cast
    ring
  · show ((m * 2 ^ d : ℕ) : ℚ) * 2 ^ k = (((m * 2 ^ d : ℕ) : ℤ) : ℚ) * 2 ^ k
    push_cast
    ring

theorem compare_finite_finite {m n : ℕ} {e f : ℤ} {hm : 0 < m} {hn : 0 < n}
    {t : UnpackedFloat.Sign} (hu : Packable (.finite s m e hm)) (hv : Packable (.finite t n f hn)) :
    UnpackedFloat.compare (.finite s m e hm) (.finite t n f hn)
      = some (cmp (signedBy s (Magnitude.value ⟨m, e⟩)) (signedBy t (Magnitude.value ⟨n, f⟩))) := by
  have hscale : (0 : ℚ) < 2 ^ min e f := by positivity
  rw [compare_finite hu.canonical hv.canonical, signedBy_aligned s m (min_le_left e f),
    signedBy_aligned t n (min_le_right e f)]
  generalize s.apply (UnpackedFloat.decreaseExponent m e (min e f)).1 = a
  generalize t.apply (UnpackedFloat.decreaseExponent n f (min e f)).1 = b
  congr 1
  rcases lt_trichotomy a b with h | rfl | h
  · rw [Int.compare_eq_lt.2 h, (cmp_eq_lt_iff _ _).2]
    exact mul_lt_mul_of_pos_right (by exact_mod_cast h) hscale
  · rw [Int.compare_eq_eq.2 rfl, (cmp_eq_eq_iff _ _).2 rfl]
  · rw [Int.compare_eq_gt.2 h, (cmp_eq_gt_iff _ _).2]
    exact mul_lt_mul_of_pos_right (by exact_mod_cast h) hscale

/-- What holds of a comparison holds of it the other way round. -/
theorem compare_comm {a b : ℚ} (h : u.compare v = some (cmp a b)) :
    v.compare u = some (cmp b a) := by
  rw [compare_swap, h]
  exact congrArg some (cmp_swap a b)

/-- **Numbers are compared by their extents.** -/
theorem compare_eq_cmp (hu : Packable u) (hv : Packable v) (hunan : u.isNaN = false)
    (hvnan : v.isNaN = false) :
    u.compare v = some (cmp (unpackedExtent u) (unpackedExtent v)) := by
  cases u with
  | notANumber => exact nomatch hunan
  | infinity s =>
    cases v with
    | notANumber => exact nomatch hvnan
    | infinity t =>
      have hpos := limit_pos
      cases s <;> cases t
      · exact congrArg some ((cmp_eq_eq_iff _ _).2 rfl).symm
      · exact congrArg some ((cmp_eq_lt_iff _ _).2 (by linarith : -limit < limit)).symm
      · exact congrArg some ((cmp_eq_gt_iff _ _).2 (by linarith : -limit < limit)).symm
      · exact congrArg some ((cmp_eq_eq_iff _ _).2 rfl).symm
    | zero t | finite t n f hn => exact compare_infinity hv rfl
  | zero s =>
    cases v with
    | notANumber => exact nomatch hvnan
    | infinity t => exact compare_comm (compare_infinity hu rfl)
    | zero t => exact congrArg some ((cmp_eq_eq_iff _ _).2 rfl).symm
    | finite t n f hn => exact compare_comm (compare_finite_zero s)
  | finite s m e hm =>
    cases v with
    | notANumber => exact nomatch hvnan
    | infinity t => exact compare_comm (compare_infinity hu rfl)
    | zero t => exact compare_finite_zero t
    | finite t n f hn => exact compare_finite_finite hu hv

/-! ## §4. Doubles. -/

variable {x y z : Float}

/-- The value of a double, the limit for an infinity. -/
def extent (x : Float) : ℚ := unpackedExtent x.toModel.unpack

theorem packable (x : Float) : Packable x.toModel.unpack := packable_unpack _

theorem abs_extent_le (x : Float) : |extent x| ≤ limit := abs_unpackedExtent_le (packable x)

theorem isNaN_of_isFinite (h : x.isFinite = true) : x.isNaN = false := by
  have h : x.toModel.unpack.isFinite = true := h
  show x.toModel.unpack.isNaN = false
  cases hx : x.toModel.unpack with
  | notANumber | infinity s =>
    rw [hx] at h
    exact nomatch h
  | zero s | finite s m e hm => rfl

/-- Only numbers are compared. -/
theorem compare_eq_none (h : ¬ (x.isNaN = false ∧ y.isNaN = false)) :
    x.toModel.unpack.compare y.toModel.unpack = none := by
  have h : ¬ (x.toModel.unpack.isNaN = false ∧ y.toModel.unpack.isNaN = false) := h
  cases hx : x.toModel.unpack with
  | notANumber => rfl
  | infinity s | zero s | finite s m e hm =>
    rw [hx] at h
    cases hy : y.toModel.unpack with
    | notANumber => rfl
    | infinity t | zero t | finite t n f hn =>
      rw [hy] at h
      exact absurd ⟨rfl, rfl⟩ h

theorem compare_eq (hx : x.isNaN = false) (hy : y.isNaN = false) :
    x.toModel.unpack.compare y.toModel.unpack = some (cmp (extent x) (extent y)) :=
  compare_eq_cmp (packable x) (packable y) hx hy

/-- **Doubles are compared by their extents.** -/
theorem le_iff_extent :
    x ≤ y ↔ (x.isNaN = false ∧ y.isNaN = false) ∧ extent x ≤ extent y := by
  rw [le_iff]
  by_cases h : x.isNaN = false ∧ y.isNaN = false
  · rw [compare_eq h.1 h.2, and_iff_right h]
    rcases lt_trichotomy (extent x) (extent y) with hlt | heq | hgt
    · rw [(cmp_eq_lt_iff _ _).2 hlt]
      exact iff_of_true rfl hlt.le
    · rw [(cmp_eq_eq_iff _ _).2 heq]
      exact iff_of_true rfl heq.le
    · rw [(cmp_eq_gt_iff _ _).2 hgt]
      exact iff_of_false Bool.false_ne_true (not_le.2 hgt)
  · rw [compare_eq_none h]
    exact iff_of_false Bool.false_ne_true fun hand => h hand.1

theorem lt_iff_extent :
    x < y ↔ (x.isNaN = false ∧ y.isNaN = false) ∧ extent x < extent y := by
  rw [lt_iff]
  by_cases h : x.isNaN = false ∧ y.isNaN = false
  · rw [compare_eq h.1 h.2, and_iff_right h, Option.some_inj, cmp_eq_lt_iff]
  · rw [compare_eq_none h]
    exact iff_of_false nofun fun hand => h hand.1

theorem beq_iff_extent :
    (x == y) = true ↔ (x.isNaN = false ∧ y.isNaN = false) ∧ extent x = extent y := by
  rw [beq_iff]
  by_cases h : x.isNaN = false ∧ y.isNaN = false
  · rw [compare_eq h.1 h.2, and_iff_right h, Option.some_inj, cmp_eq_eq_iff]
  · rw [compare_eq_none h]
    exact iff_of_false nofun fun hand => h hand.1

theorem extent_zero : extent 0 = 0 := by
  unfold extent
  rw [unpack_zero]
  rfl

/-- Two numbers that are each at most the other are equal. -/
theorem beq_of_le_of_le (hxy : x ≤ y) (hyx : y ≤ x) : (x == y) = true := by
  obtain ⟨hnan, hxy⟩ := le_iff_extent.1 hxy
  exact beq_iff_extent.2 ⟨hnan, le_antisymm hxy (le_iff_extent.1 hyx).2⟩

theorem le_of_beq (h : (x == y) = true) : x ≤ y := by
  obtain ⟨hnan, h⟩ := beq_iff_extent.1 h
  exact le_iff_extent.2 ⟨hnan, h.le⟩

end ShapeEstimator.Binary64
