/-
  ShapeEstimator.Proofs.Binary64.Order
  ────────────────────────────────
  **OPERATIONS ON DOUBLES KEEP THEIR ORDER.**

  What an operation yields is the double that the exact result is rounded to, and rounding
  is monotone.  So are then the operations, as far as they yield numbers:

      x ≤ y  →  x - z ≤ y - z,   z + x ≤ z + y,   x / z ≤ y / z  for  0 < z

  A negative divisor turns the order round.  Infinities are no exception: they stay where
  they are.
-/
import Mathlib.Order.Monotone.Odd
import ShapeEstimator.Proofs.Binary64.Extent

namespace ShapeEstimator.Binary64

open Float.Model (Format UnpackedFloat)
open Float.Model.UnpackedFloat (pack unpack roundWithAccuracy)

/-! ## §1. Rounding. -/

/-- The extent of the double that a number is rounded to. -/
def toDouble (q : ℚ) : ℚ :=
  if q < 0 then -min (Magnitude.nearest (-q)).value limit
  else min (Magnitude.nearest q).value limit

section

variable {u : UnpackedFloat} {q : ℚ}

theorem toDouble_zero : toDouble 0 = 0 := by
  have hzero : (Magnitude.nearest 0).value = 0 := Magnitude.value_nearest_zero
  unfold toDouble
  rw [if_neg (lt_irrefl 0), hzero, min_eq_left limit_pos.le]

theorem toDouble_of_nonneg (hq : 0 ≤ q) : toDouble q = min (Magnitude.nearest q).value limit :=
  if_neg (not_lt.2 hq)

theorem toDouble_neg (q : ℚ) : toDouble (-q) = -toDouble q := by
  rcases lt_trichotomy q 0 with h | rfl | h
  · rw [toDouble_of_nonneg (by linarith), toDouble, if_pos h, neg_neg]
  · rw [neg_zero, toDouble_zero, neg_zero]
  · rw [toDouble_of_nonneg h.le, toDouble, if_pos (by linarith), neg_neg]

/-- **Rounding to a double is monotone.** -/
theorem toDouble_mono : Monotone toDouble := by
  apply monotone_of_odd_of_monotoneOn_nonneg toDouble_neg
  intro p hp q hq h
  rw [toDouble_of_nonneg hp, toDouble_of_nonneg hq]
  exact min_le_min_right limit (Magnitude.value_nearest_mono hp h)

theorem toDouble_signedBy (s : UnpackedFloat.Sign) (q : ℚ) :
    toDouble (signedBy s q) = signedBy s (toDouble q) := by
  cases s
  · exact toDouble_neg q
  · rfl

theorem abs_toDouble_le (q : ℚ) : |toDouble q| ≤ limit := by
  have hmin : ∀ p, |min (Magnitude.nearest p).value limit| ≤ limit := by
    intro p
    rw [abs_of_nonneg (le_min (Magnitude.value_nonneg _) limit_pos.le)]
    exact min_le_right _ _
  unfold toDouble
  split
  · rw [abs_neg]
    exact hmin _
  · exact hmin _

/-- **A double is rounded to itself.** -/
theorem toDouble_unpackedExtent (hu : Packable u) (hfinite : u.isFinite = true) :
    toDouble (unpackedExtent u) = unpackedExtent u := by
  cases u with
  | notANumber | infinity s => exact nomatch hfinite
  | zero s => exact toDouble_zero
  | finite s m e hm =>
    show toDouble (signedBy s (Magnitude.value ⟨m, e⟩)) = signedBy s (Magnitude.value ⟨m, e⟩)
    rw [toDouble_signedBy, toDouble_of_nonneg (value_pos e hm).le, hu.nearest_value,
      min_eq_left hu.value_lt.le]

end

/-! ## §2. What operations yield. -/

variable {u v : UnpackedFloat}

/-- An operation yields a number with a given extent, once it is packed. -/
def Yields (u : UnpackedFloat) (q : ℚ) : Prop :=
  u.isNaN = false ∧ unpackedExtent (unpack .binary64 (pack .binary64 u)) = q

theorem yields_of_packable (hu : Packable u) (hnan : u.isNaN = false) :
    Yields u (unpackedExtent u) :=
  ⟨hnan, congrArg unpackedExtent (unpack_pack hu)⟩

theorem yields_self (hu : Packable u) (hfinite : u.isFinite = true) :
    Yields u (toDouble (unpackedExtent u)) := by
  have hnan : u.isNaN = false := by
    cases u with
    | notANumber | infinity s => exact nomatch hfinite
    | zero s | finite s m e hm => rfl
  rw [toDouble_unpackedExtent hu hfinite]
  exact yields_of_packable hu hnan

theorem yields_zero (s : UnpackedFloat.Sign) : Yields (.zero s) (toDouble 0) :=
  yields_self (u := .zero s) trivial rfl

/-- Beyond all doubles there are the infinities. -/
theorem yields_ofMagnitude (s : UnpackedFloat.Sign) {q : ℚ} (hq : 0 ≤ q) :
    Yields (ofMagnitude s (Magnitude.nearest q)) (toDouble (signedBy s q)) := by
  rw [toDouble_signedBy, toDouble_of_nonneg hq]
  unfold ofMagnitude
  by_cases hzero : (Magnitude.nearest q).significand = 0
  · rw [dif_pos hzero]
    have hvalue : (Magnitude.nearest q).value = 0 := by
      unfold Magnitude.value
      rw [hzero, Nat.cast_zero, zero_mul]
    refine ⟨rfl, ?_⟩
    rw [hvalue, min_eq_left limit_pos.le, signedBy_zero]
    cases s <;> rfl
  · rw [dif_neg hzero]
    refine ⟨rfl, ?_⟩
    rcases le_or_gt (Magnitude.nearest q).exponent 971 with hle | hgt
    · have hcanonical := Magnitude.canonical_nearest hq hle
      have hpackable : Packable (.finite s (Magnitude.nearest q).significand
          (Magnitude.nearest q).exponent (Nat.pos_of_ne_zero hzero)) := hcanonical
      rw [unpack_pack hpackable, min_eq_left hcanonical.value_lt.le]
      rfl
    · rw [pack_of_exponent_gt hgt, unpack_packedInfinity,
        min_eq_right (Magnitude.le_value_nearest hgt hq)]
      rfl

theorem yields_roundWithAccuracy {m : ℕ} {e : ℤ} {a : UnpackedFloat.Accuracy} {f : ℚ}
    (s : UnpackedFloat.Sign) (hf : Tells a f) (hlong : 2 ^ 52 ≤ m ∨ e ≤ leastExponent) :
    Yields (roundWithAccuracy .binary64 s m e a)
      (toDouble (signedBy s (((m : ℚ) + f) * 2 ^ e))) := by
  rw [roundWithAccuracy_eq s hf hlong]
  exact yields_ofMagnitude s
    (mul_nonneg (add_nonneg m.cast_nonneg hf.bounds.1) (by positivity))

theorem yields_normalize (m e : ℤ) (s : UnpackedFloat.Sign) :
    Yields (UnpackedFloat.normalize .binary64 m e s) (toDouble (m * 2 ^ e)) := by
  have hround : ∀ (t : UnpackedFloat.Sign) (n : ℕ), 0 < n →
      Yields (UnpackedFloat.round .binary64 t n e) (toDouble (signedBy t (n * 2 ^ e))) := by
    intro t n hn
    rw [round_eq e t hn]
    exact yields_ofMagnitude t (by positivity)
  unfold UnpackedFloat.normalize
  rcases lt_trichotomy m 0 with h | rfl | h
  · obtain ⟨n, rfl⟩ : ∃ n : ℕ, m = -(n : ℤ) := ⟨(-m).toNat, by omega⟩
    have hvalue : ((-(n : ℤ) : ℤ) : ℚ) * 2 ^ e = signedBy .negative (n * 2 ^ e) := by
      show ((-(n : ℤ) : ℤ) : ℚ) * 2 ^ e = -(n * 2 ^ e)
      push_cast
      ring
    rw [Int.compare_eq_lt.2 h, hvalue]
    show Yields (UnpackedFloat.round .binary64 .negative (-(-(n : ℤ))).toNat e) _
    rw [neg_neg, Int.toNat_natCast]
    exact hround .negative n (by omega)
  · rw [Int.compare_eq_eq.2 rfl, Int.cast_zero, zero_mul]
    exact yields_zero s
  · obtain ⟨n, rfl⟩ : ∃ n : ℕ, m = n := ⟨m.toNat, by omega⟩
    rw [Int.compare_eq_gt.2 h, Int.cast_natCast]
    show Yields (UnpackedFloat.round .binary64 .positive (n : ℤ).toNat e) _
    rw [Int.toNat_natCast]
    exact hround .positive n (by omega)

/-- To subtract is to add with the other sign. -/
theorem sub_eq_add_unpacked_neg (u v : UnpackedFloat) :
    UnpackedFloat.sub .binary64 u v = UnpackedFloat.add .binary64 u v.neg := by
  cases u with
  | notANumber => rfl
  | infinity s =>
    cases v with
    | notANumber | zero t | finite t n f hn => rfl
    | infinity t => cases s <;> cases t <;> rfl
  | zero s =>
    cases v with
    | notANumber | infinity t | finite t n f hn => rfl
    | zero t => cases s <;> cases t <;> rfl
  | finite s m e hm =>
    cases v with
    | notANumber | infinity t | zero t => rfl
    | finite t n f hn =>
      have happly : ∀ b : ℕ, (-t).apply b = -t.apply b := by
        intro b
        cases t
        · exact (neg_neg (b : ℤ)).symm
        · rfl
      show UnpackedFloat.normalize .binary64 (_ - t.apply _) _ _
        = UnpackedFloat.normalize .binary64 (_ + (-t).apply _) _ _
      rw [happly, ← sub_eq_add_neg]

section Operations

variable (hu : Packable u) (hv : Packable v) (hufinite : u.isFinite = true)
  (hvfinite : v.isFinite = true)

include hu hv hufinite hvfinite

/-- **A sum** yields the exact one, rounded. -/
theorem yields_add : Yields (UnpackedFloat.add .binary64 u v)
    (toDouble (unpackedExtent u + unpackedExtent v)) := by
  cases u with
  | notANumber | infinity s => exact nomatch hufinite
  | zero s =>
    cases v with
    | notANumber | infinity t => exact nomatch hvfinite
    | zero t =>
      rw [show unpackedExtent (.zero s) + unpackedExtent (.zero t) = 0 from add_zero 0]
      cases s <;> cases t <;> exact yields_zero _
    | finite t n f hn =>
      rw [show unpackedExtent (.zero s) = 0 from rfl, zero_add]
      exact yields_self hv rfl
  | finite s m e hm =>
    cases v with
    | notANumber | infinity t => exact nomatch hvfinite
    | zero t =>
      rw [show unpackedExtent (.zero t) = 0 from rfl, add_zero]
      exact yields_self hu rfl
    | finite t n f hn =>
      -- the significands are added as they are aligned
      have hsum : unpackedExtent (.finite s m e hm) + unpackedExtent (.finite t n f hn)
          = ((s.apply (UnpackedFloat.decreaseExponent m e (min e f)).1
              + t.apply (UnpackedFloat.decreaseExponent n f (min e f)).1 : ℤ) : ℚ)
            * 2 ^ min e f := by
        show signedBy s (Magnitude.value ⟨m, e⟩) + signedBy t (Magnitude.value ⟨n, f⟩) = _
        rw [signedBy_aligned s m (min_le_left e f), signedBy_aligned t n (min_le_right e f)]
        push_cast
        ring
      rw [hsum]
      exact yields_normalize _ _ .positive

/-- **A difference** yields the exact one, rounded. -/
theorem yields_sub : Yields (UnpackedFloat.sub .binary64 u v)
    (toDouble (unpackedExtent u - unpackedExtent v)) := by
  have hneg : Packable v.neg ∧ v.neg.isFinite = true
      ∧ unpackedExtent v.neg = -unpackedExtent v := by
    cases v with
    | notANumber | infinity t => exact nomatch hvfinite
    | zero t => exact ⟨trivial, rfl, neg_zero.symm⟩
    | finite t n f hn =>
      refine ⟨hv, rfl, ?_⟩
      cases t
      · exact (neg_neg _).symm
      · rfl
  obtain ⟨hpackable, hfinite, hextent⟩ := hneg
  rw [sub_eq_add_neg, ← hextent, sub_eq_add_unpacked_neg]
  exact yields_add hu hpackable hufinite hfinite

/-- **A product** yields the exact one, rounded. -/
theorem yields_mul : Yields (UnpackedFloat.mul .binary64 u v)
    (toDouble (unpackedExtent u * unpackedExtent v)) := by
  cases u with
  | notANumber | infinity s => exact nomatch hufinite
  | zero s =>
    rw [show unpackedExtent (.zero s) = 0 from rfl, zero_mul]
    cases v with
    | notANumber | infinity t => exact nomatch hvfinite
    | zero t | finite t n f hn => exact yields_zero (s * t)
  | finite s m e hm =>
    cases v with
    | notANumber | infinity t => exact nomatch hvfinite
    | zero t =>
      rw [show unpackedExtent (.zero t) = 0 from rfl, mul_zero]
      exact yields_zero (s * t)
    | finite t n f hn =>
      -- one long factor is enough, and without one the exponents are the least
      have hlong : 2 ^ 52 ≤ m * n ∨ e + f ≤ leastExponent := by
        by_cases hm' : 2 ^ 52 ≤ m
        · exact Or.inl (le_trans hm' (Nat.le_mul_of_pos_right m hn))
        · by_cases hn' : 2 ^ 52 ≤ n
          · exact Or.inl (le_trans hn' (Nat.le_mul_of_pos_left n hm))
          · have he : e = -1074 := hu.exponent_eq (not_le.1 hm')
            have hf : f = -1074 := hv.exponent_eq (not_le.1 hn')
            exact Or.inr (by rw [he, hf]; decide)
      have hsize : Magnitude.value ⟨m, e⟩ * Magnitude.value ⟨n, f⟩
          = (((m * n : ℕ) : ℚ) + 0) * 2 ^ (e + f) := by
        show (m : ℚ) * 2 ^ e * (n * 2 ^ f) = _
        rw [add_zero, zpow_add₀ two_ne_zero]
        push_cast
        ring
      show Yields _ (toDouble (signedBy s (Magnitude.value ⟨m, e⟩)
        * signedBy t (Magnitude.value ⟨n, f⟩)))
      rw [signedBy_mul, hsize]
      exact yields_roundWithAccuracy (s * t) (show Tells .exact 0 from rfl) hlong

end Operations

/-- **A quotient** yields the exact one, rounded. -/
theorem yields_div {n : ℕ} {f : ℤ} {hn : 0 < n} {t : UnpackedFloat.Sign} (hu : Packable u)
    (hufinite : u.isFinite = true) :
    Yields (UnpackedFloat.div .binary64 u (.finite t n f hn))
      (toDouble (signedBy t (unpackedExtent u / Magnitude.value ⟨n, f⟩))) := by
  cases u with
  | notANumber | infinity s => exact nomatch hufinite
  | zero s =>
    rw [show unpackedExtent (.zero s) = 0 from rfl, zero_div, signedBy_zero]
    exact yields_zero (s / t)
  | finite s m e hm =>
    obtain ⟨k, g, a, r, hcore, htells, hlong, hvalue⟩ := divCore_spec e f hm hn
    have hdiv : UnpackedFloat.div .binary64 (.finite s m e hm) (.finite t n f hn)
        = roundWithAccuracy .binary64 (s / t) k g a := by
      show roundWithAccuracy .binary64 (s / t) (UnpackedFloat.divCore .binary64 m e n f).1
        (UnpackedFloat.divCore .binary64 m e n f).2.1
        (UnpackedFloat.divCore .binary64 m e n f).2.2 = _
      rw [hcore]
    have hquotient : signedBy t (unpackedExtent (.finite s m e hm) / Magnitude.value ⟨n, f⟩)
        = signedBy (s / t) (((k : ℚ) + r) * 2 ^ g) := by
      rw [hvalue]
      show signedBy t (signedBy s (m * 2 ^ e) / (n * 2 ^ f)) = _
      rw [signedBy_div, signedBy_signedBy]
    rw [hdiv, hquotient]
    exact yields_roundWithAccuracy (s / t) htells hlong

/-! ## §3. Operations on doubles. -/

variable {x y z : Float}

/-- A function of values as it acts on extents: rounded on finite doubles, while infinities stay. -/
def extended (f : ℚ → ℚ) (q : ℚ) : ℚ := if |q| < limit then toDouble (f q) else q

theorem extended_mono {f : ℚ → ℚ} (hf : Monotone f) {p q : ℚ} (hp : |p| ≤ limit)
    (hq : |q| ≤ limit) (h : p ≤ q) : extended f p ≤ extended f q := by
  obtain ⟨hplow, hphigh⟩ := abs_le.1 hp
  obtain ⟨hqlow, hqhigh⟩ := abs_le.1 hq
  have hbounds : ∀ r, |r| ≤ limit → -limit ≤ extended f r ∧ extended f r ≤ limit := by
    intro r hr
    apply abs_le.1
    unfold extended
    split
    · exact abs_toDouble_le _
    · exact hr
  have hinfinite : ∀ r, |r| = limit → extended f r = r := fun r hr =>
    if_neg (not_lt.2 hr.ge)
  -- an infinity is beyond whatever the other side may be
  rcases eq_or_lt_of_le hplow with hp' | hplow
  · rw [hinfinite p (by rw [← hp', abs_neg, abs_of_pos limit_pos]), ← hp']
    exact (hbounds q hq).1
  · rcases eq_or_lt_of_le hqhigh with hq' | hqhigh
    · rw [hinfinite q (by rw [hq', abs_of_pos limit_pos]), hq']
      exact (hbounds p hp).2
    · unfold extended
      rw [if_pos (abs_lt.2 ⟨hplow, h.trans_lt hqhigh⟩),
        if_pos (abs_lt.2 ⟨hplow.trans_le h, hqhigh⟩)]
      exact toDouble_mono (hf h)

theorem extended_infinity (f : ℚ → ℚ) (s : UnpackedFloat.Sign) :
    extended f (signedBy s limit) = signedBy s limit := by
  unfold extended
  rw [abs_signedBy, abs_of_pos limit_pos, if_neg (lt_irrefl _)]

theorem extended_finite (f : ℚ → ℚ) (hx : x.isFinite = true) :
    extended f (extent x) = toDouble (f (extent x)) :=
  if_pos (abs_unpackedExtent_lt (packable x) hx)

/-- A number that is not finite is an infinity. -/
theorem exists_infinity (hnan : x.isNaN = false) (h : ¬ x.isFinite = true) :
    ∃ s, x.toModel.unpack = .infinity s ∧ extent x = signedBy s limit := by
  have hnan : x.toModel.unpack.isNaN = false := hnan
  have h : ¬ x.toModel.unpack.isFinite = true := h
  unfold extent
  cases hx : x.toModel.unpack with
  | notANumber =>
    rw [hx] at hnan
    exact nomatch hnan
  | infinity s => exact ⟨s, rfl, rfl⟩
  | zero s | finite s m e hm =>
    rw [hx] at h
    exact absurd rfl h

theorem of_yields {u : UnpackedFloat} {q : ℚ} (h : Yields u q)
    (hx : x = .ofModel (.pack u)) : x.isNaN = false ∧ extent x = q := by
  subst hx
  exact ⟨isNaN_unpack_pack h.1, h.2⟩

theorem of_infinity {s : UnpackedFloat.Sign} (hx : x = .ofModel (.pack (.infinity s))) :
    x.isNaN = false ∧ extent x = signedBy s limit :=
  of_yields (yields_of_packable (u := .infinity s) trivial rfl) hx

theorem extent_sub (hx : x.isFinite = true) (hy : y.isFinite = true) :
    (x - y).isNaN = false ∧ extent (x - y) = toDouble (extent x - extent y) :=
  of_yields (yields_sub (packable x) (packable y) hx hy) rfl

/-- A sum with a finite double, of any number. -/
theorem extent_add (hx : x.isFinite = true) (hy : y.isNaN = false) :
    (x + y).isNaN = false ∧ extent (x + y) = extended (extent x + ·) (extent y) := by
  by_cases hfinite : y.isFinite = true
  · rw [extended_finite _ hfinite]
    exact of_yields (yields_add (packable x) (packable y) hx hfinite) rfl
  · obtain ⟨s, hs, hextent⟩ := exists_infinity hy hfinite
    have hadd : UnpackedFloat.add .binary64 x.toModel.unpack y.toModel.unpack = .infinity s := by
      have hx : x.toModel.unpack.isFinite = true := hx
      rw [hs]
      cases hu : x.toModel.unpack with
      | notANumber | infinity t =>
        rw [hu] at hx
        exact nomatch hx
      | zero t | finite t n f hn => rfl
    rw [hextent, extended_infinity]
    exact of_infinity (congrArg (fun w => Float.ofModel (.pack w)) hadd)

/-- A quotient of any number by a finite double other than zero. -/
theorem extent_div {n : ℕ} {f : ℤ} {hn : 0 < n} {t : UnpackedFloat.Sign} (hx : x.isNaN = false)
    (hy : y.toModel.unpack = .finite t n f hn) :
    (x / y).isNaN = false
      ∧ extent (x / y) = signedBy t (extended (· / Magnitude.value ⟨n, f⟩) (extent x)) := by
  have hdiv : x / y
      = .ofModel (.pack (UnpackedFloat.div .binary64 x.toModel.unpack (.finite t n f hn))) := by
    rw [← hy]
    rfl
  by_cases hfinite : x.isFinite = true
  · rw [extended_finite _ hfinite, ← toDouble_signedBy]
    exact of_yields (yields_div (packable x) hfinite) hdiv
  · obtain ⟨s, hs, hextent⟩ := exists_infinity hx hfinite
    rw [hextent, extended_infinity, signedBy_signedBy]
    rw [hs] at hdiv
    exact of_infinity hdiv

theorem isNaN_of_pack (h : (Float.ofModel (.pack u)).isNaN = false) : u.isNaN = false := by
  cases u with
  | notANumber => exact absurd h (by decide)
  | infinity s | zero s | finite s m e hm => rfl

theorem mul_infinity {t : UnpackedFloat.Sign} (hnonneg : 0 ≤ unpackedExtent u)
    (h : (UnpackedFloat.mul .binary64 u (.infinity t)).isNaN = false) :
    UnpackedFloat.mul .binary64 u (.infinity t) = .infinity t := by
  have hone : ∀ s : UnpackedFloat.Sign, .positive * s = s := by
    intro s
    cases s <;> rfl
  cases u with
  | notANumber | zero s => exact nomatch h
  | infinity s =>
    cases s
    · exact absurd hnonneg (not_le.2 (neg_neg_of_pos limit_pos))
    · exact congrArg UnpackedFloat.infinity (hone t)
  | finite s m e hm =>
    cases s
    · exact absurd hnonneg (not_le.2 (neg_neg_of_pos (value_pos e hm)))
    · exact congrArg UnpackedFloat.infinity (hone t)

theorem isNaN_mul (h : (x * y).isNaN = false) : x.isNaN = false ∧ y.isNaN = false := by
  have h : (UnpackedFloat.mul .binary64 x.toModel.unpack y.toModel.unpack).isNaN = false :=
    isNaN_of_pack h
  show x.toModel.unpack.isNaN = false ∧ y.toModel.unpack.isNaN = false
  cases hx : x.toModel.unpack with
  | notANumber =>
    rw [hx] at h
    exact nomatch h
  | infinity s | zero s | finite s m e hm =>
    cases hy : y.toModel.unpack with
    | notANumber =>
      rw [hx, hy] at h
      exact nomatch h
    | infinity t | zero t | finite t n f hn => exact ⟨rfl, rfl⟩

/-- A product with a finite double that is not negative, where it is a number. -/
theorem extent_mul (hx : x.isFinite = true) (hnonneg : 0 ≤ extent x)
    (hnan : (x * y).isNaN = false) : extent (x * y) = extended (extent x * ·) (extent y) := by
  by_cases hfinite : y.isFinite = true
  · rw [extended_finite _ hfinite]
    exact (of_yields (yields_mul (packable x) (packable y) hx hfinite) rfl).2
  · obtain ⟨t, ht, hextent⟩ := exists_infinity (isNaN_mul hnan).2 hfinite
    have hmul : x * y
        = .ofModel (.pack (UnpackedFloat.mul .binary64 x.toModel.unpack (.infinity t))) := by
      rw [← ht]
      rfl
    rw [hmul] at hnan
    rw [mul_infinity hnonneg (isNaN_of_pack hnan)] at hmul
    rw [hextent, extended_infinity]
    exact (of_infinity hmul).2

theorem infinity_mul (h : (UnpackedFloat.mul .binary64 (.infinity .positive) v).isNaN = false) :
    ∃ t, unpackedSign? v = some t
      ∧ UnpackedFloat.mul .binary64 (.infinity .positive) v = .infinity t := by
  cases v with
  | notANumber | zero t => exact nomatch h
  | infinity t | finite t n f hn =>
    refine ⟨t, rfl, ?_⟩
    cases t <;> rfl

/-- The sign of a number is that of its extent. -/
theorem exists_unpackedExtent {s : UnpackedFloat.Sign} (h : unpackedSign? u = some s) :
    ∃ q, 0 < q ∧ unpackedExtent u = signedBy s q := by
  cases u with
  | notANumber | zero t => exact nomatch h
  | infinity t =>
    obtain rfl : t = s := Option.some.inj h
    exact ⟨limit, limit_pos, rfl⟩
  | finite t m e hm =>
    obtain rfl : t = s := Option.some.inj h
    exact ⟨_, value_pos e hm, rfl⟩

/-- A product with the positive infinity, where it is a number. -/
theorem extent_infinity_mul (hx : x.toModel.unpack = .infinity .positive)
    (hnan : (x * y).isNaN = false) :
    extent (x * y) = if 0 < extent y then limit else -limit := by
  have hmul : x * y
      = .ofModel (.pack (UnpackedFloat.mul .binary64 (.infinity .positive) y.toModel.unpack)) := by
    rw [← hx]
    rfl
  rw [hmul] at hnan
  obtain ⟨t, hsign, hinfinity⟩ := infinity_mul (isNaN_of_pack hnan)
  rw [hinfinity] at hmul
  obtain ⟨q, hq, hextent⟩ := exists_unpackedExtent hsign
  have hextent : extent y = signedBy t q := hextent
  rw [(of_infinity hmul).2, hextent]
  cases t
  · exact (if_neg (not_lt.2 (neg_neg_of_pos hq).le)).symm
  · exact (if_pos hq).symm

/-! ## §4. Order. -/

/-- **What is subtracted from keeps its order.** -/
theorem sub_mono (hx : x.isFinite = true) (hy : y.isFinite = true) (hz : z.isFinite = true)
    (h : x ≤ y) : x - z ≤ y - z := by
  obtain ⟨hxnan, hxz⟩ := extent_sub hx hz
  obtain ⟨hynan, hyz⟩ := extent_sub hy hz
  refine le_iff_extent.2 ⟨⟨hxnan, hynan⟩, ?_⟩
  rw [hxz, hyz]
  exact toDouble_mono (sub_le_sub_right (le_iff_extent.1 h).2 _)

/-- **What is added keeps its order.** -/
theorem add_mono (hz : z.isFinite = true) (h : x ≤ y) : z + x ≤ z + y := by
  obtain ⟨⟨hx, hy⟩, hle⟩ := le_iff_extent.1 h
  obtain ⟨hxnan, hzx⟩ := extent_add hz hx
  obtain ⟨hynan, hzy⟩ := extent_add hz hy
  refine le_iff_extent.2 ⟨⟨hxnan, hynan⟩, ?_⟩
  rw [hzx, hzy]
  exact extended_mono (fun _ _ h => add_le_add_right h _) (abs_extent_le x) (abs_extent_le y) hle

theorem unpack_of_sign? {s : UnpackedFloat.Sign} (hfinite : z.isFinite = true)
    (h : sign? z = some s) : ∃ n f hn, z.toModel.unpack = .finite s n f hn := by
  have hfinite : z.toModel.unpack.isFinite = true := hfinite
  have h : unpackedSign? z.toModel.unpack = some s := h
  cases hz : z.toModel.unpack with
  | notANumber | infinity t =>
    rw [hz] at hfinite
    exact nomatch hfinite
  | zero t =>
    rw [hz] at h
    exact nomatch h
  | finite t n f hn =>
    rw [hz] at h
    obtain rfl : t = s := Option.some.inj h
    exact ⟨n, f, hn, rfl⟩

/-- Quotients by one number are ordered as the dividends, up to the sign of the divisor. -/
theorem extended_div_le (h : x ≤ y) {n : ℕ} (f : ℤ) (hn : 0 < n) :
    extended (· / Magnitude.value ⟨n, f⟩) (extent x)
      ≤ extended (· / Magnitude.value ⟨n, f⟩) (extent y) :=
  extended_mono (fun _ _ h => div_le_div_of_nonneg_right h (value_pos f hn).le) (abs_extent_le x)
    (abs_extent_le y) (le_iff_extent.1 h).2

/-- **A quotient by a positive number keeps the order.** -/
theorem div_mono (hz : z.isFinite = true) (hpos : 0 < z) (h : x ≤ y) : x / z ≤ y / z := by
  obtain ⟨n, f, hn, hunpack⟩ := unpack_of_sign? hz (zero_lt_iff.1 hpos)
  obtain ⟨⟨hx, hy⟩, -⟩ := le_iff_extent.1 h
  obtain ⟨hxnan, hxz⟩ := extent_div hx hunpack
  obtain ⟨hynan, hyz⟩ := extent_div hy hunpack
  refine le_iff_extent.2 ⟨⟨hxnan, hynan⟩, ?_⟩
  rw [hxz, hyz]
  exact extended_div_le h f hn

/-- **A quotient by a negative number turns the order round.** -/
theorem div_anti (hz : z.isFinite = true) (hneg : z < 0) (h : x ≤ y) : y / z ≤ x / z := by
  obtain ⟨n, f, hn, hunpack⟩ := unpack_of_sign? hz (lt_zero_iff.1 hneg)
  obtain ⟨⟨hx, hy⟩, -⟩ := le_iff_extent.1 h
  obtain ⟨hxnan, hxz⟩ := extent_div hx hunpack
  obtain ⟨hynan, hyz⟩ := extent_div hy hunpack
  refine le_iff_extent.2 ⟨⟨hynan, hxnan⟩, ?_⟩
  rw [hxz, hyz]
  exact neg_le_neg (extended_div_le h f hn)

theorem extent_greater (hx : x.isNaN = false) (hy : y.isNaN = false) :
    (greater x y).isNaN = false ∧ extent (greater x y) = max (extent x) (extent y) := by
  unfold greater
  rw [hx, hy, if_neg Bool.false_ne_true, if_neg Bool.false_ne_true]
  by_cases hlt : x < y
  · rw [if_pos hlt]
    exact ⟨hy, (max_eq_right (lt_iff_extent.1 hlt).2.le).symm⟩
  · rw [if_neg hlt]
    have hle : extent y ≤ extent x := not_lt.1 fun h => hlt (lt_iff_extent.2 ⟨⟨hx, hy⟩, h⟩)
    by_cases hgt : y < x
    · rw [if_pos hgt]
      exact ⟨hx, (max_eq_left hle).symm⟩
    · -- zeros of either sign are the same extent
      rw [if_neg hgt]
      have hge : extent x ≤ extent y := not_lt.1 fun h => hgt (lt_iff_extent.2 ⟨⟨hy, hx⟩, h⟩)
      split
      · exact ⟨hy, (max_eq_right hge).symm⟩
      · exact ⟨hx, (max_eq_left hle).symm⟩

/-- **The greater of two doubles keeps the order.** -/
theorem greater_mono (hz : z.isNaN = false) (h : x ≤ y) : greater x z ≤ greater y z := by
  obtain ⟨⟨hx, hy⟩, hle⟩ := le_iff_extent.1 h
  obtain ⟨hxnan, hxz⟩ := extent_greater hx hz
  obtain ⟨hynan, hyz⟩ := extent_greater hy hz
  refine le_iff_extent.2 ⟨⟨hxnan, hynan⟩, ?_⟩
  rw [hxz, hyz]
  exact max_le_max_right _ hle

/-- **A product with a factor that is not negative keeps the order**, as far as it is a number. -/
theorem mul_mono (hz : 0 ≤ z) (h : x ≤ y) (hx : (z * x).isNaN = false)
    (hy : (z * y).isNaN = false) : z * x ≤ z * y := by
  obtain ⟨⟨-, hznan⟩, hnonneg⟩ := le_iff_extent.1 hz
  rw [extent_zero] at hnonneg
  obtain ⟨-, hle⟩ := le_iff_extent.1 h
  refine le_iff_extent.2 ⟨⟨hx, hy⟩, ?_⟩
  by_cases hfinite : z.isFinite = true
  · rw [extent_mul hfinite hnonneg hx, extent_mul hfinite hnonneg hy]
    exact extended_mono (fun _ _ h => mul_le_mul_of_nonneg_left h hnonneg) (abs_extent_le x)
      (abs_extent_le y) hle
  · obtain ⟨s, hs, hextent⟩ := exists_infinity hznan hfinite
    cases s
    · rw [hextent] at hnonneg
      exact absurd hnonneg (not_le.2 (neg_neg_of_pos limit_pos))
    · -- an infinite factor leaves of the other one its sign
      have hpos := limit_pos
      rw [extent_infinity_mul hs hx, extent_infinity_mul hs hy]
      split
      · rename_i hxpos
        rw [if_pos (hxpos.trans_le hle)]
      · split <;> linarith

end ShapeEstimator.Binary64
