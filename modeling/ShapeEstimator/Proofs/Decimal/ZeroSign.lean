/-
  ShapeEstimator.Proofs.Decimal.ZeroSign
  ────────────────────────────────
  **ZEROS THAT DIFFER IN THEIR SIGN.**

  A zero may carry a minus sign.  Two decimals with the same digits and the same scale differ in
  such a sign at most where

      x.clean = y.clean

  Comparisons do not see the difference, minima, maxima and whole parts hand it on, and the doubles
  of both zeros are zeros.
-/
import ShapeEstimator.Proofs.Decimal.Double

namespace ShapeEstimator

/-! ## §1. Decimals. -/

namespace Decimal

variable {x y : Decimal}

/-- Numbers that are the same but for the sign of a zero. -/
theorem eq_or_neg_of_clean (h : x.clean = y.clean) : x = y ∨ x.isZero = true ∧ y = x.neg := by
  obtain ⟨n, c, s, hc, hs⟩ := x
  obtain ⟨n', c', s', hc', hs'⟩ := y
  unfold clean isZero at h
  unfold isZero neg
  dsimp only at *
  split at h <;> split at h
  · cases n <;> cases n' <;> simp_all
  · simp_all
  · simp_all
  · exact Or.inl h

@[simp] theorem isZero_neg (x : Decimal) : x.neg.isZero = x.isZero := rfl

@[simp] theorem abs_neg (x : Decimal) : x.neg.abs = x.abs := rfl

@[simp] theorem hasFraction_neg (x : Decimal) : x.neg.hasFraction = x.hasFraction := rfl

theorem clean_of_isZero (h : x.isZero = true) : x.clean = x.abs := if_pos h

theorem clean_neg_of_isZero (h : x.isZero = true) : x.neg.clean = x.clean := by
  rw [clean_of_isZero h, clean_of_isZero (x := x.neg) h, abs_neg]

theorem clean_neg_congr (h : x.clean = y.clean) : x.neg.clean = y.neg.clean := by
  rcases eq_or_neg_of_clean h with rfl | ⟨hx, rfl⟩
  · rfl
  · exact (clean_neg_of_isZero (x := x.neg) hx).symm

/-- A zero is zero in every unit. -/
theorem unitsAt_of_isZero (h : x.isZero = true) (places : ℕ) : x.unitsAt places = 0 := by
  have hc : x.coefficient = 0 := by simpa [isZero] using h
  simp [unitsAt, hc]

theorem unitsAt_neg_of_isZero (h : x.isZero = true) (places : ℕ) :
    x.neg.unitsAt places = x.unitsAt places := by
  rw [unitsAt_of_isZero h, unitsAt_of_isZero (x := x.neg) h]

theorem scale_congr (h : x.clean = y.clean) : x.scale = y.scale := by
  rcases eq_or_neg_of_clean h with rfl | ⟨-, rfl⟩ <;> rfl

theorem unitsAt_congr (h : x.clean = y.clean) (places : ℕ) : x.unitsAt places = y.unitsAt places := by
  rcases eq_or_neg_of_clean h with rfl | ⟨hx, rfl⟩
  · rfl
  · exact (unitsAt_neg_of_isZero hx places).symm

section Congr

variable {x' y' : Decimal} (hx : x.clean = x'.clean) (hy : y.clean = y'.clean)

include hx hy

theorem lt_congr : x.lt y = x'.lt y' := by
  unfold lt
  rw [scale_congr hx, scale_congr hy, unitsAt_congr hx, unitsAt_congr hy]

theorem clean_min_congr : (x.min y).clean = (x'.min y').clean := by
  unfold min
  rw [lt_congr hy hx]
  split
  · exact hy
  · exact hx

theorem clean_max_congr : (x.max y).clean = (x'.max y').clean := by
  unfold max
  rw [lt_congr hx hy]
  split
  · exact hy
  · exact hx

end Congr

/-- A step that does not look at the sign of zeros, taken along a list. -/
theorem clean_foldl_congr {f : Decimal → Decimal → Decimal}
    (hf : ∀ {x y x' y' : Decimal}, x.clean = x'.clean → y.clean = y'.clean →
      (f x y).clean = (f x' y').clean)
    {xs xs' : List Decimal} (hxs : xs.map clean = xs'.map clean) {x x' : Decimal}
    (h : x.clean = x'.clean) : (xs.foldl f x).clean = (xs'.foldl f x').clean := by
  induction xs generalizing xs' x x' with
  | nil =>
    cases xs' with
    | nil => exact h
    | cons y' ys' => exact nomatch hxs
  | cons y ys ih =>
    cases xs' with
    | nil => exact nomatch hxs
    | cons y' ys' =>
      obtain ⟨hy, hys⟩ := List.cons.inj hxs
      exact ih hys (hf h hy)

/-! Whole parts keep the sign of a zero, and this is all that they do with it. -/

theorem clean_trunc_neg (h : x.isZero = true) : x.neg.trunc.clean = x.trunc.clean := by
  have hc : x.coefficient = 0 := by simpa [isZero] using h
  have htrunc : x.trunc.isZero = true := by simp [trunc, isZero, hc]
  exact clean_neg_of_isZero htrunc

theorem hasFraction_of_isZero (h : x.isZero = true) : x.hasFraction = false := by
  have hc : x.coefficient = 0 := by simpa [isZero] using h
  simp [hasFraction, hc]

theorem clean_floor_neg (h : x.isZero = true) : x.neg.floor.clean = x.floor.clean := by
  unfold floor
  simp only [hasFraction_neg, hasFraction_of_isZero h, Bool.and_false, Bool.false_eq_true, if_false,
    show x.neg.scale = x.scale from rfl]
  split
  · exact clean_neg_of_isZero h
  · exact clean_trunc_neg h

theorem clean_ceil_neg (h : x.isZero = true) : x.neg.ceil.clean = x.ceil.clean := by
  unfold ceil
  simp only [hasFraction_neg, hasFraction_of_isZero h, Bool.and_false, Bool.false_eq_true, if_false,
    show x.neg.scale = x.scale from rfl]
  split
  · exact clean_neg_of_isZero h
  · exact clean_trunc_neg h

theorem clean_round_neg (h : x.isZero = true) : x.neg.round.clean = x.round.clean := by
  unfold round
  simp only [isZero_neg, h, if_true, show x.neg.scale = x.scale from rfl]
  split
  · exact clean_neg_of_isZero h
  · exact clean_trunc_neg h

end Decimal

/-! ## §2. Doubles. -/

namespace Binary64

/-- The zero with the given sign. -/
def zeroOf (negative : Bool) : Float := Magnitude.zero.toFloat negative

/-- Whether a double is a zero of either sign. -/
def IsZero (x : Float) : Prop := ∃ negative, x = zeroOf negative

theorem isZero_zeroOf (negative : Bool) : IsZero (zeroOf negative) := ⟨negative, rfl⟩

theorem isFinite_zeroOf (negative : Bool) : (zeroOf negative).isFinite = true := by
  cases negative <;> decide +kernel

theorem not_pos_zeroOf (negative : Bool) : ¬ 0 < zeroOf negative := by
  cases negative <;> decide +kernel

/-- A zero has the same sign as a decimal. -/
theorem lift?_zeroOf (negative : Bool) :
    Decimal.lift? (zeroOf negative)
      = some { negative, coefficient := 0, scale := 0, scale_le := Decimal.zero_le_maxScale } := by
  cases negative <;> decide +kernel

end Binary64

namespace Decimal

open Binary64 (IsZero zeroOf)

variable {x : Decimal}

theorem lowerMagnitude_zero (s : ℕ) : lowerMagnitude 0 s = .zero := by
  simp [lowerMagnitude, Binary64.Magnitude.ofNat, Binary64.Magnitude.ofQuotient,
    Binary64.Magnitude.div, Binary64.Magnitude.numerator, Binary64.Magnitude.zero]

/-- The double of a zero is a zero. -/
theorem isZero_lower (h : x.isZero = true) : IsZero x.lower := by
  have hc : x.coefficient = 0 := by simpa [isZero] using h
  unfold lower
  rw [hc, lowerMagnitude_zero]
  exact Binary64.isZero_zeroOf _

end Decimal

end ShapeEstimator
