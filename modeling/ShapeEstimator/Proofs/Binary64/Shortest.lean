/-
  ShapeEstimator.Proofs.Binary64.Shortest
  ────────────────────────────────
  **THE SHORTEST DIGITS READ BACK.**

  The search for the fewest digits accepts a candidate only if it is read as the double
  it was made for, and falls back on all digits of the double.  Either way,

      ofDecimal (shortestDigits m)  =  m

  and what is done to the digits afterwards leaves their value alone: trailing zeros
  move into the exponent, and back when the number is written out.
-/
import ShapeEstimator.Binary64.Shortest
import ShapeEstimator.Json.Value
import ShapeEstimator.Proofs.Binary64.Nearest

namespace ShapeEstimator

namespace Binary64

/-! ## §1. Values of digits. -/

/-- The value of decimal digits. -/
def DecimalDigits.value (d : DecimalDigits) : ℚ := Magnitude.decimalValue d.digits d.exponent

theorem DecimalDigits.value_stripZeros (limit : ℕ) (d : DecimalDigits) :
    (d.stripZeros limit).value = d.value := by
  induction limit generalizing d with
  | zero => rfl
  | succ limit ih =>
    unfold stripZeros
    split
    · rename_i hzero
      rw [ih]
      -- ten times the digits without the last, which is a zero
      have hdigits : d.digits = d.digits / 10 * 10 ^ 1 := by omega
      show Magnitude.decimalValue (d.digits / 10) (d.exponent + 1) = Magnitude.decimalValue _ _
      rw [hdigits, Magnitude.decimalValue_shift]
      simp
    · rfl

namespace Magnitude

variable {m : Magnitude}

/-! ## §2. The search. -/

theorem nearest_of_digitsOnGrid? (h : m.Canonical) {e : ℤ} {d : DecimalDigits}
    (hd : m.digitsOnGrid? e = some d) : nearest d.value = m := by
  -- whichever neighbour is taken was tried, and read back
  suffices hread : ofDecimal d.digits d.exponent = m from (ofDecimal_eq_iff h _ _).1 hread
  unfold digitsOnGrid? at hd
  dsimp only at hd
  split at hd
  · rename_i hbelow habove
    split at hd
    · cases hd
      exact of_decide_eq_true hbelow
    · cases hd
      exact of_decide_eq_true habove
  · rename_i hbelow _
    cases hd
    exact of_decide_eq_true hbelow
  · rename_i _ habove
    cases hd
    exact of_decide_eq_true habove
  · exact nomatch hd

theorem value_exactDigits (m : Magnitude) : m.exactDigits.value = m.value := by
  unfold exactDigits DecimalDigits.value decimalValue value
  dsimp only
  push_cast
  rcases le_or_gt 0 m.exponent with hsign | hsign
  · obtain ⟨n, hn⟩ := Int.eq_ofNat_of_zero_le hsign
    rw [hn, Int.toNat_natCast, show (-(n : ℤ)).toNat = 0 by omega, min_eq_right (by omega)]
    simp
  · obtain ⟨n, hn⟩ : ∃ n : ℕ, m.exponent = -(n : ℤ) := ⟨(-m.exponent).toNat, by omega⟩
    rw [hn, show (-(n : ℤ)).toNat = 0 by omega, neg_neg, Int.toNat_natCast,
      min_eq_left (by omega), zpow_neg, zpow_neg, zpow_natCast, zpow_natCast]
    -- a half is five tenths
    rw [show (10 : ℚ) ^ n = 2 ^ n * 5 ^ n by rw [← mul_pow]; norm_num]
    field_simp

/-- **The shortest digits of a double are read as the double.** -/
theorem nearest_shortestDigits (h : m.Canonical) : nearest m.shortestDigits.value = m := by
  unfold shortestDigits
  by_cases hzero : m.significand = 0
  · rw [if_pos hzero]
    have hvalue : m.value = 0 := by
      unfold value
      rw [hzero, Nat.cast_zero, zero_mul]
    have hdigits : (⟨0, 0⟩ : DecimalDigits).value = 0 := by
      unfold DecimalDigits.value decimalValue
      simp
    rw [hdigits, ← hvalue, h.nearest_value]
  · rw [if_neg hzero]
    dsimp only
    split
    · rename_i d hd
      obtain ⟨n, _, hgrid⟩ := List.exists_of_findSome?_eq_some hd
      rw [DecimalDigits.value_stripZeros]
      exact nearest_of_digitsOnGrid? h hgrid
    · rw [value_exactDigits, h.nearest_value]

end Magnitude

end Binary64

/-! ## §3. Numbers as they are written. -/

open Binary64 (Magnitude magnitude?)

namespace JsonNumber

/-- The value of a number without its sign. -/
def value (n : JsonNumber) : ℚ := Magnitude.decimalValue n.coefficient n.exponent

theorem negative_ofMagnitude (negative : Bool) (m : Magnitude) :
    (ofMagnitude negative m).negative = negative := by
  unfold ofMagnitude
  dsimp only
  split
  · rfl
  · split <;> rfl

theorem whole_ofMagnitude (negative : Bool) (m : Magnitude) :
    (ofMagnitude negative m).whole = false := by
  unfold ofMagnitude
  dsimp only
  split
  · rfl
  · split <;> rfl

theorem value_ofMagnitude (negative : Bool) (m : Magnitude) :
    (ofMagnitude negative m).value = m.shortestDigits.value := by
  unfold ofMagnitude
  dsimp only
  split
  · rfl
  · rename_i hsign
    split
    · -- the exponent is written out, and one place is put behind the point
      show Magnitude.decimalValue _ (-1) = Magnitude.decimalValue _ _
      rw [Magnitude.decimalValue_shift]
      congr 1
      omega
    · rfl

theorem toFloat?_ofMagnitude {x : Float} {m : Magnitude} (h : magnitude? x = some m) :
    (ofMagnitude (Binary64.signBit x) m).toFloat? = some x := by
  have hcanonical := Binary64.canonical_of_magnitude? h
  have hread : Magnitude.ofDecimal (ofMagnitude (Binary64.signBit x) m).coefficient
      (ofMagnitude (Binary64.signBit x) m).exponent = m := by
    rw [Magnitude.ofDecimal_eq_iff hcanonical]
    show Magnitude.nearest (ofMagnitude (Binary64.signBit x) m).value = m
    rw [value_ofMagnitude, Magnitude.nearest_shortestDigits hcanonical]
  unfold toFloat? Binary64.ofDecimal
  rw [hread, negative_ofMagnitude, Binary64.toFloat_magnitude? h,
    if_pos (Binary64.isFinite_of_magnitude? h)]

theorem isFinite_of_toFloat? {n : JsonNumber} {x : Float} (h : n.toFloat? = some x) :
    x.isFinite = true := by
  unfold toFloat? at h
  dsimp only at h
  split at h
  · rename_i hfinite
    cases h
    exact hfinite
  · exact nomatch h

end JsonNumber

end ShapeEstimator
