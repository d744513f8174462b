/-
  ShapeEstimator.Text.Positional
  ────────────────────────────────
  **PLAIN DECIMAL NOTATION.**

  Numbers are written positionally, without an exponent: a coefficient whose
  last `places` digits stand behind the point.

      fixedPoint 250 2  =  "2.50"
      fixedPoint 5 3    =  "0.005"
-/
import ShapeEstimator.Power

namespace ShapeEstimator.Text

/-! ## §1. Digits. -/

/-- The decimal digits of `n`, most significant first. -/
def digits (n : Nat) : List Char := Nat.toDigits 10 n

/-- The digits of `n`, with zeros in front up to the given width. -/
def paddedDigits (width n : Nat) : List Char :=
  List.replicate (width - (digits n).length) '0' ++ digits n

/-! ## §2. The point. -/

/-- The number `coefficient · 10 ^ (-places)`, with exactly `places` digits behind the point and
at least one before it. -/
def fixedPoint (coefficient places : Nat) : List Char :=
  if places = 0 then digits coefficient
  else
    let ds := paddedDigits (places + 1) coefficient
    ds.take (ds.length - places) ++ '.' :: ds.drop (ds.length - places)

/-- The number `coefficient · 10 ^ exponent` without trailing zeros of its own making. -/
def positional (coefficient : Nat) (exponent : Int) : List Char :=
  fixedPoint (coefficient * 10 ^ exponent.toNat) (-exponent).toNat

/-- Text with a minus sign in front where `negative` asks for it. -/
def signed (negative : Bool) (text : List Char) : List Char :=
  if negative then '-' :: text else text

end ShapeEstimator.Text
