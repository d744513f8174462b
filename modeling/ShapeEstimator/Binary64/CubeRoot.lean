/-
  ShapeEstimator.Binary64.CubeRoot
  ────────────────────────────────
  **THE CUBE ROOT OF A DOUBLE.**

  The result is the double nearest to the real cube root.  The significand is
  scaled by a power of eight until its root has 54 bits before the point, one
  more than a double holds; the integer root then shows which double is nearest:

      cubeRootFloor k n  =  the greatest c < 2^k with c³ ≤ n

  There are no ties.  A root halfway between two doubles is an odd number of 54
  bits, and its cube has too many bits for a double.
-/
import ShapeEstimator.Binary64.Magnitude

namespace ShapeEstimator.Binary64

/-! ## §1. Integer cube roots. -/

/-- Sets the bits of an integer cube root below the `k`-th, the highest first, wherever the cube
does not exceed `n`. -/
def cubeRootBits (n : Nat) : Nat → Nat → Nat
  | 0, c => c
  | k + 1, c => cubeRootBits n k (if (c + 2 ^ k) ^ 3 ≤ n then c + 2 ^ k else c)

/-- The integer part of the cube root of `n`, if it has at most `k` bits. -/
def cubeRootFloor (k n : Nat) : Nat := cubeRootBits n k 0

/-! ## §2. Doubles. -/

/-- The exponent that the integer root is taken at: with it the scaled significand has 160 to 162
bits. -/
def Magnitude.rootExponent (x : Magnitude) : Int :=
  (x.exponent + x.significand.log2 - 159) / 3

/-- The magnitude nearest to the cube root. -/
def Magnitude.cubeRoot (x : Magnitude) : Magnitude :=
  if x.significand = 0 then zero
  else
    let e := x.rootExponent
    let root := cubeRootFloor 54 (x.significand * 2 ^ (x.exponent - 3 * e).toNat)
    canonical ((root + 1) / 2) (e + 1)

/-- The double nearest to the cube root, with the sign of the number. -/
def cubeRoot (x : Float) : Float :=
  match magnitude? x with
  | some m => m.cubeRoot.toFloat (signBit x)
  | none => x

end ShapeEstimator.Binary64
