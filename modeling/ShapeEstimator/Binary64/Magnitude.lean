/-
  ShapeEstimator.Binary64.Magnitude
  ────────────────────────────────
  **DOUBLES AS EXACT BINARY FRACTIONS.**

  A finite non-negative double is a significand times a power of two.  Here the
  doubles are taken apart and put together exactly, so that what is read from
  text, printed to text, or exchanged with decimals is stated about naturals:

      ofQuotient a b   — the double nearest to a / b, a tie to the even significand
      ofFloat? x       — the magnitude of a finite double
      toFloat          — the double with a sign and a magnitude

  Every magnitude made here is CANONICAL: the significand has 53 bits, or the
  exponent is the least one.  So equal doubles have equal magnitudes.
-/
import ShapeEstimator.Rounding

namespace ShapeEstimator.Binary64

/-! ## §1. Magnitudes. -/

/-- The number `significand · 2 ^ exponent`. -/
structure Magnitude where
  /-- The integer significand. -/
  significand : Nat
  /-- The power of two it is scaled by. -/
  exponent : Int
  deriving DecidableEq, Repr

/-- The exponent of the smallest doubles. -/
def leastExponent : Int := -1074

namespace Magnitude

/-- Zero. -/
def zero : Magnitude := ⟨0, leastExponent⟩

/-- The numerator of the magnitude as a quotient of naturals. -/
def numerator (x : Magnitude) : Nat := x.significand * 2 ^ x.exponent.toNat

/-- The denominator of the magnitude as a quotient of naturals. -/
def denominator (x : Magnitude) : Nat := 2 ^ (-x.exponent).toNat

/-- A significand of 54 bits that came from rounding up is halved. -/
def canonical (significand : Nat) (exponent : Int) : Magnitude :=
  if significand = 2 ^ 53 then ⟨2 ^ 52, exponent + 1⟩ else ⟨significand, exponent⟩

/-! ## §2. Rounding to 53 bits. -/

/-- The greatest `k` with `2 ^ k ≤ a / b`, for positive `a` and `b`. -/
def floorLog2 (a b : Nat) : Int :=
  let k : Int := (a.log2 : Int) - b.log2
  if b * 2 ^ k.toNat ≤ a * 2 ^ (-k).toNat then k else k - 1

/-- The quotient `a / b` rounded to 53 significant bits, a tie to the even significand.  There is
no upper limit here: `toFloat` gives infinity where the exponent is out of range. -/
def ofQuotient (a b : Nat) : Magnitude :=
  if a = 0 ∨ b = 0 then zero
  else
    let e := max (floorLog2 a b - 52) leastExponent
    canonical (nearestEven (a * 2 ^ (-e).toNat) (b * 2 ^ e.toNat)) e

/-- The natural number `n` rounded to 53 significant bits. -/
def ofNat (n : Nat) : Magnitude := ofQuotient n 1

/-! ## §3. Arithmetic: the exact result, rounded once. -/

/-- The rounded sum. -/
def add (x y : Magnitude) : Magnitude :=
  ofQuotient (x.numerator * y.denominator + y.numerator * x.denominator)
    (x.denominator * y.denominator)

/-- The rounded product. -/
def mul (x y : Magnitude) : Magnitude :=
  ofQuotient (x.numerator * y.numerator) (x.denominator * y.denominator)

/-- The rounded quotient. -/
def div (x y : Magnitude) : Magnitude :=
  ofQuotient (x.numerator * y.denominator) (x.denominator * y.numerator)

/-- The nearest integer, a half going up. -/
def roundToNat (x : Magnitude) : Nat := nearestUp x.numerator x.denominator

/-! ## §4. Bits. -/

/-- The double with the given sign and canonical magnitude. -/
def toFloat (negative : Bool) (x : Magnitude) : Float :=
  let biased := x.exponent + 1075
  let magnitude :=
    if x.significand < 2 ^ 52 then x.significand
    else if 2047 ≤ biased then 2047 * 2 ^ 52
    else biased.toNat * 2 ^ 52 + (x.significand - 2 ^ 52)
  Float.ofBits (UInt64.ofNat (magnitude + if negative then 2 ^ 63 else 0))

end Magnitude

/-- Whether the sign bit of a double is set. -/
def signBit (x : Float) : Bool := 2 ^ 63 ≤ x.toBits.toNat

/-- The magnitude of a finite double, and nothing for an infinity or NaN. -/
def magnitude? (x : Float) : Option Magnitude :=
  let bits : Nat := x.toBits.toNat % 2 ^ 63
  let biased : Nat := bits / 2 ^ 52
  let fraction : Nat := bits % 2 ^ 52
  if biased = 2047 then none
  else if biased = 0 then some ⟨fraction, leastExponent⟩
  else some ⟨2 ^ 52 + fraction, (biased : Int) - 1075⟩

/-! ## §5. Decimal numbers. -/

/-- The magnitude nearest to `coefficient · 10 ^ exponent`.  Exponents far outside the range of
doubles are answered without computing the power. -/
def Magnitude.ofDecimal (coefficient : Nat) (exponent : Int) : Magnitude :=
  if coefficient = 0 then .zero
  else if 310 < exponent then ⟨2 ^ 52, 972⟩
  else if exponent + ((coefficient.log2 / 3 : Nat) : Int) + 1 < -330 then .zero
  else .ofQuotient (coefficient * 10 ^ exponent.toNat) (10 ^ (-exponent).toNat)

/-- The double nearest to `± coefficient · 10 ^ exponent`: infinite when it is too big for a
double, and a zero of that sign when it is too small. -/
def ofDecimal (negative : Bool) (coefficient : Nat) (exponent : Int) : Float :=
  (Magnitude.ofDecimal coefficient exponent).toFloat negative

end ShapeEstimator.Binary64
