/-
  ShapeEstimator.Decimal.Double
  ────────────────────────────────
  **BETWEEN DOUBLES AND DECIMALS.**

  Parameters come as doubles, are lifted into decimal, and results are lowered
  back.  Neither way is a single rounding.

      lift?   — the double is a significand times a power of two.  The power of
                two is traded for powers of five and ten, digit losses being cut
                off; then digits below 2^52 are kept and trailing zeros dropped.
      lower   — whole part and fraction become doubles by themselves; their sum
                is rounded to as many places as the decimal has.
-/
import ShapeEstimator.Binary64.Magnitude
import ShapeEstimator.Decimal.Integral

namespace ShapeEstimator.Decimal

/-! ## §1. From double to decimal. -/

/-- The number `digits · 10 ^ exponent` while its digits are worked on. -/
structure Digits where
  /-- The digits. -/
  digits : Nat
  /-- The power of ten. -/
  exponent : Int

namespace Digits

/-- Trades `n` halvings of `x` for tenths and fivefold digits, cutting a digit off where there is
no room for a factor of five. -/
def halve : Nat → Digits → Digits
  | 0, x => x
  | n + 1, x =>
    if x.digits % 2 = 0 then halve n ⟨x.digits / 2, x.exponent + 1⟩
    else if 5 * x.digits < 2 ^ 96 then halve n ⟨5 * x.digits, x.exponent⟩
    else halve n ⟨x.digits / 2, x.exponent + 1⟩

/-- Trades `n` doublings of `x` for tens and fifths. -/
def double : Nat → Digits → Option Digits
  | 0, x => some x
  | n + 1, x =>
    if x.digits < 2 ^ 95 then double n ⟨2 * x.digits, x.exponent - 1⟩
    else if (n + 1 : Int) < 2 * x.exponent then none
    else double n ⟨x.digits / 5, x.exponent⟩

/-- Appends `n` zeros to the digits, if there is room. -/
def appendZeros : Nat → Nat → Option Nat
  | 0, m => some m
  | n + 1, m => if 10 * m < 2 ^ 96 then appendZeros n (10 * m) else none

/-- Drops `n` digits one by one, each rounding the next, a five going up; a number that vanishes
stays zero. -/
def dropOneByOne : Nat → Nat → Nat
  | 0, m => m
  | n + 1, m =>
    if m / 10 = 0 then 0
    else dropOneByOne n (m / 10 + if 5 ≤ m % 10 then 1 else 0)

/-- Drops digits behind the point, one by one, until the digits are below 2^52 or no place is left.
The result is the digits and the number of places. -/
def dropToPrecision : Nat → Nat → Nat × Nat
  | 0, m => (m, 0)
  | places + 1, m =>
    if 2 ^ 52 ≤ m then dropToPrecision places (m / 10 + if 5 ≤ m % 10 then 1 else 0)
    else (m, places + 1)

/-- The decimal with these digits and this sign. -/
def toDecimal? (negative : Bool) (x : Digits) : Option Decimal :=
  if 0 ≤ x.exponent then
    (appendZeros x.exponent.toNat x.digits).bind fun m => make? negative m 0
  else
    let places := (-x.exponent).toNat
    let m := dropOneByOne (places - maxScale) x.digits
    let kept := dropToPrecision (if m = 0 then 0 else Nat.min places maxScale) m
    let shortest := trimmed kept.1 kept.2
    make? negative shortest.1 shortest.2

end Digits

/-- The decimal for a double; nothing for a double that is not finite or too big. -/
def lift? (x : Float) : Option Decimal :=
  match Binary64.magnitude? x with
  | none => none
  | some m =>
    if m.significand = 0 then make? (Binary64.signBit x) 0 0
    else
      let start : Digits := ⟨m.significand, m.exponent⟩
      if 0 ≤ m.exponent then
        (start.double m.exponent.toNat).bind (·.toDecimal? (Binary64.signBit x))
      else (start.halve (-m.exponent).toNat).toDecimal? (Binary64.signBit x)

/-! ## §2. From decimal to double. -/

open Binary64 (Magnitude)

/-- The power `10 ^ n` in doubles, each square and product rounded. -/
def powerOfTen (n : Nat) : Magnitude :=
  go n (Magnitude.ofNat 1) (Magnitude.ofNat 10)
where
  go (n : Nat) (product power : Magnitude) : Magnitude :=
    let product := if n % 2 = 1 then product.mul power else product
    if _h : n / 2 = 0 then product else go (n / 2) product (power.mul power)
  termination_by n

/-- The magnitude of the double for a decimal. -/
def lowerMagnitude (coefficient scale : Nat) : Magnitude :=
  if scale = 0 then Magnitude.ofNat coefficient
  else
    let whole := Magnitude.ofNat (coefficient / 10 ^ scale)
    let fraction :=
      (Magnitude.ofNat (coefficient % 10 ^ scale)).div (Magnitude.ofNat (10 ^ scale))
    if fraction.significand = 0 then whole
    else
      let power := powerOfTen scale
      (Magnitude.ofNat ((whole.add fraction).mul power).roundToNat).div power

/-- The double for a decimal.  A zero without places is the positive one. -/
def lower (x : Decimal) : Float :=
  (lowerMagnitude x.coefficient x.scale).toFloat
    (x.negative && !(x.coefficient == 0 && x.scale == 0))

end ShapeEstimator.Decimal
