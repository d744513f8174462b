/-
  ShapeEstimator.Decimal.Angle
  ────────────────────────────────
  **SINE, COSINE AND TANGENT.**

  An angle is brought into the first eighth of a turn in stages, and the series
  is summed there.  Each stage knows the bound of its argument:

      sinEighth, cosEighth   0 ≤ x ≤ π/4
      cosQuarter             0 ≤ x ≤ π/2
      sinHalf, cosHalf       0 ≤ x < π
      sinTurn, cosTurn       0 ≤ x < 2π
      sin, cos               any x

  The tangent has a polynomial for `x ≤ π/8` and the double angle above it.
-/
import ShapeEstimator.Decimal.Power
import ShapeEstimator.Decimal.Remainder

namespace ShapeEstimator.Decimal

/-! ## §1. Series. -/

/-- The alternating series that starts with the term `first`, where the term at index `n` is the
one before it times `x²` over `divisor n`. -/
def alternatingSeries (x first : Wide) (divisor : Nat → Nat) : Option Decimal :=
  (x.mul x).bind fun square =>
    (Wide.sumSeries
      (fun n t => (t.mul square).map fun t =>
        let t := (t.divSmall (divisor n)).neg
        (t, t))
      50 0 first first).bind fun sum => sum.toDecimal?.map norm

/-- The sine of an angle up to π/4. -/
def sinEighth (x : Decimal) : Option Decimal :=
  if x.isZero then some zero
  else
    let x := Wide.ofDecimal x
    alternatingSeries x x fun n => (2 * n + 2) * (2 * n + 3)

/-- The cosine of an angle up to π/4. -/
def cosEighth (x : Decimal) : Option Decimal :=
  if x.isZero then some one
  else alternatingSeries (Wide.ofDecimal x) Wide.one fun n => (2 * n + 1) * (2 * n + 2)

/-! ## §2. Sine and cosine. -/

/-- The cosine of an angle up to π/2. -/
def cosQuarter (x : Decimal) : Option Decimal :=
  if eighthTurn.lt x then (quarterTurn.sub x).bind sinEighth else cosEighth x

/-- The sine of an angle below π. -/
def sinHalf (x : Decimal) : Option Decimal :=
  if eighthTurn.lt x then (quarterTurn.sub x).bind fun y => cosQuarter y.abs else sinEighth x

/-- The cosine of an angle below π. -/
def cosHalf (x : Decimal) : Option Decimal :=
  if eighthTurn.lt x then
    (quarterTurn.sub x).bind fun y =>
      if y.isZero then some zero
      else if y.negative then (sinHalf y.neg).map neg
      else sinHalf y
  else cosEighth x

/-- The sine of an angle of less than a full turn. -/
def sinTurn (x : Decimal) : Option Decimal :=
  if pi.le x then (x.sub pi).bind fun y => (sinHalf y).map neg else sinHalf x

/-- The cosine of an angle of less than a full turn. -/
def cosTurn (x : Decimal) : Option Decimal :=
  if pi.le x then (x.sub pi).bind fun y => (cosHalf y).map neg else cosHalf x

/-- An angle that is not negative, without its full turns. -/
def withoutTurns (x : Decimal) : Option Decimal :=
  if fullTurn.le x then x.rem fullTurn else some x

/-- The sine. -/
def sin (x : Decimal) : Option Decimal :=
  if x.isZero then some zero
  else
    let size := (withoutTurns x.abs).bind sinTurn
    if x.negative then size.map neg else size

/-- The cosine. -/
def cos (x : Decimal) : Option Decimal :=
  (withoutTurns x.abs).bind cosTurn

/-! ## §3. Tangent. -/

/-- The tangent of an angle up to π/8. -/
def tanSixteenth (x : Decimal) : Option Decimal :=
  tanCoefficients.foldlM
    (fun sum (c, p) => (x.powNat p).bind fun power => (c.mul power).bind sum.add) x

/-- The tangent of an angle up to π/4. -/
def tanEighth (x : Decimal) : Option Decimal :=
  if x.isZero then some zero
  else if sixteenthTurn.lt x then
    (x.div two).bind fun half =>
      (tanSixteenth half).bind fun h =>
        (two.mul h).bind fun above =>
          (h.mul h).bind fun square =>
            (one.sub square).bind fun below => if below.isZero then none else above.div below
  else tanSixteenth x

/-- The tangent of an angle up to π/2; there is none at π/2 itself. -/
def tanQuarter (x : Decimal) : Option Decimal :=
  if eighthTurn.lt x then
    (quarterTurn.sub x).bind fun rest =>
      (tanEighth rest).bind fun t => if t.isZero then none else one.div t
  else tanEighth x

/-- The tangent of an angle below π. -/
def tanHalf (x : Decimal) : Option Decimal :=
  if quarterTurn.lt x then
    (quarterTurn.sub x).bind fun y => (y.add quarterTurn).bind fun z => (tanQuarter z).map neg
  else tanQuarter x

/-- The tangent. -/
def tan (x : Decimal) : Option Decimal :=
  if x.isZero then some zero
  else
    let size := (withoutTurns x.abs).bind fun y =>
      if pi.le y then (y.sub pi).bind tanHalf else tanHalf y
    if x.negative then size.map neg else size

end ShapeEstimator.Decimal
