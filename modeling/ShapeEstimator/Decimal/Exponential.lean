/-
  ShapeEstimator.Decimal.Exponential
  ────────────────────────────────
  **EXPONENTIAL AND LOGARITHMS.**

      exp x   — a power of e for the whole part, times a Taylor sum for the rest
      ln x    — x is brought into [1, 10) by tens and below 1 by factors of e;
                for the rest  ln x = 2 · artanh ((x - 1) / (x + 1))
      log10 x — exact for powers of ten, else ln x times a constant
-/
import ShapeEstimator.Decimal.Power

namespace ShapeEstimator.Decimal

/-! ## §1. Exponential. -/

/-- The sum `1 + r + r² / 2! + …` for `0 ≤ r < 1`. -/
def expSeries (r : Decimal) : Option Wide :=
  if r.isZero then some Wide.one
  else
    let r := Wide.ofDecimal r
    (Wide.one.add r).bind fun start =>
      Wide.sumSeries (fun i t => (r.mul (t.divSmall i)).map fun t => (t, t)) 98 2 r start

/-- The exponential of a positive number. -/
def expPositive (x : Decimal) : Option Decimal :=
  let n := x.coefficient / 10 ^ x.scale
  (x.sub x.trunc).bind fun r =>
    (expSeries r).bind fun sum =>
      if n = 0 then sum.toDecimal?
      else if 2 ^ 64 ≤ n then none
      else
        (bySquaring Wide.mul Wide.one (Wide.ofDecimal e) n).bind fun power =>
          (power.mul sum).bind fun w => w.toDecimal?.map norm

/-- The exponential; of a negative number the inverse of that of its opposite. -/
def exp (x : Decimal) : Option Decimal :=
  if x.isZero then some one
  else if x.negative then (expPositive x.neg).bind fun p => if p.isZero then none else one.div p
  else expPositive x

/-! ## §2. Natural logarithm. -/

/-- A number while it is scaled, with the count of factors taken out of it. -/
abbrev Scaled := Decimal × Int

/-- Applies a step, adding `count` each time, as long as the condition holds and at most `steps`
times. -/
def scaleWhile (condition : Decimal → Bool) (step : Decimal → Option Decimal) (count : Int) :
    Nat → Scaled → Option Scaled
  | 0, x => some x
  | steps + 1, x =>
    if condition x.1 then
      (step x.1).bind fun y => scaleWhile condition step count steps (y, x.2 + count)
    else some x

/-- No decimal is more than 29 factors of ten away from `[1, 10)`, and no number there more than
three factors of e from one, so this bound is never met. -/
def scalingSteps : Nat := 100

/-- The number times a power of ten that brings it into `[1, 10)`. -/
def withoutTens (x : Decimal) : Option Scaled :=
  (scaleWhile (fun y => y.lt one) (fun y => y.mul ten) (-1) scalingSteps (x, 0)).bind
    (scaleWhile (fun y => ten.le y) (fun y => y.div ten) 1 scalingSteps)

/-- The number times a power of e that brings it between the inverse of e and one. -/
def withoutEs (x : Decimal) : Option Scaled :=
  (scaleWhile (fun y => one.le y) (fun y => y.mul inverseE) 1 scalingSteps (x, 0)).bind
    (scaleWhile (fun y => y.le inverseE) (fun y => y.mul e) (-1) scalingSteps)

/-- The logarithm `2 (z + z³ / 3 + z⁵ / 5 + …)` with `z = (x - 1) / (x + 1)`. -/
def lnSeries (x : Decimal) : Option Decimal :=
  (x.sub one).bind fun above =>
    (x.add one).bind fun below =>
      (above.div below).bind fun z =>
        let z := Wide.ofDecimal z
        (z.mul z).bind fun square =>
          (Wide.sumSeries (fun n t => (t.mul square).map fun t => (t, t.divSmall (2 * n + 1)))
            99 1 z z).bind fun sum =>
            (Wide.two.mul sum).bind Wide.toDecimal?

/-- The decimal for a small integer. -/
def ofInt? (n : Int) : Option Decimal := make? (n < 0) n.natAbs 0

/-- The logarithm of a power of ten with exponent `k`. -/
def lnOfPowerOfTen (k : Int) : Option Decimal :=
  if k = 0 then some zero else (ofInt? k).bind fun k => k.mul lnTen

/-- The natural logarithm of a positive number. -/
def ln (x : Decimal) : Option Decimal :=
  if x.sameValue one then some zero
  else
    (withoutTens x).bind fun (y, tens) =>
      (lnOfPowerOfTen tens).bind fun base =>
        if y.sameValue one then some base.norm
        else
          (withoutEs y).bind fun (r, es) =>
            (ofInt? es).bind fun es =>
              if r.sameValue one then some es
              else
                (lnSeries r).bind fun l =>
                  (base.add es).bind fun b => (b.add l).map norm

/-! ## §3. Logarithm to base ten. -/

/-- The `j` with `m = 10 ^ j`, if there is one. -/
def exactPowerOfTen? (m : Nat) : Option Nat :=
  (List.range 29).find? fun j => 10 ^ j == m

/-- The logarithm to base ten of a positive number. -/
def log10 (x : Decimal) : Option Decimal :=
  if x.sameValue one then some zero
  else
    match exactPowerOfTen? x.coefficient with
    | some j => ofInt? ((j : Int) - x.scale)
    | none => (ln x).bind log10OfE.mul

/-! ## §4. Powers with any exponent. -/

/-- The power with a decimal as exponent, of a base that is not negative. -/
def powDecimal (base exponent : Decimal) : Option Decimal :=
  if exponent.isZero then some one
  else if base.isZero then some zero
  else if base.sameValue one then some one
  else if exponent.sameValue one then some base
  else
    (ln base.abs).bind fun l => (l.mul exponent).bind exp

end ShapeEstimator.Decimal
