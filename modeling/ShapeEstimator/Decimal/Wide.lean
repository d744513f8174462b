/-
  ShapeEstimator.Decimal.Wide
  ────────────────────────────────
  **WORKING PRECISION.**

  Series and large powers are summed in wider numbers: 192 bits of coefficient
  and up to 57 places, twice what a decimal has.  The result is cut back to a
  decimal once, at the end.

  Cutting a wide coefficient goes digit blocks at a time, and only the last
  block decides whether the result goes up by one.
-/
import ShapeEstimator.Decimal.Arithmetic

namespace ShapeEstimator.Decimal

/-! ## §1. Wide numbers. -/

/-- The number `± coefficient · 10 ^ (-scale)` with a coefficient of up to 192 bits. -/
structure Wide where
  /-- Whether the number carries a minus sign. -/
  negative : Bool
  /-- The digits. -/
  coefficient : Nat
  /-- The number of places. -/
  scale : Nat
  deriving DecidableEq, Repr

namespace Wide

/-- The least coefficient that is out of range. -/
abbrev limit : Nat := 2 ^ 192

/-- The greatest number of places. -/
abbrev maxScale : Nat := 57

/-- One. -/
def one : Wide := ⟨false, 1, 0⟩

/-- Two. -/
def two : Wide := ⟨false, 2, 0⟩

/-- A decimal as a wide number. -/
def ofDecimal (x : Decimal) : Wide := ⟨x.negative, x.coefficient, x.scale⟩

/-- The number with its sign turned. -/
def neg (x : Wide) : Wide := { x with negative := !x.negative }

/-- The number of bits of `m`. -/
def bitLength (m : Nat) : Nat := if m = 0 then 0 else m.log2 + 1

/-- The position of the highest 32-bit word of `m` that is not zero. -/
def topWord (m : Nat) : Nat := m.log2 / 32

/-! ## §2. Cutting to size. -/

/-- Drops places beyond the greatest scale, at most nine at a time, each time to nearest even. -/
def dropPlaces (coefficient scale : Nat) : Nat × Nat :=
  if _h : scale ≤ 57 then (coefficient, scale)
  else
    let p := Nat.min (scale - 57) 9
    dropPlaces (dropDigits coefficient p) (scale - p)
termination_by scale
decreasing_by
  have : 1 ≤ p := Nat.le_min.2 ⟨by omega, by decide⟩
  omega

/-- How many digits a coefficient has too many for `words + 1` words, at least one where it is too
long.  The factor 77 / 256 stands for the decimal logarithm of two. -/
def surplus (words m : Nat) : Nat :=
  if topWord m ≤ words then 0
  else ((topWord m - words) * 32 - (31 - m.log2 % 32)) * 77 / 256 + 1

/-- Drops at least `n` digits, and more until the coefficient has at most `words + 1` words.  The
result holds what the last block of dropped digits was. -/
def cut (words m scale n last : Nat) : Option (Nat × Nat × Nat) :=
  if n = 0 ∧ topWord m ≤ words then some (m, scale, last)
  else
    let p := Nat.max 1 (Nat.min n 9)
    if _h : scale < p then none
    else if words < topWord (m / 10 ^ p) ∧ n ≤ p then
      if scale = p then none else cut words (m / 10 ^ p) (scale - p) 1 (m % 10 ^ p)
    else cut words (m / 10 ^ p) (scale - p) (n - p) (m % 10 ^ p)
termination_by scale
decreasing_by
  all_goals
    have : 1 ≤ p := Nat.le_max_left ..
    omega

/-- Brings a coefficient to at most `words + 1` words and a scale to at most `places`. -/
def fitTo (words places m scale : Nat) : Option (Nat × Nat) :=
  if topWord m ≤ words ∧ scale ≤ 28 then some (m, scale)
  else
    let n := Nat.max (surplus words m) (scale - places)
    if n = 0 then some (m, scale)
    else if scale < n then none
    else
      (cut words m scale n 0).bind fun (m, scale, last) =>
        let m := if last ≠ 0 ∧ (m % 2 = 1 ∨ 1 < last) then m + 1 else m
        if topWord m ≤ words then some (m, scale)
        else if scale = 0 then none
        else some (m / 10, scale - 1)

/-- The nearest decimal, if there is one. -/
def toDecimal? (x : Wide) : Option Decimal :=
  if x.coefficient < Decimal.limit ∧ x.scale ≤ Decimal.maxScale then
    (make? x.negative x.coefficient x.scale).map clean
  else
    (fitTo 2 28 x.coefficient x.scale).bind fun (m, scale) =>
      (make? x.negative m scale).map clean

/-! ## §3. Arithmetic. -/

/-- The product. -/
def mul (x y : Wide) : Option Wide :=
  if x.coefficient = 0 ∨ y.coefficient = 0 then some ⟨false, 0, 0⟩
  else
    let m := x.coefficient * y.coefficient
    let scale := x.scale + y.scale
    let sized := if m < limit then some (dropPlaces m scale) else fitTo 5 maxScale m scale
    sized.map fun (m, scale) => ⟨x.negative != y.negative, m, scale⟩

/-- The sum. -/
def add (x y : Wide) : Option Wide :=
  if x.coefficient = 0 then some y
  else if y.coefficient = 0 then some x
  else
    let scale := Nat.max x.scale y.scale
    let a := x.coefficient * 10 ^ (scale - x.scale)
    let b := y.coefficient * 10 ^ (scale - y.scale)
    if limit ≤ a ∨ limit ≤ b then none
    else if x.negative != y.negative then
      some (if b ≤ a then ⟨x.negative, a - b, scale⟩ else ⟨y.negative, b - a, scale⟩)
    else if a + b < limit then some ⟨x.negative, a + b, scale⟩
    else if scale = 0 then none
    else some ⟨x.negative, (a + b) / 10 + (if 5 ≤ (a + b) % 10 then 1 else 0), scale - 1⟩

/-- Continues a division by a small number from a quotient and a remainder: up to nine digits at a
time as long as the coefficient and the scale have room, then rounding by the half divisor. -/
def continueDivision (divisor quotient scale remainder : Nat) : Nat × Nat :=
  let p := Nat.min 9 ((192 - bitLength quotient) * 77 / 256)
  if _h : remainder = 0 ∨ p = 0 ∨ 57 < scale + p then
    let half := divisor / 2
    if half < remainder ∨ (0 < remainder ∧ remainder = half ∧ quotient % 2 = 1) then
      (quotient + 1, scale)
    else (quotient, scale)
  else
    let left := remainder * 10 ^ p
    continueDivision divisor (quotient * 10 ^ p + left / divisor) (scale + p) (left % divisor)
termination_by 57 - scale
decreasing_by omega

/-- The quotient by a small positive number. -/
def divSmall (x : Wide) (divisor : Nat) : Wide :=
  if x.coefficient = 0 ∨ divisor = 1 then x
  else
    let q := continueDivision divisor (x.coefficient / divisor) x.scale (x.coefficient % divisor)
    ⟨x.negative, q.1, q.2⟩

/-- Whether a term is too small to matter for the sum of a series. -/
def isTiny (x : Wide) : Bool :=
  x.coefficient == 0
    || (x.coefficient < 2 ^ 32 && 38 ≤ x.scale)
    || (x.coefficient < 2 ^ 64 && 48 ≤ x.scale)
    || (x.coefficient < 2 ^ 96 && 57 ≤ x.scale)

/-! ## §4. Series. -/

/-- Sums a series.  Each step turns the running value into the next one and the term to add; the
sum ends after a tiny term, or after `steps` terms. -/
def sumSeries (next : Nat → Wide → Option (Wide × Wide)) :
    (steps index : Nat) → (running sum : Wide) → Option Wide
  | 0, _, _, sum => some sum
  | steps + 1, index, running, sum =>
    (next index running).bind fun (running, term) =>
      (sum.add term).bind fun sum =>
        if term.isTiny then some sum else sumSeries next steps (index + 1) running sum

end Wide

end ShapeEstimator.Decimal
