/-
  ShapeEstimator.Decimal.Numeral
  ────────────────────────────────
  **NUMBERS READ FROM TEXT.**

  A numeral is digits, digits behind a point, and perhaps a power of ten.  It
  reads as the decimal with the same digits and as many places as are written:
  `2.50` has scale 2.  Digits that there is no room for are rounded away, a half
  going up, as long as they stand behind the point.

  A numeral whose power of ten is written with a minus sign always has a value:
  where the decimal would need more than 28 places it is zero.
-/
import ShapeEstimator.Decimal.Arithmetic
import ShapeEstimator.Decimal.Integral

namespace ShapeEstimator

/-! ## §1. Digits. -/

/-- The value of a decimal digit. -/
def digitValue (c : Char) : Nat := c.toNat - '0'.toNat

/-- The number that a row of digits stands for. -/
def digitsValue (ds : List Char) : Nat := ds.foldl (fun n d => 10 * n + digitValue d) 0

/-! ## §2. Numerals. -/

/-- The power of ten of a numeral. -/
structure PowerOfTen where
  /-- Whether the power is written with a minus sign. -/
  negative : Bool
  /-- The digits of the power. -/
  digits : List Char
  deriving DecidableEq, Repr

/-- A number without a sign as it is written. -/
structure Numeral where
  /-- The digits before the point. -/
  whole : List Char
  /-- The digits behind the point. -/
  fraction : List Char
  /-- The power of ten, if there is one. -/
  power : Option PowerOfTen
  deriving DecidableEq, Repr

namespace Decimal

/-- Takes digits behind the point while there is room; the first one too many rounds. -/
def takeFraction : List Char → Nat → Nat → Option Decimal
  | [], m, s => make? false m s
  | d :: rest, m, s =>
    if s < maxScale ∧ 10 * m + digitValue d < limit then
      takeFraction rest (10 * m + digitValue d) (s + 1)
    else if digitValue d < 5 then make? false m s
    else if m + 1 < limit then make? false (m + 1) s
    else if s = 0 then none
    else make? false ((m + 1 + 4) / 10) (s - 1)

/-- The decimal with the given digits before and behind the point.  The digits before the point
must all fit. -/
def ofDigits? (whole fraction : List Char) : Option Decimal :=
  if digitsValue whole < limit then takeFraction fraction (digitsValue whole) 0 else none

/-- A number divided by a power of ten: its places become more. -/
def shiftRight? (x : Decimal) (n : Nat) : Option Decimal :=
  if x.scale + n ≤ maxScale then make? x.negative x.coefficient (x.scale + n) else none

/-- Multiplies by a power of ten with at most 28 zeros, nineteen of them at a time. -/
def timesPowerOfTen (x : Decimal) (n : Nat) : Option Decimal :=
  if 19 ≤ n then
    (make? false (10 ^ 19) 0).bind fun big =>
      (x.mul big).bind fun y =>
        (make? false (10 ^ (n - 19)) 0).bind y.mul
  else (make? false (10 ^ n) 0).bind x.mul

/-- A number multiplied by a power of ten: its places become fewer, and then digits more. -/
def shiftLeft? (x : Decimal) (n : Nat) : Option Decimal :=
  if n ≤ x.scale then make? x.negative x.coefficient (x.scale - n)
  else if maxScale < n then none
  else (x.timesPowerOfTen n).map norm

end Decimal

namespace Numeral

/-- The decimal that is written, if it is in range. -/
def written? (n : Numeral) : Option Decimal :=
  (Decimal.ofDigits? n.whole n.fraction).bind fun x =>
    match n.power with
    | none => some x
    | some p =>
      if p.negative then x.shiftRight? (digitsValue p.digits)
      else x.shiftLeft? (digitsValue p.digits)

/-- The value of a numeral: nothing when it is out of range, and zero for a number out of range
that is written with a negative power of ten. -/
def value? (n : Numeral) : Option Decimal :=
  match n.written?, n.power with
  | some x, _ => some x
  | none, some p => if p.negative then some Decimal.zero else none
  | none, none => none

end Numeral

/-! ## §3. Scanning. -/

namespace Numeral

/-- Whether a numeral starts here: a digit, or a point and a digit. -/
def startsAt : List Char → Bool
  | '.' :: d :: _ => d.isDigit
  | c :: _ => c.isDigit
  | [] => false

/-- The digits behind a point, and what follows them.  Without a point there are none. -/
def scanFraction : List Char → List Char × List Char
  | '.' :: rest => (rest.takeWhile Char.isDigit, rest.dropWhile Char.isDigit)
  | cs => ([], cs)

/-- A sign, if there is one, and what follows it. -/
def scanSign : List Char → Bool × List Char
  | '-' :: rest => (true, rest)
  | '+' :: rest => (false, rest)
  | cs => (false, cs)

/-- A power of ten, and what follows it.  The letter counts only if digits follow, with or without
a sign between. -/
def scanPower : List Char → Option PowerOfTen × List Char
  | [] => (none, [])
  | c :: rest =>
    let signed := scanSign rest
    let digits := signed.2.takeWhile Char.isDigit
    if (c = 'e' ∨ c = 'E') ∧ digits ≠ [] then
      (some ⟨signed.1, digits⟩, signed.2.dropWhile Char.isDigit)
    else (none, c :: rest)

/-- The longest numeral at the start of a text, and what follows it. -/
def scan (cs : List Char) : Numeral × List Char :=
  let fraction := scanFraction (cs.dropWhile Char.isDigit)
  let power := scanPower fraction.2
  (⟨cs.takeWhile Char.isDigit, fraction.1, power.1⟩, power.2)

theorem scanFraction_length_le (cs : List Char) : (scanFraction cs).2.length ≤ cs.length := by
  unfold scanFraction
  split
  · exact Nat.le_succ_of_le (List.dropWhile_sublist _).length_le
  · exact Nat.le_refl _

theorem scanSign_length_le (cs : List Char) : (scanSign cs).2.length ≤ cs.length := by
  unfold scanSign
  split <;> simp

theorem scanPower_length_le (cs : List Char) : (scanPower cs).2.length ≤ cs.length := by
  cases cs with
  | nil => exact Nat.le_refl _
  | cons c rest =>
    simp only [scanPower]
    split
    · exact Nat.le_trans (List.dropWhile_sublist _).length_le
        (Nat.le_succ_of_le (scanSign_length_le rest))
    · exact Nat.le_refl _

/-- A numeral takes at least one character. -/
theorem scan_length_lt {cs : List Char} (h : startsAt cs = true) :
    (scan cs).2.length < cs.length := by
  refine Nat.lt_of_le_of_lt (scanPower_length_le _) ?_
  match cs, h with
  | c :: rest, h =>
    by_cases hc : c.isDigit = true
    · refine Nat.lt_of_le_of_lt (scanFraction_length_le _) ?_
      rw [List.dropWhile_cons_of_pos hc]
      exact Nat.lt_succ_of_le (List.dropWhile_sublist _).length_le
    · rw [List.dropWhile_cons_of_neg hc]
      unfold startsAt at h
      split at h
      · rename_i d tail heq
        cases heq
        exact Nat.lt_succ_of_le (List.dropWhile_sublist _).length_le
      · rename_i heq
        cases heq
        exact absurd h hc
      · contradiction

end Numeral

/-! ## §4. Signed text. -/

/-- Reads a sign, digits and a point from a text that holds nothing else. -/
def Decimal.ofText? (text : String) : Option Decimal :=
  let unsigned (cs : List Char) : Option Decimal :=
    let whole := cs.takeWhile Char.isDigit
    match cs.dropWhile Char.isDigit with
    | [] => if whole.isEmpty then none else Decimal.ofDigits? whole []
    | c :: fraction =>
      if c = '.' ∧ fraction.all Char.isDigit ∧ (whole ++ fraction).length ≠ 0 then
        Decimal.ofDigits? whole fraction
      else none
  match text.toList with
  | '-' :: rest => (unsigned rest).map fun x => x.neg.clean
  | '+' :: rest => unsigned rest
  | cs => unsigned cs

end ShapeEstimator
