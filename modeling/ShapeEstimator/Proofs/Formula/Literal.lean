/-
  ShapeEstimator.Proofs.Formula.Literal
  ────────────────────────────────
  **WHICH LITERALS READ AS WHAT THEY SAY.**

  A literal is digits, perhaps a point and digits, and perhaps a power of ten:

      whole [ . fraction ] [ (e | E) [ + | - ] digits ]

  The scanner takes the whole of it, where what follows does not go on with it.  A literal in range is
  then read as the number it stands for exactly where the scaling of its digits goes through.
-/
import ShapeEstimator.Formula.Symbol
import ShapeEstimator.Proofs.Decimal.Numeral
import ShapeEstimator.Proofs.Json.Number

namespace ShapeEstimator.Formula

open Json (NoDigit takeWhile_digits dropWhile_digits noDigit_cons)

/-! ## §1. Literals. -/

/-- The power of ten of a literal, as it is written. -/
structure WrittenPower where
  /-- The letter before it. -/
  letter : Char
  /-- The letter is a small or a capital one. -/
  letter_eq : letter = 'e' ∨ letter = 'E'
  /-- The sign, if there is one. -/
  sign : Option Sign
  /-- The digits. -/
  digits : List Char
  /-- Nothing else stands there. -/
  allDigits : AllDigits digits
  /-- There is a digit. -/
  digits_ne_nil : digits ≠ []

/-- A literal, as it is written. -/
structure Literal where
  /-- The digits before the point. -/
  whole : List Char
  /-- The digits behind the point, if there is one. -/
  fraction : Option (List Char)
  /-- The power of ten, if there is one. -/
  power : Option WrittenPower
  /-- Nothing else stands before the point. -/
  whole_allDigits : AllDigits whole
  /-- Nothing else stands behind the point. -/
  fraction_allDigits : AllDigits (fraction.getD [])
  /-- There is a digit before the point or behind it. -/
  digits_ne_nil : whole ≠ [] ∨ fraction.getD [] ≠ []

namespace WrittenPower

/-- The sign as text. -/
def signText (p : WrittenPower) : List Char :=
  match p.sign with
  | none => []
  | some .negative => ['-']
  | some .positive => ['+']

/-- The power as text. -/
def text (p : WrittenPower) : List Char := p.letter :: (p.signText ++ p.digits)

/-- The power as the scanner takes it. -/
def scanned (p : WrittenPower) : PowerOfTen := ⟨p.sign == some .negative, p.digits⟩

/-- The exponent. -/
def exponent (p : WrittenPower) : ℤ :=
  match p.sign with
  | some .negative => -digitsValue p.digits
  | _ => digitsValue p.digits

theorem powerExponent_scanned (p : WrittenPower) : Numeral.powerExponent p.scanned = p.exponent := by
  unfold Numeral.powerExponent scanned exponent
  rcases p.sign with _ | _ | _ <;> rfl

/-- The digits of a power do not start with a sign. -/
theorem scanSign_append {ds : List Char} (hds : AllDigits ds) (hne : ds ≠ []) (rest : List Char) :
    Numeral.scanSign (ds ++ rest) = (false, ds ++ rest) := by
  obtain ⟨c, cs, rfl⟩ := List.exists_cons_of_ne_nil hne
  have hc : c.isDigit = true := hds.head
  rw [List.cons_append]
  unfold Numeral.scanSign
  split
  · rename_i heq
    cases heq
    exact absurd hc (by decide)
  · rename_i heq
    cases heq
    exact absurd hc (by decide)
  · rfl

theorem scanSign_text (p : WrittenPower) (rest : List Char) :
    Numeral.scanSign (p.signText ++ p.digits ++ rest)
      = (p.sign == some .negative, p.digits ++ rest) := by
  unfold signText
  rcases p.sign with _ | _ | _
  · rw [List.nil_append]
    exact scanSign_append p.allDigits p.digits_ne_nil rest
  · rfl
  · rfl

/-- A power is scanned as it is written. -/
theorem scanPower_text (p : WrittenPower) {rest : List Char} (hrest : NoDigit rest) :
    Numeral.scanPower (p.text ++ rest) = (some p.scanned, rest) := by
  rw [text, List.cons_append, Numeral.scanPower]
  simp only [scanSign_text, takeWhile_digits p.allDigits hrest, dropWhile_digits p.allDigits hrest]
  rw [if_pos ⟨p.letter_eq, p.digits_ne_nil⟩]
  rfl

end WrittenPower

namespace Literal

variable (l : Literal)

/-- The point and what follows it, as text. -/
def fractionText : List Char :=
  match l.fraction with
  | none => []
  | some ds => '.' :: ds

/-- The power of ten as text. -/
def powerText : List Char := l.power.elim [] WrittenPower.text

/-- The literal as text. -/
def text : List Char := l.whole ++ (l.fractionText ++ l.powerText)

/-- The literal as the scanner takes it. -/
def numeral : Numeral where
  whole := l.whole
  fraction := l.fraction.getD []
  power := l.power.map WrittenPower.scanned

/-- The number that the literal stands for: all its digits as one integer, as many places as there are
digits behind the point, and the power of ten. -/
def value : ℚ :=
  digitsValue (l.whole ++ l.fraction.getD []) / 10 ^ (l.fraction.getD []).length
    * 10 ^ (l.power.elim 0 WrittenPower.exponent)

/-- What follows does not go on with the literal: no digit, no power of ten where none is written, and
no point where there is neither. -/
structure EndsBefore (rest : List Char) : Prop where
  /-- No digit follows. -/
  noDigit : NoDigit rest
  /-- No power of ten follows. -/
  noPower : l.power = none → (Numeral.scanPower rest).1 = none
  /-- No point follows. -/
  noPoint : l.fraction = none → l.power = none → rest.head? ≠ some '.'

theorem exactValue_numeral : l.numeral.exactValue = l.value := by
  have hmantissa : l.numeral.mantissa
      = digitsValue (l.whole ++ l.fraction.getD []) / 10 ^ (l.fraction.getD []).length :=
    (digitsValue_append l.whole (l.fraction.getD [])).symm
  unfold Numeral.exactValue value
  rw [hmantissa]
  congr 2
  unfold numeral
  cases l.power with
  | none => rfl
  | some p => exact p.powerExponent_scanned

/-! ## §2. Scanning. -/

section Scan

variable {l} {rest : List Char}

theorem scanPower_eq_of_none (h : (Numeral.scanPower rest).1 = none) :
    Numeral.scanPower rest = (none, rest) := by
  cases rest with
  | nil => rfl
  | cons c cs =>
    unfold Numeral.scanPower at h ⊢
    dsimp only at h ⊢
    split at h
    · exact nomatch h
    · rename_i hpower
      rw [if_neg hpower]

theorem scanPower_powerText (h : l.EndsBefore rest) :
    Numeral.scanPower (l.powerText ++ rest) = (l.numeral.power, rest) := by
  unfold powerText numeral
  cases hp : l.power with
  | none => exact scanPower_eq_of_none (h.noPower hp)
  | some p => exact p.scanPower_text h.noDigit

/-- Neither a power of ten nor what follows it starts with a digit. -/
theorem noDigit_powerText (h : l.EndsBefore rest) : NoDigit (l.powerText ++ rest) := by
  unfold powerText
  cases l.power with
  | none => exact h.noDigit
  | some p =>
    apply noDigit_cons
    rcases p.letter_eq with hletter | hletter <;> rw [hletter] <;> decide

theorem noPoint_powerText (h : l.EndsBefore rest) (hf : l.fraction = none) :
    (l.powerText ++ rest).head? ≠ some '.' := by
  unfold powerText
  cases hp : l.power with
  | none => exact h.noPoint hf hp
  | some p =>
    intro heq
    have hletter : p.letter = '.' := Option.some.inj heq
    rcases p.letter_eq with he | he <;> rw [he] at hletter <;> exact absurd hletter (by decide)

theorem scanFraction_fractionText (h : l.EndsBefore rest) :
    Numeral.scanFraction (l.fractionText ++ (l.powerText ++ rest))
      = (l.fraction.getD [], l.powerText ++ rest) := by
  unfold fractionText
  cases hf : l.fraction with
  | none =>
    have hpoint := noPoint_powerText h hf
    rw [List.nil_append]
    unfold Numeral.scanFraction
    split
    · rename_i heq
      rw [heq] at hpoint
      exact absurd rfl hpoint
    · rfl
  | some ds =>
    have hds : AllDigits ds := by
      have hall := l.fraction_allDigits
      rwa [hf] at hall
    have htail := noDigit_powerText h
    show ((ds ++ (l.powerText ++ rest)).takeWhile Char.isDigit,
      (ds ++ (l.powerText ++ rest)).dropWhile Char.isDigit) = _
    rw [takeWhile_digits hds htail, dropWhile_digits hds htail]
    rfl

theorem noDigit_fractionText (h : l.EndsBefore rest) :
    NoDigit (l.fractionText ++ (l.powerText ++ rest)) := by
  unfold fractionText
  cases l.fraction with
  | none => exact noDigit_powerText h
  | some ds => exact noDigit_cons (by decide)

/-- The scanner takes a literal as a whole. -/
theorem scan_text (h : l.EndsBefore rest) : Numeral.scan (l.text ++ rest) = (l.numeral, rest) := by
  have htail := noDigit_fractionText h
  have htext : l.text ++ rest = l.whole ++ (l.fractionText ++ (l.powerText ++ rest)) := by
    simp only [text, List.append_assoc]
  unfold Numeral.scan
  rw [htext, takeWhile_digits l.whole_allDigits htail, dropWhile_digits l.whole_allDigits htail,
    scanFraction_fractionText h]
  dsimp only
  rw [scanPower_powerText h]
  rfl

theorem startsAt_of_isDigit {c : Char} (hc : c.isDigit = true) (cs : List Char) :
    Numeral.startsAt (c :: cs) = true := by
  unfold Numeral.startsAt
  split
  · rename_i heq
    obtain rfl : c = '.' := (List.cons.inj heq).1
    exact absurd hc (by decide)
  · rename_i heq
    obtain rfl := (List.cons.inj heq).1
    exact hc
  · rename_i heq
    exact nomatch heq

/-- A numeral starts where a literal does: with a digit, or with a point and a digit. -/
theorem startsAt_text (l : Literal) (rest : List Char) : Numeral.startsAt (l.text ++ rest) = true := by
  have hne := l.digits_ne_nil
  have hwhole := l.whole_allDigits
  unfold text
  cases hw : l.whole with
  | cons c cs =>
    rw [hw] at hwhole
    exact startsAt_of_isDigit hwhole.head _
  | nil =>
    have hfraction := l.fraction_allDigits
    rw [hw] at hne
    have hbehind : l.fraction.getD [] ≠ [] := hne.resolve_left fun h => h rfl
    unfold fractionText
    cases hf : l.fraction with
    | none =>
      rw [hf] at hbehind
      exact absurd rfl hbehind
    | some ds =>
      rw [hf] at hbehind hfraction
      obtain ⟨d, ds', rfl⟩ := List.exists_cons_of_ne_nil hbehind
      exact hfraction.head

end Scan

/-! ## §3. Values. -/

/-- **Literals.**  A literal is scanned as a whole.  One in range reads as what it says exactly where
its scaling goes through, and is rejected exactly where its power has too many zeros. -/
theorem literal_read (l : Literal) {rest : List Char} (hrest : l.EndsBefore rest)
    (hq : l.value ≤ 7 * 10 ^ 28) :
    Numeral.startsAt (l.text ++ rest) = true
      ∧ ∃ n, Numeral.scan (l.text ++ rest) = (n, rest)
        ∧ ((∃ v, n.value? = some v ∧ |v.value - l.value| ≤ 1 / 10 ^ 28 + l.value / 10 ^ 27)
          ↔ n.Reached)
        ∧ (n.value? = none ↔ n.TooManyZeros) := by
  have hvalue := l.exactValue_numeral
  have hn : l.numeral.exactValue ≤ 7 * 10 ^ 28 := hvalue ▸ hq
  have haccurate := Numeral.accurate_iff_reached l.fraction_allDigits hn
  unfold Numeral.Accurate Numeral.tolerance at haccurate
  rw [hvalue] at haccurate
  exact ⟨startsAt_text l rest, l.numeral, scan_text hrest, haccurate,
    Numeral.value?_eq_none_iff l.fraction_allDigits hn⟩

end Literal

/-! ## §4. Literals that are read well, and some that are not. -/

instance (ds : List Char) : Decidable (AllDigits ds) :=
  decidable_of_iff (ds.all Char.isDigit = true) List.all_eq_true

/-- A power of ten that is written with a small letter. -/
def smallPower (sign : Option Sign) (digits : List Char)
    (allDigits : AllDigits digits := by decide) (digits_ne_nil : digits ≠ [] := by decide) :
    WrittenPower :=
  { letter := 'e', letter_eq := Or.inl rfl, sign, digits, allDigits, digits_ne_nil }

/-- The literal `2.5e-3`. -/
def fewThousandths : Literal where
  whole := ['2']
  fraction := some ['5']
  power := some (smallPower (some .negative) ['3'])
  whole_allDigits := by decide
  fraction_allDigits := by decide
  digits_ne_nil := by decide

theorem value_fewThousandths : fewThousandths.value = 25 / 10 ^ 4 := by
  have hdigits : digitsValue ['2', '5'] = 25 := by decide
  have hpower : digitsValue ['3'] = 3 := by decide
  show (digitsValue ['2', '5'] : ℚ) / 10 ^ 1 * 10 ^ (-(digitsValue ['3'] : ℤ)) = _
  rw [hdigits, hpower]
  norm_num [zpow_neg]

/-- A literal with a fraction and a negative power, in front of a product. -/
theorem fewThousandths_read :
    fewThousandths.EndsBefore ['*', 'x'] ∧ fewThousandths.value ≤ 7 * 10 ^ 28
      ∧ ∃ v, (Numeral.scan "2.5e-3*x".toList).1.value? = some v
        ∧ |v.value - 25 / 10 ^ 4| ≤ 1 / 10 ^ 28 + 25 / 10 ^ 31 := by
  have hends : fewThousandths.EndsBefore ['*', 'x'] :=
    ⟨noDigit_cons (by decide), fun h => (nomatch h), fun h => (nomatch h)⟩
  have hrange : fewThousandths.value ≤ 7 * 10 ^ 28 := by
    rw [value_fewThousandths]
    norm_num
  obtain ⟨-, n, hscan, haccurate, -⟩ := fewThousandths.literal_read hends hrange
  have htext : fewThousandths.text ++ ['*', 'x'] = "2.5e-3*x".toList := by decide
  have hnumeral : n = ⟨['2'], ['5'], some ⟨true, ['3']⟩⟩ := by
    have hfirst := congrArg Prod.fst hscan
    rw [htext] at hfirst
    exact hfirst.symm.trans (by decide)
  -- the two digits take one place, and the power three more
  have hreached : n.Reached := by
    subst hnumeral
    exact Or.inl ⟨⟨false, 25, 1, by decide, by decide⟩, by decide, by decide⟩
  obtain ⟨v, hv, hoff⟩ := haccurate.2 hreached
  rw [htext] at hscan
  refine ⟨hends, hrange, v, by rw [hscan]; exact hv, ?_⟩
  rw [value_fewThousandths] at hoff
  norm_num at hoff ⊢
  exact hoff

/-- A literal in range that is not read as what it says. -/
def Literal.Missed (l : Literal) : Prop :=
  l.value ≤ 7 * 10 ^ 28
    ∧ ¬ ∃ v, (Numeral.scan l.text).1.value? = some v
      ∧ |v.value - l.value| ≤ 1 / 10 ^ 28 + l.value / 10 ^ 27

/-- The literal `1000000e-29`. -/
def longNegativePower : Literal where
  whole := "1000000".toList
  fraction := none
  power := some (smallPower (some .negative) ['2', '9'])
  whole_allDigits := by decide
  fraction_allDigits := by decide
  digits_ne_nil := by decide

/-- The literal `100000000000000000000000000000e-5`. -/
def longWhole : Literal where
  whole := "100000000000000000000000000000".toList
  fraction := none
  power := some (smallPower (some .negative) ['5'])
  whole_allDigits := by decide
  fraction_allDigits := by decide
  digits_ne_nil := by decide

/-- The literal `0.0000000001e30`. -/
def longPositivePower : Literal where
  whole := ['0']
  fraction := some "0000000001".toList
  power := some (smallPower none ['3', '0'])
  whole_allDigits := by decide
  fraction_allDigits := by decide
  digits_ne_nil := by decide

/-- The literal `0.00000000000000000000000000004e10`. -/
def longFraction : Literal where
  whole := ['0']
  fraction := some "00000000000000000000000000004".toList
  power := some (smallPower none ['1', '0'])
  whole_allDigits := by decide
  fraction_allDigits := by decide
  digits_ne_nil := by decide

/-- A number that is not next to nothing, and is read as zero. -/
theorem Literal.missed_of_zero {l : Literal} {q : ℚ} (hvalue : l.value = q) (hq : q ≤ 7 * 10 ^ 28)
    (hfar : 1 / 10 ^ 28 + q / 10 ^ 27 < q)
    (hzero : (Numeral.scan l.text).1.value?.any Decimal.isZero = true) : l.Missed := by
  subst hvalue
  refine ⟨hq, ?_⟩
  rintro ⟨v, hv, hoff⟩
  rw [hv] at hzero
  rw [Decimal.value_of_isZero hzero, zero_sub, abs_neg] at hoff
  exact absurd ((le_abs_self _).trans hoff) (not_le.2 hfar)

theorem longNegativePower_missed : longNegativePower.Missed := by
  have hvalue : longNegativePower.value = 1 / 10 ^ 23 := by
    have hdigits : digitsValue ("1000000".toList ++ []) = 1000000 := by decide
    show (digitsValue ("1000000".toList ++ []) : ℚ) / 10 ^ 0 * 10 ^ (-29 : ℤ) = _
    rw [hdigits]
    norm_num [zpow_neg]
  exact Literal.missed_of_zero hvalue (by norm_num) (by norm_num) (by decide +kernel)

theorem longWhole_missed : longWhole.Missed := by
  have hvalue : longWhole.value = 10 ^ 24 := by
    have hdigits : digitsValue ("100000000000000000000000000000".toList ++ []) = 10 ^ 29 := by
      decide
    show (digitsValue ("100000000000000000000000000000".toList ++ []) : ℚ) / 10 ^ 0
      * 10 ^ (-5 : ℤ) = _
    rw [hdigits]
    norm_num [zpow_neg]
  exact Literal.missed_of_zero hvalue (by norm_num) (by norm_num) (by decide +kernel)

theorem longFraction_missed : longFraction.Missed := by
  have hvalue : longFraction.value = 4 / 10 ^ 19 := by
    have hdigits : digitsValue (['0'] ++ "00000000000000000000000000004".toList) = 4 := by decide
    show (digitsValue (['0'] ++ "00000000000000000000000000004".toList) : ℚ) / 10 ^ 29
      * 10 ^ (10 : ℤ) = _
    rw [hdigits]
    norm_num
  exact Literal.missed_of_zero hvalue (by norm_num) (by norm_num) (by decide +kernel)

theorem longPositivePower_missed : longPositivePower.Missed := by
  have hvalue : longPositivePower.value = 10 ^ 20 := by
    have hdigits : digitsValue (['0'] ++ "0000000001".toList) = 1 := by decide
    show (digitsValue (['0'] ++ "0000000001".toList) : ℚ) / 10 ^ 10 * 10 ^ (30 : ℤ) = _
    rw [hdigits]
    norm_num
  have hrejected : (Numeral.scan longPositivePower.text).1.value? = none := by decide +kernel
  refine ⟨by rw [hvalue]; norm_num, ?_⟩
  rintro ⟨v, hv, -⟩
  rw [hrejected] at hv
  exact nomatch hv

/-- **Literals in range that are missed**: three are read as zero, one of them with 25 digits before
the point, and one is rejected. -/
theorem literals_missed :
    longNegativePower.Missed ∧ longWhole.Missed ∧ longFraction.Missed ∧ longPositivePower.Missed :=
  ⟨longNegativePower_missed, longWhole_missed, longFraction_missed, longPositivePower_missed⟩

end ShapeEstimator.Formula
