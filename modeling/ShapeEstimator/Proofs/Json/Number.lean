/-
  ShapeEstimator.Proofs.Json.Number
  ────────────────────────────────
  **NUMBERS THAT ARE WRITTEN ARE READ BACK.**

  A number is written as an integer, with a point among its digits, or with a power of
  ten.  The reader takes digits as long as there are any, so it stops where the number
  does if what follows does not go on with it:

      readNumber (writeNumber n ++ rest)  =  (n, rest)
-/
import ShapeEstimator.Json.Reader
import ShapeEstimator.Json.Writer

namespace ShapeEstimator

/-! ## §1. Rows of digits. -/

namespace Text

theorem isDigit_of_mem_digits {n : Nat} {c : Char} (h : c ∈ digits n) : c.isDigit = true :=
  Nat.isDigit_of_mem_toDigits (by decide) (by decide) h

/-- The digits of a number stand for the number. -/
theorem digitsValue_digits (n : Nat) : digitsValue (digits n) = n :=
  Nat.ofDigitChars_ten_toDigits

/-- Zeros in front of a number do not count. -/
theorem digitsValue_paddedDigits (width n : Nat) : digitsValue (paddedDigits width n) = n := by
  show Nat.ofDigitChars 10 (List.replicate _ '0' ++ digits n) 0 = n
  rw [Nat.ofDigitChars_append, Nat.ofDigitChars_replicate_zero, Nat.mul_zero]
  exact digitsValue_digits n

theorem isDigit_of_mem_paddedDigits {w n : Nat} {c : Char} (h : c ∈ paddedDigits w n) :
    c.isDigit = true := by
  unfold paddedDigits at h
  rcases List.mem_append.1 h with h | h
  · rw [List.eq_of_mem_replicate h]
    decide
  · exact isDigit_of_mem_digits h

/-- No number but zero starts with a zero. -/
theorem head?_digits {n : Nat} (h : n ≠ 0) : (digits n).head? ≠ some '0' := by
  induction n using Nat.strongRecOn with
  | ind n ih =>
    unfold digits
    by_cases hn : n < 10
    · rw [Nat.toDigits_of_lt_base hn]
      have hcases : ∀ k < 10, k ≠ 0 → [Nat.digitChar k].head? ≠ some '0' := by decide
      exact hcases n hn h
    · -- the last digit stands behind those of a tenth, which is not zero either
      have htenth : (Nat.toDigits 10 (n / 10)).head? ≠ some '0' := ih (n / 10) (by omega) (by omega)
      obtain ⟨d, ds, hds⟩ :=
        List.exists_cons_of_ne_nil (Nat.toDigits_ne_nil (n := n / 10) (b := 10))
      rw [Nat.toDigits_of_base_le (by decide) (by omega)]
      rw [hds] at htenth ⊢
      exact htenth

end Text

namespace Json

open Text (digits)

/-! ## §2. What stops a number. -/

/-- What follows does not start with a digit. -/
def NoDigit (rest : List Char) : Prop := ∀ c ∈ rest.head?, c.isDigit = false

/-- What follows does not go on with a number. -/
def Stops (rest : List Char) : Prop :=
  ∀ c ∈ rest.head?, c.isDigit = false ∧ c ≠ '.' ∧ c ≠ 'e' ∧ c ≠ 'E'

variable {rest : List Char}

theorem Stops.noDigit (h : Stops rest) : NoDigit rest := fun c hc => (h c hc).1

theorem noDigit_cons {c : Char} (h : c.isDigit = false) : NoDigit (c :: rest) := by
  intro d hd
  cases hd
  exact h

theorem takeWhile_digits {ds : List Char} (hds : ∀ c ∈ ds, c.isDigit = true) (hr : NoDigit rest) :
    (ds ++ rest).takeWhile Char.isDigit = ds := by
  rw [List.takeWhile_append_of_pos hds]
  cases rest with
  | nil => simp
  | cons c cs => simp [hr c rfl]

theorem dropWhile_digits {ds : List Char} (hds : ∀ c ∈ ds, c.isDigit = true) (hr : NoDigit rest) :
    (ds ++ rest).dropWhile Char.isDigit = rest := by
  rw [List.dropWhile_append_of_pos hds]
  cases rest with
  | nil => rfl
  | cons c cs => simp [hr c rfl]

/-! ## §3. Part by part. -/

/-- Digits that a number may start with: a zero alone, or digits that start with another one. -/
def WholePart (ds : List Char) : Prop :=
  ds = ['0'] ∨ (ds ≠ [] ∧ ds.head? ≠ some '0' ∧ ∀ c ∈ ds, c.isDigit = true)

theorem wholePart_digits (n : Nat) : WholePart (digits n) := by
  by_cases hn : n = 0
  · subst hn
    exact Or.inl (Nat.toDigits_zero 10)
  · exact Or.inr ⟨Nat.toDigits_ne_nil, Text.head?_digits hn, fun c => Text.isDigit_of_mem_digits⟩

theorem readWhole_append {ds : List Char} (h : WholePart ds) (hr : NoDigit rest) :
    readWhole (ds ++ rest) = some (ds, rest) := by
  rcases h with rfl | ⟨hne, hhead, hds⟩
  · rfl
  · cases ds with
    | nil => exact absurd rfl hne
    | cons c cs =>
      have hc : c ≠ '0' := fun heq => hhead (by rw [heq]; rfl)
      have hcs : ∀ d ∈ cs, d.isDigit = true := fun d hd => hds d (List.mem_cons_of_mem _ hd)
      show readWhole (c :: (cs ++ rest)) = _
      unfold readWhole
      dsimp only
      rw [if_neg hc, if_pos (hds c List.mem_cons_self), takeWhile_digits hcs hr,
        dropWhile_digits hcs hr]

theorem readFraction_point {fs : List Char} (hne : fs ≠ []) (hfs : ∀ c ∈ fs, c.isDigit = true)
    (hr : NoDigit rest) : readFraction ('.' :: (fs ++ rest)) = some (fs, rest) := by
  show (if (fs ++ rest).takeWhile Char.isDigit = [] then none
    else some ((fs ++ rest).takeWhile Char.isDigit, (fs ++ rest).dropWhile Char.isDigit)) = _
  rw [takeWhile_digits hfs hr, dropWhile_digits hfs hr, if_neg hne]

theorem readFraction_none (h : ∀ c ∈ rest.head?, c ≠ '.') :
    readFraction rest = some ([], rest) := by
  unfold readFraction
  split
  · exact absurd rfl (h '.' rfl)
  · rfl

theorem readPower_none (h : Stops rest) : readPower rest = some (none, rest) := by
  cases rest with
  | nil => rfl
  | cons c cs =>
    obtain ⟨_, _, he, hE⟩ := h c rfl
    unfold readPower
    dsimp only
    rw [if_neg (by rintro (rfl | rfl) <;> contradiction)]

theorem scanSign_digits (n : Nat) :
    Numeral.scanSign (digits n ++ rest) = (false, digits n ++ rest) := by
  have hall := fun c => Text.isDigit_of_mem_digits (n := n) (c := c)
  cases hds : digits n with
  | nil => exact absurd hds Nat.toDigits_ne_nil
  | cons c cs =>
    -- neither sign is a digit
    have hc : c.isDigit = true := hall c (by rw [hds]; exact List.mem_cons_self)
    show Numeral.scanSign (c :: (cs ++ rest)) = _
    unfold Numeral.scanSign
    split
    · rename_i heq
      cases heq
      exact absurd hc (by decide)
    · rename_i heq
      cases heq
      exact absurd hc (by decide)
    · rfl

theorem readPower_write (e : Int) (hr : NoDigit rest) :
    readPower ('e' :: (writeInt e ++ rest)) = some (some e, rest) := by
  have hds := fun c => Text.isDigit_of_mem_digits (n := e.natAbs) (c := c)
  have hne : digits e.natAbs ≠ [] := Nat.toDigits_ne_nil
  have hvalue := Text.digitsValue_digits e.natAbs
  unfold readPower
  dsimp only
  rw [if_pos (Or.inl rfl)]
  unfold writeInt
  by_cases hsign : e < 0
  · rw [decide_eq_true hsign]
    show (if List.takeWhile Char.isDigit (digits e.natAbs ++ rest) = [] then _ else _) = _
    rw [show (Numeral.scanSign (Text.signed true (digits e.natAbs) ++ rest)).2
      = digits e.natAbs ++ rest from rfl, takeWhile_digits hds hr, dropWhile_digits hds hr,
      if_neg hne, hvalue]
    show some (some (-(e.natAbs : Int)), rest) = _
    rw [show -(e.natAbs : Int) = e by omega]
  · rw [decide_eq_false hsign]
    show (if List.takeWhile Char.isDigit (Numeral.scanSign (digits e.natAbs ++ rest)).2 = []
      then _ else _) = _
    rw [show Text.signed false (digits e.natAbs) = digits e.natAbs from rfl, scanSign_digits,
      takeWhile_digits hds hr, dropWhile_digits hds hr, if_neg hne, hvalue]
    show some (some (e.natAbs : Int), rest) = _
    rw [show (e.natAbs : Int) = e by omega]

/-! ## §4. Numbers. -/

theorem readUnsigned_of_parts (negative : Bool) {cs ds fs r₁ r₂ : List Char} {power : Option Int}
    (hwhole : readWhole cs = some (ds, r₁)) (hfraction : readFraction r₁ = some (fs, r₂))
    (hpower : readPower r₂ = some (power, rest)) :
    readUnsigned negative cs = some
      ({ negative, coefficient := digitsValue (ds ++ fs), exponent := power.getD 0 - fs.length
         whole := fs.isEmpty && power.isNone }, rest) := by
  unfold readUnsigned
  rw [hwhole]
  dsimp only [bind, Option.bind]
  rw [hfraction]
  dsimp only
  rw [hpower]
  rfl

/-- The parts of a number around its point. -/
theorem fixedPoint_parts (c places : Nat) (hplaces : places ≠ 0) :
    ∃ ds fs, Text.fixedPoint c places = ds ++ '.' :: fs ∧ WholePart ds ∧ fs.length = places
      ∧ (∀ d ∈ fs, d.isDigit = true) ∧ digitsValue (ds ++ fs) = c := by
  have hlength : places + 1 ≤ (Text.paddedDigits (places + 1) c).length := by
    unfold Text.paddedDigits
    rw [List.length_append, List.length_replicate]
    omega
  have hall := fun d => Text.isDigit_of_mem_paddedDigits (w := places + 1) (n := c) (c := d)
  unfold Text.fixedPoint
  rw [if_neg hplaces]
  dsimp only
  refine ⟨_, _, rfl, ?_, ?_, fun d hd => hall d (List.mem_of_mem_drop hd), ?_⟩
  · by_cases hpad : (digits c).length < places + 1
    · -- with zeros in front, one of them stands before the point
      have hpadded : Text.paddedDigits (places + 1) c
          = '0' :: (List.replicate (places - (digits c).length) '0' ++ digits c) := by
        unfold Text.paddedDigits
        rw [show places + 1 - (digits c).length = places - (digits c).length + 1 by omega]
        rfl
      have hone : (Text.paddedDigits (places + 1) c).length - places = 1 := by
        rw [hpadded, List.length_cons, List.length_append, List.length_replicate]
        omega
      rw [hone, hpadded]
      exact Or.inl rfl
    · have hplain : Text.paddedDigits (places + 1) c = digits c := by
        unfold Text.paddedDigits
        rw [show places + 1 - (digits c).length = 0 by omega]
        rfl
      rw [hplain]
      -- two digits or more, so the number is not zero
      have hc : c ≠ 0 := by
        rintro rfl
        have : (digits 0).length = 1 := rfl
        omega
      refine Or.inr ⟨?_, ?_, fun d hd => Text.isDigit_of_mem_digits (List.mem_of_mem_take hd)⟩
      · intro hnil
        have := congrArg List.length hnil
        rw [List.length_take, List.length_nil] at this
        omega
      · rw [List.head?_take, if_neg (by omega)]
        exact Text.head?_digits hc
  · rw [List.length_drop]
    omega
  · rw [List.take_append_drop]
    exact Text.digitsValue_paddedDigits _ c

/-- The characters of a number without its sign. -/
def unsignedText (n : JsonNumber) : List Char :=
  if n.whole then digits n.coefficient
  else if 0 ≤ n.exponent ∨ maxPlaces < n.exponent.natAbs then
    digits n.coefficient ++ 'e' :: writeInt n.exponent
  else Text.fixedPoint n.coefficient n.exponent.natAbs

theorem readUnsigned_write {n : JsonNumber} (hn : n.whole = true → n.exponent = 0)
    (hr : Stops rest) : readUnsigned n.negative (unsignedText n ++ rest) = some (n, rest) := by
  obtain ⟨negative, coefficient, exponent, whole⟩ := n
  have hpoint : ∀ c ∈ rest.head?, c ≠ '.' := fun c hc => (hr c hc).2.1
  unfold unsignedText
  cases whole with
  | true =>
    cases hn rfl
    have hwhole := readWhole_append (wholePart_digits coefficient) hr.noDigit
    have h := readUnsigned_of_parts negative hwhole (readFraction_none hpoint)
      (readPower_none hr)
    rw [List.append_nil, Text.digitsValue_digits] at h
    exact h
  | false =>
    dsimp only
    rw [if_neg Bool.false_ne_true]
    by_cases hpower : 0 ≤ exponent ∨ maxPlaces < exponent.natAbs
    · rw [if_pos hpower, List.append_assoc]
      have hpower : NoDigit ('e' :: (writeInt exponent ++ rest)) := noDigit_cons (by decide)
      have hwhole := readWhole_append (wholePart_digits coefficient) hpower
      have hnone : readFraction ('e' :: (writeInt exponent ++ rest))
          = some ([], 'e' :: (writeInt exponent ++ rest)) :=
        readFraction_none fun c hc => by cases hc; decide
      have h := readUnsigned_of_parts negative hwhole hnone
        (readPower_write exponent hr.noDigit)
      rw [List.append_nil, Text.digitsValue_digits] at h
      simpa using h
    · rw [if_neg hpower]
      -- the exponent is negative, and the digits behind the point make up for it
      obtain ⟨ds, fs, htext, hds, hlength, hfs, hvalue⟩ :=
        fixedPoint_parts coefficient exponent.natAbs (by omega)
      have hne : fs ≠ [] := by
        rintro rfl
        rw [List.length_nil] at hlength
        omega
      rw [htext, List.append_assoc]
      have hpoint : NoDigit ('.' :: (fs ++ rest)) := noDigit_cons (by decide)
      have hwhole := readWhole_append hds hpoint
      have h := readUnsigned_of_parts negative hwhole
        (readFraction_point hne hfs hr.noDigit) (readPower_none hr)
      have hexponent : (0 : Int) - fs.length = exponent := by omega
      have hempty : fs.isEmpty = false := List.isEmpty_eq_false_iff.2 hne
      rw [hvalue, hempty] at h
      simpa [hexponent] using h

/-- A number starts with a sign or a digit. -/
theorem head_unsignedText (n : JsonNumber) :
    ∃ c cs, unsignedText n = c :: cs ∧ c.isDigit = true := by
  have hdigits : ∃ c cs, digits n.coefficient = c :: cs ∧ c.isDigit = true := by
    cases hds : digits n.coefficient with
    | nil => exact absurd hds Nat.toDigits_ne_nil
    | cons c cs =>
      exact ⟨c, cs, rfl, Text.isDigit_of_mem_digits (by rw [hds]; exact List.mem_cons_self)⟩
  obtain ⟨c, cs, hds, hc⟩ := hdigits
  unfold unsignedText
  split
  · exact ⟨c, cs, hds, hc⟩
  · split
    · exact ⟨c, cs ++ 'e' :: writeInt n.exponent, by rw [hds]; rfl, hc⟩
    · rename_i hexponent
      obtain ⟨ds, fs, htext, hpart, _⟩ :=
        fixedPoint_parts n.coefficient n.exponent.natAbs (by omega)
      rw [htext]
      rcases hpart with rfl | ⟨hne, _, hall⟩
      · exact ⟨'0', _, rfl, by decide⟩
      · obtain ⟨d, rest, rfl⟩ := List.exists_cons_of_ne_nil hne
        exact ⟨d, _, rfl, hall d List.mem_cons_self⟩

/-- **A number that is written is read back.** -/
theorem readNumber_writeNumber {n : JsonNumber} (hn : n.whole = true → n.exponent = 0)
    (hr : Stops rest) : readNumber (writeNumber n ++ rest) = some (n, rest) := by
  have h := readUnsigned_write hn hr
  show readNumber (Text.signed n.negative (unsignedText n) ++ rest) = _
  cases hsign : n.negative with
  | true =>
    rw [hsign] at h
    exact h
  | false =>
    rw [hsign] at h
    obtain ⟨c, cs, hcs, hc⟩ := head_unsignedText n
    show readNumber (unsignedText n ++ rest) = _
    rw [hcs] at h ⊢
    show readNumber (c :: (cs ++ rest)) = _
    unfold readNumber
    split
    · -- a digit is no sign
      rename_i heq
      cases heq
      exact absurd hc (by decide)
    · exact h

end Json

end ShapeEstimator
