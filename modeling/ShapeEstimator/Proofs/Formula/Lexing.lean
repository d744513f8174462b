/-
  ShapeEstimator.Proofs.Formula.Lexing
  ────────────────────────────────
  **THE TOKENS OF A TEXT AS A RELATION.**

  A token is the longest one that starts at its place: a character by itself, a literal
  that what follows does not go on with, or a name up to a character that is no part of
  one.  A text has the tokens that it is put together from,

      text  =  token or white space  ⋯  token or white space

  each the longest one before the rest of the text, and these are the tokens that are
  read.
-/
import Mathlib.Data.List.TakeWhile
import ShapeEstimator.Proofs.Formula.Exactness
import ShapeEstimator.Proofs.Formula.Literal

namespace ShapeEstimator.Formula

open Json (NoDigit)

/-! ## §1. Character classes. -/

/-- The code points of white space. -/
def blankCodes : List ℕ :=
  [9, 10, 11, 12, 13, 0x2000, 0x2001, 0x2002, 0x2003, 0x2004, 0x2005, 0x2006, 0x2007, 0x2008,
    0x2009, 0x200A] ++ Text.singleBlanks

theorem mem_blankCodes {c : Char} (h : Text.isBlank c = true) : c.toNat ∈ blankCodes := by
  unfold Text.isBlank at h
  rw [Bool.or_eq_true, Bool.or_eq_true, Bool.and_eq_true, Bool.and_eq_true] at h
  simp only [decide_eq_true_eq] at h
  unfold blankCodes
  rw [List.mem_append]
  rcases h with (⟨hlow, hhigh⟩ | ⟨hlow, hhigh⟩) | hsingle
  · left
    simp only [List.mem_cons, List.not_mem_nil, or_false]
    omega
  · left
    simp only [List.mem_cons, List.not_mem_nil, or_false]
    omega
  · right
    simpa using hsingle

/-- What holds of the characters with the code points of white space holds of white space. -/
theorem of_isBlank {P : Char → Bool} (h : blankCodes.all (fun n => P (Char.ofNat n)) = true)
    {c : Char} (hc : Text.isBlank c = true) : P c = true := by
  have hcode := List.all_eq_true.1 h c.toNat (mem_blankCodes hc)
  rwa [Char.ofNat_toNat] at hcode

/-- White space lies between the ranges of letters and of numeric characters. -/
theorem blank_outside_ranges :
    (Text.alphabeticRanges.toList ++ Text.numericRanges.toList).all (fun r =>
      blankCodes.all fun n => n.blt r.1 || r.2.blt n) = true := by
  decide +kernel

theorem any_ranges_of_isBlank {ranges : Array (ℕ × ℕ)} {c : Char} (hc : Text.isBlank c = true)
    (h : ∀ r ∈ ranges, r ∈ Text.alphabeticRanges.toList ++ Text.numericRanges.toList) :
    (ranges.any fun r => r.1 ≤ c.toNat && c.toNat ≤ r.2) = false := by
  rw [Array.any_eq_false']
  intro r hr
  have hcodes := List.all_eq_true.1 blank_outside_ranges r (h r hr)
  have hout := List.all_eq_true.1 hcodes c.toNat (mem_blankCodes hc)
  simp only [Bool.or_eq_true, Nat.blt_eq] at hout
  simp only [Bool.and_eq_true, decide_eq_true_eq]
  omega

/-- White space is no part of a name. -/
theorem notNamePart_of_isBlank {c : Char} (hc : Text.isBlank c = true) : isNamePart c = false := by
  have hletter := any_ranges_of_isBlank hc fun r hr =>
    List.mem_append_left Text.numericRanges.toList (Array.mem_toList_iff.2 hr)
  have hnumeric := any_ranges_of_isBlank hc fun r hr =>
    List.mem_append_right Text.alphabeticRanges.toList (Array.mem_toList_iff.2 hr)
  have hlow := of_isBlank (P := fun c => !c.isAlpha && !c.isDigit && c != '_') (by decide) hc
  simp only [Bool.and_eq_true, Bool.not_eq_true', bne_iff_ne] at hlow
  unfold isNamePart Text.isAlphabetic Text.isNumeric
  rw [hletter, hnumeric, hlow.1.1, hlow.1.2]
  simp [hlow.2]

/-- White space is no part of a token. -/
theorem noPart_of_isBlank {c : Char} (hc : Text.isBlank c = true) :
    simpleToken? c = none ∧ isNamePart c = false ∧ c.isDigit = false ∧ c ∉ ['.', 'e', 'E'] := by
  have h := of_isBlank (P := fun c => decide (simpleToken? c = none ∧ c.isDigit = false
    ∧ c ∉ ['.', 'e', 'E'])) (by decide) hc
  obtain ⟨hsimple, hrest⟩ := of_decide_eq_true h
  exact ⟨hsimple, notNamePart_of_isBlank hc, hrest⟩

/-- The characters that are tokens by themselves. -/
theorem mem_of_simpleToken {c : Char} {kind : TokenKind} (h : simpleToken? c = some kind) :
    c ∈ ['+', '-', '*', '/', '%', '^', '(', ')', ','] := by
  unfold simpleToken? at h
  split at h
  all_goals first | decide | cases h

/-- The digits. -/
theorem mem_of_isDigit {c : Char} (h : c.isDigit = true) :
    c ∈ ['0', '1', '2', '3', '4', '5', '6', '7', '8', '9'] := by
  have hcode : c.toNat ∈ List.range' 48 10 := by
    simp only [Char.isDigit, Bool.and_eq_true, decide_eq_true_eq] at h
    rw [List.mem_range'_1]
    exact ⟨h.1, Nat.lt_succ_of_le h.2⟩
  have hall : ∀ n ∈ List.range' 48 10,
      Char.ofNat n ∈ ['0', '1', '2', '3', '4', '5', '6', '7', '8', '9'] := by decide
  have hmem := hall c.toNat hcode
  rwa [Char.ofNat_toNat] at hmem

/-- A name starts with a character that nothing else starts with. -/
theorem onlyName_of_isNameStart {c : Char} (h : isNameStart c = true) :
    simpleToken? c = none ∧ Text.isBlank c = false ∧ c.isDigit = false ∧ c ≠ '.' := by
  have hpart : isNamePart c = true := by
    unfold isNameStart at h
    unfold isNamePart
    rcases Bool.or_eq_true_iff.1 h with h | h <;> simp [h]
  refine ⟨?_, ?_, ?_, ?_⟩
  · rw [Option.eq_none_iff_forall_ne_some]
    intro kind hkind
    have hnone : ['+', '-', '*', '/', '%', '^', '(', ')', ','].all (!isNameStart ·) = true := by
      decide
    have hc := List.all_eq_true.1 hnone c (mem_of_simpleToken hkind)
    rw [h] at hc
    cases hc
  · rw [← Bool.not_eq_true]
    intro hblank
    rw [(noPart_of_isBlank hblank).2.1] at hpart
    cases hpart
  · rw [← Bool.not_eq_true]
    intro hdigit
    have hnone : ['0', '1', '2', '3', '4', '5', '6', '7', '8', '9'].all (!isNameStart ·) = true := by
      decide
    have hc := List.all_eq_true.1 hnone c (mem_of_isDigit hdigit)
    rw [h] at hc
    cases hc
  · rintro rfl
    exact absurd h (by decide)

/-! ## §2. Literals at the start of a text. -/

theorem noDigit_dropWhile (cs : List Char) : NoDigit (cs.dropWhile Char.isDigit) := by
  intro c hc
  have hhead := List.head?_dropWhile_not Char.isDigit cs
  rw [Option.mem_def.1 hc] at hhead
  exact hhead

theorem allDigits_takeWhile (cs : List Char) : AllDigits (cs.takeWhile Char.isDigit) :=
  fun _ hc => List.mem_takeWhile_imp hc

/-- A text starts with the sign that is found in it. -/
theorem exists_sign (cs : List Char) : ∃ sign : Option Sign,
    ∀ p : WrittenPower, p.sign = sign → p.signText ++ (Numeral.scanSign cs).2 = cs := by
  unfold Numeral.scanSign
  split
  · exact ⟨some .negative, fun p hp => by rw [WrittenPower.signText, hp]; rfl⟩
  · exact ⟨some .positive, fun p hp => by rw [WrittenPower.signText, hp]; rfl⟩
  · exact ⟨none, fun p hp => by rw [WrittenPower.signText, hp]; rfl⟩

/-- A power of ten that is found is a written one, up to a character that is no digit. -/
theorem exists_writtenPower {cs : List Char} (h : (Numeral.scanPower cs).1 ≠ none) :
    ∃ (p : WrittenPower) (rest : List Char), cs = p.text ++ rest ∧ NoDigit rest := by
  cases cs with
  | nil => exact absurd rfl h
  | cons c cs =>
    unfold Numeral.scanPower at h
    dsimp only at h
    split at h
    · rename_i hpower
      obtain ⟨sign, hsign⟩ := exists_sign cs
      let p : WrittenPower := ⟨c, hpower.1, sign, _, allDigits_takeWhile _, hpower.2⟩
      refine ⟨p, (Numeral.scanSign cs).2.dropWhile Char.isDigit, ?_, noDigit_dropWhile _⟩
      calc c :: cs = c :: (p.signText ++ (Numeral.scanSign cs).2) := by rw [hsign p rfl]
        _ = c :: (p.signText ++ (p.digits ++ (Numeral.scanSign cs).2.dropWhile Char.isDigit)) := by
            rw [List.takeWhile_append_dropWhile]
        _ = p.text ++ (Numeral.scanSign cs).2.dropWhile Char.isDigit := by
            rw [WrittenPower.text, List.cons_append, List.append_assoc]
    · exact absurd rfl h

/-- The power of ten at the start of a text, if there is one. -/
theorem exists_power {cs : List Char} (hcs : NoDigit cs) :
    ∃ (power : Option WrittenPower) (rest : List Char),
      cs = power.elim [] WrittenPower.text ++ rest ∧ NoDigit rest
        ∧ (power = none → (Numeral.scanPower rest).1 = none ∧ rest = cs) := by
  by_cases hpower : (Numeral.scanPower cs).1 = none
  · exact ⟨none, cs, rfl, hcs, fun _ => ⟨hpower, rfl⟩⟩
  · obtain ⟨p, rest, htext, hrest⟩ := exists_writtenPower hpower
    exact ⟨some p, rest, htext, hrest, fun h => absurd h (Option.some_ne_none p)⟩

/-- The point and the digits behind it, if there is one. -/
theorem exists_fraction {cs : List Char} (hcs : NoDigit cs) :
    ∃ (fraction : Option (List Char)) (rest : List Char),
      cs = fraction.elim [] ('.' :: ·) ++ rest ∧ AllDigits (fraction.getD []) ∧ NoDigit rest
        ∧ (fraction = none → rest.head? ≠ some '.' ∧ rest = cs) := by
  cases cs with
  | nil => exact ⟨none, [], rfl, by simp [AllDigits], hcs, fun _ => ⟨by simp, rfl⟩⟩
  | cons c cs =>
    by_cases hc : c = '.'
    · refine ⟨some (cs.takeWhile Char.isDigit), cs.dropWhile Char.isDigit, ?_,
        allDigits_takeWhile cs, noDigit_dropWhile cs, fun h => absurd h (Option.some_ne_none _)⟩
      rw [hc, Option.elim_some, List.cons_append, List.takeWhile_append_dropWhile]
    · exact ⟨none, c :: cs, rfl, by simp [AllDigits], hcs,
        fun _ => ⟨fun h => hc (Option.some.inj h), rfl⟩⟩

/-- A numeral starts with a digit, or with a point and a digit. -/
theorem startsAt_cases {cs : List Char} (h : Numeral.startsAt cs = true) :
    (∃ c rest, cs = c :: rest ∧ c.isDigit = true)
      ∨ ∃ d rest, cs = '.' :: d :: rest ∧ d.isDigit = true := by
  unfold Numeral.startsAt at h
  split at h
  · exact Or.inr ⟨_, _, rfl, h⟩
  · exact Or.inl ⟨_, _, rfl, h⟩
  · cases h

/-- A numeral starts with a character that is neither a token by itself nor white space. -/
theorem noOther_of_startsAt {c : Char} {rest : List Char}
    (h : Numeral.startsAt (c :: rest) = true) :
    simpleToken? c = none ∧ Text.isBlank c = false := by
  have hc : c ∈ ['.', '0', '1', '2', '3', '4', '5', '6', '7', '8', '9'] := by
    rcases startsAt_cases h with ⟨_, _, heq, hdigit⟩ | ⟨_, _, heq, -⟩
    · obtain rfl := (List.cons.inj heq).1
      exact List.mem_cons_of_mem _ (mem_of_isDigit hdigit)
    · obtain rfl := (List.cons.inj heq).1
      exact List.mem_cons_self
  have hall : ['.', '0', '1', '2', '3', '4', '5', '6', '7', '8', '9'].all (fun c =>
      decide (simpleToken? c = none ∧ Text.isBlank c = false)) = true := by decide
  exact of_decide_eq_true (List.all_eq_true.1 hall c hc)

/-- **A numeral is a literal**: where one starts, the text goes on with a literal as long as it can. -/
theorem exists_literal {cs : List Char} (h : Numeral.startsAt cs = true) :
    ∃ (l : Literal) (rest : List Char), cs = l.text ++ rest ∧ l.EndsBefore rest := by
  obtain ⟨fraction, behind, hfraction, hdigits, hbehind, hpoint⟩ :=
    exists_fraction (noDigit_dropWhile cs)
  obtain ⟨power, rest, hpower, hrest, hnone⟩ := exists_power hbehind
  have hcs : cs = cs.takeWhile Char.isDigit ++ (fraction.elim [] ('.' :: ·) ++ behind) := by
    rw [← hfraction, List.takeWhile_append_dropWhile]
  have hne : cs.takeWhile Char.isDigit ≠ [] ∨ fraction.getD [] ≠ [] := by
    rcases startsAt_cases h with ⟨c, tail, rfl, hc⟩ | ⟨d, tail, rfl, hd⟩
    · left
      rw [List.takeWhile_cons_of_pos hc]
      exact List.cons_ne_nil _ _
    · right
      rw [List.dropWhile_cons_of_neg (by decide)] at hfraction hpoint
      intro hnil
      -- the digit behind the point would be left over
      cases fraction with
      | none => exact (hpoint rfl).1 (by rw [(hpoint rfl).2]; rfl)
      | some ds =>
        obtain rfl : ds = [] := hnil
        obtain rfl := (List.cons.inj hfraction).2
        have hnot := hbehind d rfl
        rw [hd] at hnot
        cases hnot
  let l : Literal :=
    ⟨cs.takeWhile Char.isDigit, fraction, power, allDigits_takeWhile cs, hdigits, hne⟩
  refine ⟨l, rest, ?_, hrest, fun hp => (hnone hp).1, fun hf hp => ?_⟩
  · have hfractionText : l.fractionText = fraction.elim [] ('.' :: ·) := by
      cases fraction <;> rfl
    rw [Literal.text, Literal.powerText, hfractionText, List.append_assoc, List.append_assoc,
      ← hpower]
    exact hcs
  · rw [(hnone hp).2]
    exact (hpoint hf).1

/-! ## §3. The relation. -/

/-- The longest token at the start of a text: what it is, its characters, and what follows them. -/
inductive LongestToken : TokenKind → List Char → List Char → Prop where
  /-- A character that is a token by itself. -/
  | simple {c : Char} {kind : TokenKind} {rest : List Char} (single : simpleToken? c = some kind) :
      LongestToken kind [c] rest
  /-- A literal that what follows does not go on with. -/
  | number {l : Literal} {value : Decimal} {rest : List Char} (ends : l.EndsBefore rest)
      (read : l.numeral.value? = some value) : LongestToken (.number value) l.text rest
  /-- A name that what follows does not go on with. -/
  | name {c : Char} {cs rest : List Char} (start : isNameStart c = true)
      (parts : ∀ a ∈ cs, isNamePart a = true) (ends : ∀ a ∈ rest.head?, isNamePart a = false) :
      LongestToken (.name (String.ofList (c :: cs))) (c :: cs) rest

/-- The tokens that a text is put together from, with white space around them.  The text starts at
a position, and the end of the text is the last token. -/
inductive Lexes : ℕ → List Char → List Token → Prop where
  | finish {position : ℕ} : Lexes position [] [⟨.finish, position, []⟩]
  | blank {position : ℕ} {c : Char} {rest : List Char} {ts : List Token}
      (white : Text.isBlank c = true) (more : Lexes (position + 1) rest ts) :
      Lexes position (c :: rest) ts
  | token {position : ℕ} {kind : TokenKind} {lexeme rest : List Char} {ts : List Token}
      (longest : LongestToken kind lexeme rest)
      (more : Lexes (position + lexeme.length) rest ts) :
      Lexes position (lexeme ++ rest) (⟨kind, position, lexeme⟩ :: ts)

/-- The tokens that are read are tokens of the text. -/
theorem lexes_of_tokensFrom (position : ℕ) (cs : List Char) :
    ∀ ts, tokensFrom position cs = .ok ts → Lexes position cs ts := by
  fun_induction tokensFrom position cs with
  | case1 position =>
    intro ts h
    cases h
    exact .finish
  | case2 position c rest kind hkind ih =>
    intro ts h
    obtain ⟨more, hmore, h⟩ := bind_eq_ok.1 h
    cases h
    show Lexes position ([c] ++ rest) _
    exact .token (.simple hkind) (ih more hmore)
  | case3 position c rest hsimple hblank ih =>
    intro ts h
    exact .blank hblank (ih ts h)
  | case4 => intro ts h; cases h
  | case5 position c rest hsimple hblank hstart scanned lexeme value hvalue ih =>
    intro ts h
    obtain ⟨more, hmore, h⟩ := bind_eq_ok.1 h
    cases h
    obtain ⟨l, behind, hcs, hends⟩ := exists_literal hstart
    have hscanned : scanned = (l.numeral, behind) := by
      show Numeral.scan (c :: rest) = _
      rw [hcs, Literal.scan_text hends]
    have hlexeme : lexeme = l.text := by
      show (c :: rest).take ((c :: rest).length - scanned.2.length) = _
      rw [hscanned, hcs]
      simp
    have hmore := ih more hmore
    rw [hscanned, hlexeme] at hmore
    rw [hscanned] at hvalue
    rw [hlexeme, hcs]
    exact .token (.number hends hvalue) hmore
  | case6 position c rest hsimple hblank hstart hname lexeme ih =>
    intro ts h
    obtain ⟨more, hmore, h⟩ := bind_eq_ok.1 h
    cases h
    have hends : ∀ a ∈ (rest.dropWhile isNamePart).head?, isNamePart a = false := by
      intro a ha
      have hhead := List.head?_dropWhile_not isNamePart rest
      rw [Option.mem_def.1 ha] at hhead
      exact hhead
    have hcs : c :: rest = lexeme ++ rest.dropWhile isNamePart := by
      rw [List.cons_append, List.takeWhile_append_dropWhile]
    rw [hcs]
    exact .token (.name hname (fun _ ha => List.mem_takeWhile_imp ha) hends) (ih more hmore)
  | case7 => intro ts h; cases h

/-- A token is read as the longest one at its place. -/
theorem tokensFrom_of_longestToken {position : ℕ} {kind : TokenKind} {lexeme rest : List Char}
    {ts : List Token} (h : LongestToken kind lexeme rest)
    (hts : tokensFrom (position + lexeme.length) rest = .ok ts) :
    tokensFrom position (lexeme ++ rest) = .ok (⟨kind, position, lexeme⟩ :: ts) := by
  cases h with
  | simple single =>
    rw [List.singleton_append, tokensFrom, single]
    exact bind_eq_ok.2 ⟨ts, hts, rfl⟩
  | @number l value _ ends read =>
    have hstart := l.startsAt_text rest
    have hscan := Literal.scan_text ends
    have hlexeme : (l.text ++ rest).take ((l.text ++ rest).length - rest.length) = l.text := by
      simp
    generalize hcs : l.text ++ rest = cs at hstart hscan hlexeme ⊢
    cases cs with
    | nil => cases hstart
    | cons c tail =>
      obtain ⟨hsimple, hblank⟩ := noOther_of_startsAt hstart
      rw [tokensFrom, hsimple]
      dsimp only
      rw [if_neg (by rw [hblank]; exact Bool.false_ne_true), dif_pos hstart, hscan]
      dsimp only
      rw [read, hlexeme]
      exact bind_eq_ok.2 ⟨ts, hts, rfl⟩
  | @name c cs _ start parts ends =>
    obtain ⟨hsimple, hblank, hdigit, hpoint⟩ := onlyName_of_isNameStart start
    have hstart : ¬ Numeral.startsAt (c :: (cs ++ rest)) = true := by
      intro hstart
      rcases startsAt_cases hstart with ⟨_, _, heq, hd⟩ | ⟨_, _, heq, -⟩
      · rw [← (List.cons.inj heq).1, hdigit] at hd
        cases hd
      · exact hpoint (List.cons.inj heq).1
    -- the name is what the scanner takes, up to the character behind it
    have hrest : rest.takeWhile isNamePart = [] ∧ rest.dropWhile isNamePart = rest := by
      cases rest with
      | nil => exact ⟨rfl, rfl⟩
      | cons a tail =>
        have ha : ¬ isNamePart a = true := by rw [ends a rfl]; exact Bool.false_ne_true
        exact ⟨List.takeWhile_cons_of_neg ha, List.dropWhile_cons_of_neg ha⟩
    have htake : (cs ++ rest).takeWhile isNamePart = cs := by
      rw [List.takeWhile_append_of_pos parts, hrest.1, List.append_nil]
    have hdrop : (cs ++ rest).dropWhile isNamePart = rest := by
      rw [List.dropWhile_append_of_pos parts, hrest.2]
    rw [List.cons_append, tokensFrom, hsimple]
    dsimp only
    rw [if_neg (by rw [hblank]; exact Bool.false_ne_true), dif_neg hstart, if_pos start, htake, hdrop]
    exact bind_eq_ok.2 ⟨ts, hts, rfl⟩

/-- **The tokens that are read are the tokens of the text.** -/
theorem tokensFrom_eq_ok_iff {position : ℕ} {cs : List Char} {ts : List Token} :
    tokensFrom position cs = .ok ts ↔ Lexes position cs ts := by
  refine ⟨lexes_of_tokensFrom position cs ts, fun h => ?_⟩
  induction h with
  | finish => rw [tokensFrom]
  | blank white _ ih =>
    rw [tokensFrom, (noPart_of_isBlank white).1]
    dsimp only
    rw [if_pos white]
    exact ih
  | token longest _ ih => exact tokensFrom_of_longestToken longest ih

end ShapeEstimator.Formula
