/-
  ShapeEstimator.Proofs.Formula.Layout
  ────────────────────────────────
  **TOKENS LOSE NOTHING, AND LAYOUT DOES NOT MATTER.**

  The tokens of a text stand where they were read, one behind the other, and all that
  is not in one of them is white space:

      text without white space  =  lexeme ++ lexeme ++ ⋯ ++ lexeme

  White space may be put in wherever no token is torn apart.  What a token is depends on
  what follows it only up to the next white space: a run of other characters behind it
  in the new text is such a run in the old one, so nothing can go on with the token that
  did not before.
-/
import ShapeEstimator.Proofs.Formula.FirstFault
import ShapeEstimator.Proofs.Formula.Lexing

namespace ShapeEstimator.Formula

open Json (NoDigit noDigit_cons)

variable {kind : TokenKind} {lexeme rest rest' cs cs' : List Char} {position : ℕ}
  {ts : List Token}

/-! ## §1. A token and what follows it. -/

/-- Whatever follows without white space between in a new text did so in the old one. -/
def RunsOf (rest' rest : List Char) : Prop :=
  ∀ run, (∀ c ∈ run, Text.isBlank c = false) → run <+: rest' → run <+: rest

theorem runsOf_nil : RunsOf [] rest := by
  intro run _ hrun
  rw [List.prefix_nil.1 hrun]
  exact List.nil_prefix

/-- A character in front of the new text is in front of the old one. -/
theorem RunsOf.head? (h : RunsOf rest' rest) {c : Char} (hc : Text.isBlank c = false)
    (hhead : rest'.head? = some c) : rest.head? = some c := by
  obtain ⟨more, rfl⟩ := List.head?_eq_some_iff.1 hhead
  obtain ⟨tail, htail⟩ := h [c] (by simpa using hc) ⟨more, rfl⟩
  rw [← htail]
  rfl

theorem notBlank_of_isDigit {c : Char} (hc : c.isDigit = true) : Text.isBlank c = false := by
  rw [← Bool.not_eq_true]
  intro hblank
  rw [(noPart_of_isBlank hblank).2.2.1] at hc
  cases hc

theorem notBlank_of_isNamePart {c : Char} (hc : isNamePart c = true) : Text.isBlank c = false := by
  rw [← Bool.not_eq_true]
  intro hblank
  rw [(noPart_of_isBlank hblank).2.1] at hc
  cases hc

/-- There is no white space in a power of ten. -/
theorem WrittenPower.notBlank {p : WrittenPower} {c : Char} (hc : c ∈ p.text) :
    Text.isBlank c = false := by
  unfold text signText at hc
  rw [List.mem_cons, List.mem_append] at hc
  rcases hc with rfl | hsign | hdigit
  · rcases p.letter_eq with h | h <;> rw [h] <;> decide
  · cases hs : p.sign with
    | none =>
      rw [hs] at hsign
      exact absurd hsign List.not_mem_nil
    | some sign =>
      rw [hs] at hsign
      cases sign <;> rw [List.mem_singleton.1 hsign] <;> decide
  · exact notBlank_of_isDigit (p.allDigits c hdigit)

/-- There is no white space in a literal. -/
theorem Literal.notBlank {l : Literal} {c : Char} (hc : c ∈ l.text) : Text.isBlank c = false := by
  unfold text at hc
  rw [List.mem_append, List.mem_append] at hc
  rcases hc with hwhole | hfraction | hpower
  · exact notBlank_of_isDigit (l.whole_allDigits c hwhole)
  · have hdigits := l.fraction_allDigits
    unfold fractionText at hfraction
    cases hf : l.fraction with
    | none =>
      rw [hf] at hfraction
      exact absurd hfraction List.not_mem_nil
    | some ds =>
      rw [hf] at hfraction hdigits
      rcases List.mem_cons.1 hfraction with rfl | hdigit
      · decide
      · exact notBlank_of_isDigit (hdigits c hdigit)
  · unfold powerText at hpower
    cases hp : l.power with
    | none =>
      rw [hp] at hpower
      exact absurd hpower List.not_mem_nil
    | some p =>
      rw [hp] at hpower
      exact p.notBlank hpower

/-- A power of ten is found in front of anything. -/
theorem WrittenPower.scanPower_ne_none (p : WrittenPower) (rest : List Char) :
    (Numeral.scanPower (p.text ++ rest)).1 ≠ none := by
  rw [text, List.cons_append, Numeral.scanPower]
  have hdigits : (p.digits ++ rest).takeWhile Char.isDigit ≠ [] := by
    obtain ⟨d, ds, hds⟩ := List.exists_cons_of_ne_nil p.digits_ne_nil
    have hd : d.isDigit = true := p.allDigits d (hds ▸ List.mem_cons_self)
    rw [hds, List.cons_append, List.takeWhile_cons_of_pos hd]
    exact List.cons_ne_nil _ _
  simp only [p.scanSign_text]
  rw [if_pos ⟨p.letter_eq, hdigits⟩]
  exact Option.some_ne_none _

/-- What does not go on with a literal does not do so with white space in it. -/
theorem Literal.EndsBefore.respaced {l : Literal} (h : l.EndsBefore rest)
    (hruns : RunsOf rest' rest) :
    l.EndsBefore rest' where
  noDigit c hc := by
    rw [← Bool.not_eq_true]
    intro hdigit
    have hold := h.noDigit c (hruns.head? (notBlank_of_isDigit hdigit) hc)
    rw [hdigit] at hold
    cases hold
  noPower hp := by
    by_contra hpower
    -- the power of ten would stand in the old text already
    obtain ⟨p, more, rfl, -⟩ := exists_writtenPower hpower
    obtain ⟨tail, rfl⟩ := hruns p.text (fun c hc => p.notBlank hc) (List.prefix_append _ _)
    exact p.scanPower_ne_none tail (h.noPower hp)
  noPoint hf hp hpoint := h.noPoint hf hp (hruns.head? (by decide) hpoint)

namespace LongestToken

/-- There is no white space in a token. -/
theorem notBlank (h : LongestToken kind lexeme rest) : ∀ c ∈ lexeme, Text.isBlank c = false := by
  intro a ha
  cases h with
  | simple single =>
    obtain rfl := List.mem_singleton.1 ha
    rw [← Bool.not_eq_true]
    intro hblank
    rw [(noPart_of_isBlank hblank).1] at single
    cases single
  | number _ _ => exact Literal.notBlank ha
  | name start parts _ =>
    rcases List.mem_cons.1 ha with rfl | ha
    · exact (onlyName_of_isNameStart start).2.1
    · exact notBlank_of_isNamePart (parts a ha)

theorem ne_nil (h : LongestToken kind lexeme rest) : lexeme ≠ [] := by
  cases h with
  | simple _ => exact List.cons_ne_nil _ _
  | @number l _ _ _ _ =>
    intro hnil
    have hstart := l.startsAt_text []
    rw [hnil] at hstart
    cases hstart
  | name _ _ _ => exact List.cons_ne_nil _ _

/-- **The extent of a token does not depend on layout.**  White space in what follows it leaves it the
longest one at its place. -/
theorem respaced (h : LongestToken kind lexeme rest) (hruns : RunsOf rest' rest) :
    LongestToken kind lexeme rest' := by
  cases h with
  | simple single => exact .simple single
  | number ends read => exact .number (ends.respaced hruns) read
  | name start parts ends =>
    refine .name start parts fun a ha => ?_
    rw [← Bool.not_eq_true]
    intro hpart
    have hold := ends a (hruns.head? (notBlank_of_isNamePart hpart) ha)
    rw [hpart] at hold
    cases hold

end LongestToken

/-! ## §2. Where tokens stand. -/

/-- Where the tokens of a text stand, and what is left out. -/
structure Layout (text : List Char) (ts : List Token) : Prop where
  /-- Each token stands behind the one before it. -/
  increasing : ts.Pairwise fun t u => t.position < u.position
  /-- The text of a token starts at its position. -/
  placed : ∀ t ∈ ts, t.lexeme <+: text.drop t.position
  /-- The texts of the tokens are the text without its white space. -/
  complete : ts.flatMap (·.lexeme) = text.filter fun c => !Text.isBlank c
  /-- The text of a token is read as this token by itself. -/
  alone : ∀ t ∈ ts, t.kind ≠ .finish → tokens (String.ofList t.lexeme)
    = .ok [⟨t.kind, 0, t.lexeme⟩, ⟨.finish, t.lexeme.length, []⟩]

namespace Lexes

theorem le_position (h : Lexes position cs ts) : ∀ t ∈ ts, position ≤ t.position :=
  (pairwise_tokensFrom position cs ts (tokensFrom_eq_ok_iff.2 h)).1

theorem placed (h : Lexes position cs ts) :
    ∀ t ∈ ts, t.lexeme <+: cs.drop (t.position - position) := by
  induction h with
  | finish =>
    intro t ht
    rw [List.mem_singleton.1 ht]
    exact List.nil_prefix
  | @blank position c rest ts _ more ih =>
    intro t ht
    have hle : position + 1 ≤ t.position := more.le_position t ht
    rw [show t.position - position = t.position - (position + 1) + 1 by omega, List.drop_succ_cons]
    exact ih t ht
  | @token position kind lexeme rest ts _ more ih =>
    intro t ht
    rcases List.mem_cons.1 ht with rfl | ht
    · rw [Nat.sub_self, List.drop_zero]
      exact List.prefix_append _ _
    · have hle : position + lexeme.length ≤ t.position := more.le_position t ht
      rw [show t.position - position = lexeme.length + (t.position - (position + lexeme.length)) by
        omega, ← List.drop_drop, List.drop_left]
      exact ih t ht

theorem complete (h : Lexes position cs ts) :
    ts.flatMap (·.lexeme) = cs.filter fun c => !Text.isBlank c := by
  induction h with
  | finish => rfl
  | blank white _ ih =>
    rw [List.filter_cons_of_neg (by simp [white])]
    exact ih
  | @token _ _ lexeme _ _ longest _ ih =>
    have hlexeme : lexeme.filter (fun c => !Text.isBlank c) = lexeme :=
      List.filter_eq_self.2 fun c hc => by rw [longest.notBlank c hc]; rfl
    rw [List.flatMap_cons, List.filter_append, ih, hlexeme]

theorem alone (h : Lexes position cs ts) :
    ∀ t ∈ ts, t.kind ≠ .finish → tokens (String.ofList t.lexeme)
      = .ok [⟨t.kind, 0, t.lexeme⟩, ⟨.finish, t.lexeme.length, []⟩] := by
  induction h with
  | finish =>
    intro t ht hkind
    rw [List.mem_singleton.1 ht] at hkind
    exact absurd rfl hkind
  | blank _ _ ih => exact ih
  | @token position kind lexeme rest ts longest _ ih =>
    intro t ht hkind
    rcases List.mem_cons.1 ht with rfl | ht
    · have halone : tokensFrom 0 (lexeme ++ [])
          = .ok [⟨kind, 0, lexeme⟩, ⟨.finish, 0 + lexeme.length, []⟩] :=
        tokensFrom_of_longestToken (longest.respaced runsOf_nil) (by rw [tokensFrom])
      rw [List.append_nil, Nat.zero_add] at halone
      unfold tokens
      rw [String.toList_ofList]
      exact halone
    · exact ih t ht hkind

theorem layout (h : Lexes 0 cs ts) : Layout cs ts where
  increasing := (pairwise_tokensFrom 0 cs ts (tokensFrom_eq_ok_iff.2 h)).2
  placed := h.placed
  complete := h.complete
  alone := h.alone

/-- White space in front of a text only moves its tokens. -/
theorem blanks {gap : List Char} (hgap : ∀ c ∈ gap, Text.isBlank c = true)
    (h : Lexes (position + gap.length) cs ts) : Lexes position (gap ++ cs) ts := by
  induction gap generalizing position with
  | nil => exact h
  | cons c gap ih =>
    refine .blank (hgap c List.mem_cons_self) ?_
    refine ih (fun a ha => hgap a (List.mem_cons_of_mem _ ha)) ?_
    rwa [List.length_cons, ← Nat.add_assoc, Nat.add_right_comm] at h

end Lexes

/-! ## §3. White space that is put in. -/

/-- A text with white space put in at places where it is allowed. -/
inductive Spaced (allowed : ℕ → Prop) : ℕ → List Char → List Char → Prop where
  /-- The end of the text. -/
  | done {position : ℕ} : Spaced allowed position [] []
  /-- A character of the text. -/
  | keep {position : ℕ} {c : Char} {cs cs' : List Char}
      (more : Spaced allowed (position + 1) cs cs') : Spaced allowed position (c :: cs) (c :: cs')
  /-- White space that is put in. -/
  | insert {position : ℕ} {c : Char} {cs cs' : List Char} (place : allowed position)
      (white : Text.isBlank c = true) (more : Spaced allowed position cs cs') :
      Spaced allowed position cs (c :: cs')

/-- A place before the first token, behind the last one, or between two of them. -/
def Outside (ts : List Token) (place : ℕ) : Prop :=
  ∀ t ∈ ts, place ≤ t.position ∨ t.position + t.lexeme.length ≤ place

namespace Spaced

variable {allowed allowed' : ℕ → Prop}

theorem mono (hallowed : ∀ place, allowed place → allowed' place)
    (h : Spaced allowed position cs cs') : Spaced allowed' position cs cs' := by
  induction h with
  | done => exact .done
  | keep _ ih => exact .keep ih
  | insert place white _ ih => exact .insert (hallowed _ place) white ih

/-- White space that is put in makes no new runs of other characters. -/
theorem runsOf (h : Spaced allowed position cs cs') : RunsOf cs' cs := by
  induction h with
  | done => exact runsOf_nil
  | @keep _ c cs cs' _ ih =>
    intro run hrun hprefix
    cases run with
    | nil => exact List.nil_prefix
    | cons a run =>
      obtain ⟨rfl, hmore⟩ := List.cons_prefix_cons.1 hprefix
      refine List.cons_prefix_cons.2 ⟨rfl, ih run (fun b hb => ?_) hmore⟩
      exact hrun b (List.mem_cons_of_mem _ hb)
  | @insert _ c cs cs' _ white _ _ =>
    intro run hrun hprefix
    cases run with
    | nil => exact List.nil_prefix
    | cons a run =>
      -- a run cannot start with white space
      obtain ⟨rfl, _⟩ := List.cons_prefix_cons.1 hprefix
      rw [hrun a List.mem_cons_self] at white
      cases white

theorem of_nil (h : Spaced allowed position [] cs') : ∀ c ∈ cs', Text.isBlank c = true := by
  generalize hcs : ([] : List Char) = cs at h
  induction h with
  | done => exact fun a ha => absurd ha List.not_mem_nil
  | keep _ _ => cases hcs
  | insert _ white _ ih =>
    intro a ha
    rcases List.mem_cons.1 ha with rfl | ha
    · exact white
    · exact ih hcs a ha

/-- What stands before the first character of a text is white space. -/
theorem of_cons {c : Char} (h : Spaced allowed position (c :: cs) cs') :
    ∃ gap more, (∀ a ∈ gap, Text.isBlank a = true) ∧ cs' = gap ++ c :: more
      ∧ Spaced allowed (position + 1) cs more := by
  generalize hcs : c :: cs = ds at h
  induction h with
  | done => cases hcs
  | @keep _ d _ more hmore _ =>
    cases hcs
    exact ⟨[], more, fun a ha => absurd ha List.not_mem_nil, rfl, hmore⟩
  | @insert _ b _ _ _ white _ ih =>
    obtain ⟨gap, more, hgap, rfl, hmore⟩ := ih hcs
    refine ⟨b :: gap, more, fun a ha => ?_, rfl, hmore⟩
    rcases List.mem_cons.1 ha with rfl | ha
    · exact white
    · exact hgap a ha

/-- Where nothing may be put in, nothing is. -/
theorem of_append {text : List Char} (h : Spaced allowed position (text ++ cs) cs')
    (hno : ∀ i < text.length, ¬ allowed (position + i)) :
    ∃ more, cs' = text ++ more ∧ Spaced allowed (position + text.length) cs more := by
  induction text generalizing position cs' with
  | nil => exact ⟨cs', rfl, h⟩
  | cons c text ih =>
    cases h with
    | keep h =>
      obtain ⟨more, rfl, hmore⟩ := ih h fun i hi => by
        have hplace := hno (i + 1) (Nat.succ_lt_succ hi)
        rwa [← Nat.add_assoc, Nat.add_right_comm] at hplace
      refine ⟨more, rfl, ?_⟩
      rwa [List.length_cons, ← Nat.add_assoc, Nat.add_right_comm]
    | insert place _ _ => exact absurd place (hno 0 (Nat.succ_pos _))

end Spaced

/-- **The tokens of a spaced text** are those of the text, at other places. -/
theorem Lexes.spaced (h : Lexes position cs ts) {position' : ℕ}
    (hspaced : Spaced (Outside ts) position cs cs') :
    ∃ ts', Lexes position' cs' ts'
      ∧ ts'.map (fun t => (t.kind, t.lexeme)) = ts.map fun t => (t.kind, t.lexeme) := by
  induction h generalizing position' cs' with
  | finish =>
    have hend : Lexes (position' + cs'.length) [] [⟨.finish, position' + cs'.length, []⟩] := .finish
    have hblank := Lexes.blanks hspaced.of_nil hend
    rw [List.append_nil] at hblank
    exact ⟨_, hblank, rfl⟩
  | blank white _ ih =>
    obtain ⟨gap, more, hgap, rfl, hmore⟩ := hspaced.of_cons
    obtain ⟨ts', hts', hmap⟩ := ih hmore
    exact ⟨ts', .blanks hgap (.blank white hts'), hmap⟩
  | @token position kind lexeme rest ts longest _ ih =>
    obtain ⟨c, text, rfl⟩ := List.exists_cons_of_ne_nil longest.ne_nil
    obtain ⟨gap, behind, hgap, rfl, hbehind⟩ := hspaced.of_cons
    -- the places behind the first character are inside the token
    obtain ⟨more, rfl, hmore⟩ := hbehind.of_append fun i hi houtside => by
      have hplace := houtside _ List.mem_cons_self
      simp only [List.length_cons] at hplace
      omega
    have hruns : RunsOf more rest := hmore.runsOf
    have hlater := hmore.mono fun place houtside t ht => houtside t (List.mem_cons_of_mem _ ht)
    rw [Nat.add_right_comm, Nat.add_assoc] at hlater
    obtain ⟨ts', hts', hmap⟩ : ∃ ts',
        Lexes (position' + gap.length + (c :: text).length) more ts'
          ∧ ts'.map (fun t => (t.kind, t.lexeme)) = ts.map fun t => (t.kind, t.lexeme) := ih hlater
    refine ⟨_, .blanks hgap (.token (longest.respaced hruns) hts'), ?_⟩
    rw [List.map_cons, List.map_cons, hmap]

/-! ## §4. Whole texts. -/

/-- **Reading tokens loses nothing and ignores layout.**  The tokens of a text stand in order at their
positions and leave out white space only.  With white space put in anywhere outside of the tokens, the
text is read as the same tokens. -/
theorem tokens_layout {source : String} (h : tokens source = .ok ts) :
    Layout source.toList ts
      ∧ ∀ source' : String, Spaced (Outside ts) 0 source.toList source'.toList →
        ∃ ts', tokens source' = .ok ts'
          ∧ ts'.map (fun t => (t.kind, t.lexeme)) = ts.map fun t => (t.kind, t.lexeme) := by
  have hlexes : Lexes 0 source.toList ts := tokensFrom_eq_ok_iff.1 h
  refine ⟨hlexes.layout, fun source' hspaced => ?_⟩
  obtain ⟨ts', hts', hmap⟩ := hlexes.spaced hspaced
  exact ⟨ts', tokensFrom_eq_ok_iff.2 hts', hmap⟩

/-- The tokens of `2e+x`, a number in front of a name. -/
def numberBeforeName : List Token :=
  [⟨.number .two, 0, ['2']⟩, ⟨.name "e", 1, ['e']⟩, ⟨.operator .add, 2, ['+']⟩,
    ⟨.name "x", 3, ['x']⟩, ⟨.finish, 4, []⟩]

/-- White space between the number and the name, where there was none. -/
theorem tokens_layout_numberBeforeName :
    tokens "2e+x" = .ok numberBeforeName
      ∧ Spaced (Outside numberBeforeName) 0 "2e+x".toList " 2 e+ x".toList
      ∧ ∃ ts', tokens " 2 e+ x" = .ok ts'
        ∧ ts'.map (fun t => (t.kind, t.lexeme))
          = numberBeforeName.map fun t => (t.kind, t.lexeme) := by
  have htokens : tokens "2e+x" = .ok numberBeforeName := by with_unfolding_all rfl
  have houtside : ∀ place ∈ [0, 1, 3], Outside numberBeforeName place := by
    unfold Outside
    decide
  have hspaced : Spaced (Outside numberBeforeName) 0 "2e+x".toList " 2 e+ x".toList :=
    .insert (houtside 0 (by decide)) rfl (.keep (.insert (houtside 1 (by decide)) rfl
      (.keep (.keep (.insert (houtside 3 (by decide)) rfl (.keep .done))))))
  exact ⟨htokens, hspaced, (tokens_layout htokens).2 _ hspaced⟩

end ShapeEstimator.Formula
