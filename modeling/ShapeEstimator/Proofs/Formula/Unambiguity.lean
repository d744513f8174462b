/-
  ShapeEstimator.Proofs.Formula.Unambiguity
  ────────────────────────────────
  **A LIST OF TOKENS HAS ONE DERIVATION.**

  The grammar can be read from left to right with one token of foresight: where
  two rules could apply, the next token tells them apart.  So if two derivations
  of a phrase start the same list, and neither is followed by a token that goes on
  with the phrase, then they are equal and leave the same tokens:

      d.tokens ++ k :: r = d'.tokens ++ k' :: r'  →  d = d' ∧ k :: r = k' :: r'
-/
import ShapeEstimator.Proofs.Formula.Grammar

namespace ShapeEstimator.Formula

namespace Derivation

/-! ## §1. First tokens. -/

/-- A power starts with no operator. -/
theorem power_head (d : Derivation .power) :
    ∃ k ts, d.tokens = k :: ts ∧ ∀ op, k ≠ .operator op := by
  have primary_head : ∀ x : Derivation .primary,
      ∃ k ts, x.tokens = k :: ts ∧ ∀ op, k ≠ .operator op := by
    intro x
    cases x with
    | number value => exact ⟨_, _, rfl, fun op h => nomatch h⟩
    | name text => exact ⟨_, _, rfl, fun op h => nomatch h⟩
    | call function args => exact ⟨_, _, rfl, fun op h => nomatch h⟩
    | enclosed y => exact ⟨_, _, rfl, fun op h => nomatch h⟩
  -- the exponent comes too late to matter
  cases d with
  | base x => exact primary_head x
  | raised x exponent =>
    obtain ⟨k, ts, hts, hk⟩ := primary_head x
    refine ⟨k, ts ++ .operator .pow :: exponent.tokens, ?_, hk⟩
    rw [tokens_raised, hts, List.cons_append]

/-- What follows the first product of a sum does not go on with that product. -/
theorem summands_head (more : Derivation .summands) {k : TokenKind} (r : List TokenKind)
    (hk : Phrase.summands.EndsBefore k) :
    ∃ k₁ r₁, more.tokens ++ k :: r = k₁ :: r₁ ∧ Phrase.product.EndsBefore k₁ := by
  cases more with
  | noSummand => exact ⟨k, r, rfl, hk.mono (by decide)⟩
  | summand op additive operand more =>
    refine ⟨.operator op, operand.tokens ++ more.tokens ++ k :: r, rfl, ?_⟩
    show TokenKind.tightness _ < 3
    rw [tightness_of_isAdditive additive]
    decide

/-- What follows the first operand of a product does not go on with that operand. -/
theorem factors_head (more : Derivation .factors) {k : TokenKind} (r : List TokenKind)
    (hk : Phrase.factors.EndsBefore k) :
    ∃ k₁ r₁, more.tokens ++ k :: r = k₁ :: r₁ ∧ Phrase.unary.EndsBefore k₁ := by
  cases more with
  | noFactor => exact ⟨k, r, rfl, hk.mono (by decide)⟩
  | factor op multiplicative operand more =>
    refine ⟨.operator op, operand.tokens ++ more.tokens ++ k :: r, rfl, ?_⟩
    show TokenKind.tightness _ < 4
    rw [tightness_of_isMultiplicative multiplicative]
    decide

/-! ## §2. One rule at a time. -/

/-- The end of a chain is followed by no operator of the chain. -/
theorem not_endsBefore_additive {op : Operator} (h : op.isAdditive = true) :
    ¬ Phrase.summands.EndsBefore (.operator op) := by
  intro hk
  have : TokenKind.tightness (.operator op) < 2 := hk
  rw [tightness_of_isAdditive h] at this
  exact absurd this (by decide)

theorem not_endsBefore_multiplicative {op : Operator} (h : op.isMultiplicative = true) :
    ¬ Phrase.factors.EndsBefore (.operator op) := by
  intro hk
  have : TokenKind.tightness (.operator op) < 3 := hk
  rw [tightness_of_isMultiplicative h] at this
  exact absurd this (by decide)

/-- No other derivation of the phrase starts a list that this one starts, where both are followed by a
token that ends the phrase; and what they leave of the list is the same. -/
def IsUnique {p : Phrase} (d : Derivation p) : Prop :=
  ∀ (d' : Derivation p) ⦃k k' : TokenKind⦄ ⦃r r' : List TokenKind⦄,
    p.EndsBefore k → p.EndsBefore k' → d.tokens ++ k :: r = d'.tokens ++ k' :: r' →
    d = d' ∧ k :: r = k' :: r'

namespace IsUnique

/-- Two runs of tokens that split alike: equal first parts leave equal remainders. -/
theorem eq_of_parts {p q : Phrase} {first first' : Derivation p} {more more' : Derivation q}
    {k k' : TokenKind} {r r' : List TokenKind} (hfirst : first.IsUnique) (hmore : more.IsUnique)
    (hk : q.EndsBefore k) (hk' : q.EndsBefore k')
    (head : ∃ k₁ r₁, more.tokens ++ k :: r = k₁ :: r₁ ∧ p.EndsBefore k₁)
    (head' : ∃ k₁ r₁, more'.tokens ++ k' :: r' = k₁ :: r₁ ∧ p.EndsBefore k₁)
    (h : first.tokens ++ (more.tokens ++ k :: r) = first'.tokens ++ (more'.tokens ++ k' :: r')) :
    first = first' ∧ more = more' ∧ k :: r = k' :: r' := by
  obtain ⟨k₁, r₁, h₁, hk₁⟩ := head
  obtain ⟨k₂, r₂, h₂, hk₂⟩ := head'
  rw [h₁, h₂] at h
  obtain ⟨rfl, htail⟩ := hfirst first' hk₁ hk₂ h
  rw [← h₁, ← h₂] at htail
  exact ⟨rfl, hmore more' hk hk' htail⟩

theorem sum {first : Derivation .product} {more : Derivation .summands} (hfirst : first.IsUnique)
    (hmore : more.IsUnique) : (Derivation.sum first more).IsUnique := by
  intro d' k k' r r' hk hk' h
  cases d' with
  | sum first' more' =>
    simp only [tokens_sum, List.append_assoc] at h
    obtain ⟨rfl, rfl, hrest⟩ := hfirst.eq_of_parts hmore hk hk'
      (summands_head more r hk) (summands_head more' r' hk') h
    exact ⟨rfl, hrest⟩

theorem noSummand : Derivation.noSummand.IsUnique := by
  intro d' k k' r r' hk hk' h
  cases d' with
  | noSummand => exact ⟨rfl, h⟩
  | summand op additive operand more =>
    -- the operator would go on with the chain that has ended
    injection h with hop
    exact absurd (hop ▸ hk) (not_endsBefore_additive additive)

theorem summand {op : Operator} {additive : op.isAdditive = true} {operand : Derivation .product}
    {more : Derivation .summands} (hoperand : operand.IsUnique) (hmore : more.IsUnique) :
    (Derivation.summand op additive operand more).IsUnique := by
  intro d' k k' r r' hk hk' h
  cases d' with
  | noSummand =>
    injection h with hop
    exact absurd (hop ▸ hk') (not_endsBefore_additive additive)
  | summand op' additive' operand' more' =>
    simp only [tokens_summand, List.append_assoc, List.cons_append] at h
    injection h with hop h
    injection hop with hop
    subst hop
    obtain ⟨rfl, rfl, hrest⟩ := hoperand.eq_of_parts hmore hk hk'
      (summands_head more r hk) (summands_head more' r' hk') h
    exact ⟨rfl, hrest⟩

theorem product {first : Derivation .unary} {more : Derivation .factors} (hfirst : first.IsUnique)
    (hmore : more.IsUnique) : (Derivation.product first more).IsUnique := by
  intro d' k k' r r' hk hk' h
  cases d' with
  | product first' more' =>
    simp only [tokens_product, List.append_assoc] at h
    obtain ⟨rfl, rfl, hrest⟩ := hfirst.eq_of_parts hmore hk hk'
      (factors_head more r hk) (factors_head more' r' hk') h
    exact ⟨rfl, hrest⟩

theorem noFactor : Derivation.noFactor.IsUnique := by
  intro d' k k' r r' hk hk' h
  cases d' with
  | noFactor => exact ⟨rfl, h⟩
  | factor op multiplicative operand more =>
    injection h with hop
    exact absurd (hop ▸ hk) (not_endsBefore_multiplicative multiplicative)

theorem factor {op : Operator} {multiplicative : op.isMultiplicative = true}
    {operand : Derivation .unary} {more : Derivation .factors} (hoperand : operand.IsUnique)
    (hmore : more.IsUnique) : (Derivation.factor op multiplicative operand more).IsUnique := by
  intro d' k k' r r' hk hk' h
  cases d' with
  | noFactor =>
    injection h with hop
    exact absurd (hop ▸ hk') (not_endsBefore_multiplicative multiplicative)
  | factor op' multiplicative' operand' more' =>
    simp only [tokens_factor, List.append_assoc, List.cons_append] at h
    injection h with hop h
    injection hop with hop
    subst hop
    obtain ⟨rfl, rfl, hrest⟩ := hoperand.eq_of_parts hmore hk hk'
      (factors_head more r hk) (factors_head more' r' hk') h
    exact ⟨rfl, hrest⟩

theorem signed {sign : Sign} {operand : Derivation .unary} (hoperand : operand.IsUnique) :
    (Derivation.signed sign operand).IsUnique := by
  intro d' k k' r r' hk hk' h
  cases d' with
  | signed sign' operand' =>
    injection h with hsign h
    obtain ⟨rfl, hrest⟩ := hoperand operand' hk hk' h
    have hs : sign = sign' := by
      cases sign <;> cases sign' <;> first | rfl | exact absurd hsign (by decide)
    exact ⟨by rw [hs], hrest⟩
  | unsigned operand' =>
    -- a sign is an operator, and a power starts with none
    obtain ⟨k₁, ts, hts, hop⟩ := power_head operand'
    change _ = operand'.tokens ++ k' :: r' at h
    rw [hts] at h
    injection h with h₁ _
    exact absurd h₁.symm (hop sign.operator)

theorem unsigned {operand : Derivation .power} (hoperand : operand.IsUnique) :
    (Derivation.unsigned operand).IsUnique := by
  intro d' k k' r r' hk hk' h
  cases d' with
  | signed sign' operand' =>
    obtain ⟨k₁, ts, hts, hop⟩ := power_head operand
    change operand.tokens ++ k :: r = _ at h
    rw [hts] at h
    injection h with h₁ _
    exact absurd h₁ (hop sign'.operator)
  | unsigned operand' =>
    obtain ⟨rfl, hrest⟩ := hoperand operand' hk hk' h
    exact ⟨rfl, hrest⟩

theorem base {x : Derivation .primary} (hx : x.IsUnique) : (Derivation.base x).IsUnique := by
  intro d' k k' r r' hk hk' h
  cases d' with
  | base x' =>
    obtain ⟨rfl, hrest⟩ := hx x' (hk.mono (by decide)) (hk'.mono (by decide)) h
    exact ⟨rfl, hrest⟩
  | raised x' exponent' =>
    -- the base is the same, and then the power sign would follow a power that has ended
    simp only [tokens_raised, List.append_assoc, List.cons_append] at h
    obtain ⟨_, hrest⟩ := hx x' (hk.mono (by decide)) (by decide) h
    injection hrest with hpow _
    exact absurd (hpow ▸ hk) (by decide)

theorem raised {x : Derivation .primary} {exponent : Derivation .unary} (hx : x.IsUnique)
    (hexponent : exponent.IsUnique) : (Derivation.raised x exponent).IsUnique := by
  intro d' k k' r r' hk hk' h
  cases d' with
  | base x' =>
    simp only [tokens_raised, List.append_assoc, List.cons_append] at h
    obtain ⟨_, hrest⟩ := hx x' (by decide) (hk'.mono (by decide)) h
    injection hrest with hpow _
    exact absurd (hpow ▸ hk') (by decide)
  | raised x' exponent' =>
    simp only [tokens_raised, List.append_assoc, List.cons_append] at h
    obtain ⟨rfl, htail⟩ := hx x' (by decide) (by decide) h
    injection htail with _ htail
    obtain ⟨rfl, hrest⟩ := hexponent exponent' hk hk' htail
    exact ⟨rfl, hrest⟩

theorem number {value : Decimal} : (Derivation.number value).IsUnique := by
  intro d' k k' r r' hk hk' h
  cases d' with
  | number value' =>
    injection h with hvalue hrest
    injection hvalue with hvalue
    exact ⟨by rw [hvalue], hrest⟩
  | name text | call function args | enclosed x =>
    -- the first tokens differ
    injection h with h₁ _
    exact nomatch h₁

theorem name {text : String} : (Derivation.name text).IsUnique := by
  intro d' k k' r r' hk hk' h
  cases d' with
  | name text' =>
    injection h with htext hrest
    injection htext with htext
    exact ⟨by rw [htext], hrest⟩
  | call function args =>
    -- the parenthesis of a call goes on with the name before it
    injection h with _ h
    injection h with hparen _
    exact absurd (hparen ▸ hk) (by decide)
  | number value | enclosed x =>
    injection h with h₁ _
    exact nomatch h₁

theorem call {function : String} {args : Derivation .arguments} (hargs : args.IsUnique) :
    (Derivation.call function args).IsUnique := by
  intro d' k k' r r' hk hk' h
  cases d' with
  | name text =>
    injection h with _ h
    injection h with hparen _
    exact absurd (hparen ▸ hk') (by decide)
  | call function' args' =>
    -- the closing parenthesis ends the arguments of both
    simp only [tokens_call, List.append_assoc, List.cons_append] at h
    injection h with hname h
    injection hname with hname
    injection h with _ h
    obtain ⟨rfl, htail⟩ := hargs args' (by decide) (by decide) h
    injection htail with _ hrest
    exact ⟨by rw [hname], hrest⟩
  | number value | enclosed x =>
    injection h with h₁ _
    exact nomatch h₁

theorem enclosed {x : Derivation .expression} (hx : x.IsUnique) :
    (Derivation.enclosed x).IsUnique := by
  intro d' k k' r r' hk hk' h
  cases d' with
  | enclosed x' =>
    simp only [tokens_enclosed, List.append_assoc, List.cons_append] at h
    injection h with _ h
    obtain ⟨rfl, htail⟩ := hx x' (by decide) (by decide) h
    injection htail with _ hrest
    exact ⟨rfl, hrest⟩
  | number value | name text | call function args =>
    injection h with h₁ _
    exact nomatch h₁

theorem argument {x : Derivation .expression} (hx : x.IsUnique) :
    (Derivation.argument x).IsUnique := by
  intro d' k k' r r' hk hk' h
  cases d' with
  | argument x' =>
    obtain ⟨rfl, hrest⟩ := hx x' (hk.mono (by decide)) (hk'.mono (by decide)) h
    exact ⟨rfl, hrest⟩
  | argumentBefore x' more' =>
    -- one list has ended where the other goes on with a comma
    simp only [tokens_argumentBefore, List.append_assoc, List.cons_append] at h
    obtain ⟨_, hrest⟩ := hx x' (hk.mono (by decide)) (by decide) h
    injection hrest with hcomma _
    exact absurd (hcomma ▸ hk) (by decide)

theorem argumentBefore {x : Derivation .expression} {more : Derivation .arguments} (hx : x.IsUnique)
    (hmore : more.IsUnique) : (Derivation.argumentBefore x more).IsUnique := by
  intro d' k k' r r' hk hk' h
  cases d' with
  | argument x' =>
    simp only [tokens_argumentBefore, List.append_assoc, List.cons_append] at h
    obtain ⟨_, hrest⟩ := hx x' (by decide) (hk'.mono (by decide)) h
    injection hrest with hcomma _
    exact absurd (hcomma ▸ hk') (by decide)
  | argumentBefore x' more' =>
    simp only [tokens_argumentBefore, List.append_assoc, List.cons_append] at h
    obtain ⟨rfl, htail⟩ := hx x' (by decide) (by decide) h
    injection htail with _ htail
    obtain ⟨rfl, hrest⟩ := hmore more' hk hk' htail
    exact ⟨rfl, hrest⟩

end IsUnique

/-! ## §3. Unambiguity. -/

/-- **One derivation.**  Two derivations of a phrase that start one list, and end where the phrase
ends, are equal.  By induction on one of them, and by cases on the rule that the other one uses. -/
theorem eq_of_tokens_append {p : Phrase} (d : Derivation p) : d.IsUnique := by
  induction d with
  | sum _ _ hfirst hmore => exact .sum hfirst hmore
  | noSummand => exact .noSummand
  | summand _ _ _ _ hoperand hmore => exact .summand hoperand hmore
  | product _ _ hfirst hmore => exact .product hfirst hmore
  | noFactor => exact .noFactor
  | factor _ _ _ _ hoperand hmore => exact .factor hoperand hmore
  | signed _ _ hoperand => exact .signed hoperand
  | unsigned _ hoperand => exact .unsigned hoperand
  | base _ hx => exact .base hx
  | raised _ _ hx hexponent => exact .raised hx hexponent
  | number _ => exact .number
  | name _ => exact .name
  | call _ _ hargs => exact .call hargs
  | enclosed _ hx => exact .enclosed hx
  | argument _ hx => exact .argument hx
  | argumentBefore _ _ hx hmore => exact .argumentBefore hx hmore

/-- The grammar is unambiguous. -/
theorem tokens_injective {d d' : Derivation .expression} (h : d.tokens = d'.tokens) : d = d' := by
  -- the end token, put behind both, makes the general statement apply
  have hend : Phrase.expression.EndsBefore .finish := by decide
  have happend : d.tokens ++ [.finish] = d'.tokens ++ [.finish] := by rw [h]
  exact (eq_of_tokens_append d d' hend hend happend).1

end Derivation

end ShapeEstimator.Formula
