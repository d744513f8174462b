/-
  ShapeEstimator.Proofs.Formula.ViablePrefix
  ────────────────────────────────
  **WHAT STARTS A PHRASE, AND WHERE A PHRASE STANDS.**

  Two notions of the grammar that need no parser.  Tokens are viable for a phrase when
  some phrase starts with them.  A phrase heads a list of tokens when it is spelled there
  up to a token that may follow it.  Both pass between a phrase and its parts:

      viable part           →   viable (tokens before the part ++ part)
      heads (before ++ s)   →   part heads s

  In the second direction the tokens before the part are cancelled by unambiguity.
-/
import ShapeEstimator.Proofs.Formula.Completeness

namespace ShapeEstimator.Formula

/-! ## §1. Starts of formulas. -/

namespace Derivation

/-- Every call is one of a known function, with any number of arguments. -/
def CallsKnown : {p : Phrase} → Derivation p → Prop
  | _, .sum first more => first.CallsKnown ∧ more.CallsKnown
  | _, .noSummand => True
  | _, .summand _ _ operand more => operand.CallsKnown ∧ more.CallsKnown
  | _, .product first more => first.CallsKnown ∧ more.CallsKnown
  | _, .noFactor => True
  | _, .factor _ _ operand more => operand.CallsKnown ∧ more.CallsKnown
  | _, .signed _ operand => operand.CallsKnown
  | _, .unsigned operand => operand.CallsKnown
  | _, .base x => x.CallsKnown
  | _, .raised x exponent => x.CallsKnown ∧ exponent.CallsKnown
  | _, .number _ => True
  | _, .name _ => True
  | _, .call function args => (∃ f, Function.ofName? function = some f) ∧ args.CallsKnown
  | _, .enclosed x => x.CallsKnown
  | _, .argument x => x.CallsKnown
  | _, .argumentBefore x more => x.CallsKnown ∧ more.CallsKnown

theorem CallsFit.known {p : Phrase} {d : Derivation p} (h : d.CallsFit) : d.CallsKnown := by
  induction d with
  | noSummand | noFactor | number value | name text => exact trivial
  | sum _ _ ih₁ ih₂ | summand _ _ _ _ ih₁ ih₂ | product _ _ ih₁ ih₂ | factor _ _ _ _ ih₁ ih₂
  | raised _ _ ih₁ ih₂ | argumentBefore _ _ ih₁ ih₂ => exact ⟨ih₁ h.1, ih₂ h.2⟩
  | signed _ _ ih | unsigned _ ih | base _ ih | enclosed _ ih | argument _ ih => exact ih h
  | call function args ih =>
    obtain ⟨⟨f, hf, _⟩, hargs⟩ := h
    exact ⟨⟨f, hf⟩, ih hargs⟩

end Derivation

/-- The tokens are the start of a phrase, argument counts disregarded. -/
def Viable (p : Phrase) (ks : List TokenKind) : Prop :=
  ∃ d : Derivation p, d.CallsKnown ∧ ks <+: d.tokens

namespace Viable

variable {p q : Phrase} {ks : List TokenKind}

/-- What starts a part starts the whole, behind the tokens before the part. -/
theorem within (rule : Derivation p → Derivation q) (pre post : List TokenKind)
    (htokens : ∀ d, (rule d).tokens = pre ++ (d.tokens ++ post))
    (hknown : ∀ d, d.CallsKnown → (rule d).CallsKnown) (h : Viable p ks) :
    Viable q (pre ++ ks) := by
  obtain ⟨d, hd, hks⟩ := h
  refine ⟨rule d, hknown d hd, ?_⟩
  rw [htokens]
  exact (List.prefix_append_right_inj pre).2 (hks.trans (List.prefix_append d.tokens post))

theorem nil (p : Phrase) : Viable p [] := by
  let operand : Derivation .unary := .unsigned (.base (.name "x"))
  cases p with
  | expression => exact ⟨.single operand, ⟨⟨trivial, trivial⟩, trivial⟩, List.nil_prefix⟩
  | summands => exact ⟨.noSummand, trivial, List.nil_prefix⟩
  | product => exact ⟨.product operand .noFactor, ⟨trivial, trivial⟩, List.nil_prefix⟩
  | factors => exact ⟨.noFactor, trivial, List.nil_prefix⟩
  | unary => exact ⟨operand, trivial, List.nil_prefix⟩
  | power => exact ⟨.base (.name "x"), trivial, List.nil_prefix⟩
  | primary => exact ⟨.name "x", trivial, List.nil_prefix⟩
  | arguments =>
    exact ⟨.argument (.single operand), ⟨⟨trivial, trivial⟩, trivial⟩, List.nil_prefix⟩

end Viable

/-! ## §2. Heads of lists. -/

/-- A token may stand behind a phrase.  Arguments end with the call. -/
def Phrase.MayPrecede (p : Phrase) (k : TokenKind) : Prop :=
  p.EndsBefore k ∧ (p = .arguments → k = .rightParen)

/-- A phrase stands at the start of a list, up to a token that may follow it. -/
def Phrase.Heads (p : Phrase) (s : List TokenKind) : Prop :=
  ∃ (d : Derivation p) (k : TokenKind) (r : List TokenKind), p.MayPrecede k ∧ s = d.tokens ++ k :: r

namespace Phrase.Heads

variable {s r : List TokenKind} {k : TokenKind}

/-- A list with two phrases in front, one behind the other, has the first of them in front. -/
theorem of_append {p q : Phrase} {s' : List TokenKind} (first : Derivation p)
    (h : q.Heads s') (hnext : ∃ k r, s' = k :: r ∧ p.EndsBefore k) (hp : p ≠ .arguments) :
    p.Heads (first.tokens ++ s') := by
  obtain ⟨k, r, rfl, hk⟩ := hnext
  exact ⟨first, k, r, ⟨hk, fun h => absurd h hp⟩, rfl⟩

theorem expression_inv (h : expression.Heads s) : ∃ (first : Derivation .product) (s' : _),
    s = first.tokens ++ s' ∧ summands.Heads s' ∧ ∃ k r, s' = k :: r ∧ product.EndsBefore k := by
  obtain ⟨d, k, r, hk, rfl⟩ := h
  cases d with
  | sum first more =>
    refine ⟨first, more.tokens ++ k :: r, ?_, ⟨more, k, r, ⟨hk.1, nofun⟩, rfl⟩, ?_⟩
    · exact List.append_assoc first.tokens more.tokens (k :: r)
    · exact more.summands_head r hk.1

theorem product_inv (h : product.Heads s) : ∃ (first : Derivation .unary) (s' : _),
    s = first.tokens ++ s' ∧ factors.Heads s' ∧ ∃ k r, s' = k :: r ∧ unary.EndsBefore k := by
  obtain ⟨d, k, r, hk, rfl⟩ := h
  cases d with
  | product first more =>
    refine ⟨first, more.tokens ++ k :: r, ?_, ⟨more, k, r, ⟨hk.1, nofun⟩, rfl⟩, ?_⟩
    · exact List.append_assoc first.tokens more.tokens (k :: r)
    · exact more.factors_head r hk.1

theorem summands_inv {op : Operator} (hop : op.isAdditive = true)
    (h : summands.Heads (.operator op :: s)) : expression.Heads s := by
  obtain ⟨d, k, r, hk, hs⟩ := h
  cases d with
  | noSummand =>
    injection hs with hs _
    exact absurd hk.1 (hs ▸ Derivation.not_endsBefore_additive hop)
  | summand op' _ operand more =>
    injection hs with _ hs
    refine ⟨.sum operand more, k, r, ⟨hk.1, nofun⟩, ?_⟩
    rw [hs]
    rfl

theorem factors_inv {op : Operator} (hop : op.isMultiplicative = true)
    (h : factors.Heads (.operator op :: s)) : product.Heads s := by
  obtain ⟨d, k, r, hk, hs⟩ := h
  cases d with
  | noFactor =>
    injection hs with hs _
    exact absurd hk.1 (hs ▸ Derivation.not_endsBefore_multiplicative hop)
  | factor op' _ operand more =>
    injection hs with _ hs
    refine ⟨.product operand more, k, r, ⟨hk.1, nofun⟩, ?_⟩
    rw [hs]
    rfl

/-- Behind the first product of a sum, and before an operator of the sum, stands the rest of it. -/
theorem summands_of_expression (d : Derivation .product) (hk : product.EndsBefore k)
    (h : expression.Heads (d.tokens ++ k :: r)) : summands.Heads (k :: r) := by
  obtain ⟨first, s', hs, hmore, k', r', rfl, hk'⟩ := h.expression_inv
  obtain ⟨-, hrest⟩ := Derivation.eq_of_tokens_append d first hk hk' hs
  rwa [hrest]

theorem factors_of_product (d : Derivation .unary) (hk : unary.EndsBefore k)
    (h : product.Heads (d.tokens ++ k :: r)) : factors.Heads (k :: r) := by
  obtain ⟨first, s', hs, hmore, k', r', rfl, hk'⟩ := h.product_inv
  obtain ⟨-, hrest⟩ := Derivation.eq_of_tokens_append d first hk hk' hs
  rwa [hrest]

theorem product_of_expression (h : expression.Heads s) : product.Heads s := by
  obtain ⟨first, s', rfl, hmore, hnext⟩ := h.expression_inv
  exact of_append first hmore hnext nofun

theorem unary_of_product (h : product.Heads s) : unary.Heads s := by
  obtain ⟨first, s', rfl, hmore, hnext⟩ := h.product_inv
  exact of_append first hmore hnext nofun

theorem unary_of_sign {sign : Sign} (h : unary.Heads (.operator sign.operator :: s)) :
    unary.Heads s := by
  obtain ⟨d, k, r, hk, hs⟩ := h
  cases d with
  | signed sign' operand =>
    injection hs with _ hs
    exact ⟨operand, k, r, hk, hs⟩
  | unsigned operand =>
    -- a power starts with no operator
    obtain ⟨k₁, ts, hts, hop⟩ := operand.power_head
    rw [Derivation.tokens, hts] at hs
    injection hs with h₁ _
    exact absurd h₁.symm (hop sign.operator)

theorem power_of_unary (hk : sign? k = none) (h : unary.Heads (k :: r)) : power.Heads (k :: r) := by
  obtain ⟨d, k', r', hk', hs⟩ := h
  cases d with
  | signed sign operand =>
    injection hs with hs _
    rw [sign?_eq_some.2 hs] at hk
    exact nomatch hk
  | unsigned operand => exact ⟨operand, k', r', ⟨hk'.1, nofun⟩, hs⟩

theorem primary_of_power (h : power.Heads s) : primary.Heads s := by
  obtain ⟨d, k, r, hk, rfl⟩ := h
  cases d with
  | base x => exact ⟨x, k, r, ⟨hk.1.mono (by decide), nofun⟩, rfl⟩
  | raised x exponent =>
    refine ⟨x, .operator .pow, exponent.tokens ++ k :: r, ⟨by decide, nofun⟩, ?_⟩
    exact List.append_assoc x.tokens _ (k :: r)

theorem unary_of_power (d : Derivation .primary)
    (h : power.Heads (d.tokens ++ .operator .pow :: s)) : unary.Heads s := by
  obtain ⟨d', k, r, hk, hs⟩ := h
  cases d' with
  | base x =>
    -- the power sign would follow a power that has ended
    obtain ⟨-, hrest⟩ := Derivation.eq_of_tokens_append d x (by decide) (hk.1.mono (by decide)) hs
    injection hrest with hpow _
    exact absurd (hpow ▸ hk.1) (by decide)
  | raised x exponent =>
    refine ⟨exponent, k, r, ⟨hk.1, nofun⟩, ?_⟩
    rw [Derivation.tokens, List.append_assoc] at hs
    obtain ⟨-, hrest⟩ := Derivation.eq_of_tokens_append d x (by decide) (by decide) hs
    injection hrest

theorem primary_starts (h : primary.Heads (k :: r)) :
    (∃ value, k = .number value) ∨ k = .leftParen ∨ ∃ text, k = .name text := by
  obtain ⟨d, k', r', hk', hs⟩ := h
  cases d with
  | number value =>
    injection hs with hs _
    exact Or.inl ⟨value, hs⟩
  | enclosed x =>
    injection hs with hs _
    exact Or.inr (Or.inl hs)
  | name text | call text args =>
    injection hs with hs _
    exact Or.inr (Or.inr ⟨text, hs⟩)

/-- Behind a parenthesis stands an expression that is closed. -/
theorem expression_of_leftParen (h : primary.Heads (.leftParen :: s)) :
    ∃ (d : Derivation .expression) (r : List TokenKind), s = d.tokens ++ .rightParen :: r := by
  obtain ⟨d, k, r, hk, hs⟩ := h
  cases d with
  | number value | name text | call function args =>
    injection hs with hs _
    exact nomatch hs
  | enclosed x =>
    injection hs with _ hs
    refine ⟨x, k :: r, hs.trans ?_⟩
    exact List.append_assoc x.tokens [.rightParen] (k :: r)

theorem arguments_of_call {text : String} (h : primary.Heads (.name text :: .leftParen :: s)) :
    arguments.Heads s := by
  obtain ⟨d, k, r, hk, hs⟩ := h
  cases d with
  | number value | enclosed x =>
    injection hs with hs _
    exact nomatch hs
  | name text' =>
    -- the parenthesis goes on with the name
    injection hs with _ hs
    injection hs with hs _
    exact absurd (hs ▸ hk.1) (by decide)
  | call text' args =>
    injection hs with _ hs
    injection hs with _ hs
    refine ⟨args, .rightParen, k :: r, ⟨by decide, fun _ => rfl⟩, hs.trans ?_⟩
    exact List.append_assoc args.tokens [.rightParen] (k :: r)

/-- Arguments start with an expression that a comma or the closing parenthesis follows; behind a
comma stand more of them. -/
theorem arguments_inv (h : arguments.Heads s) : ∃ (d : Derivation .expression) (k : TokenKind)
    (r : List TokenKind), s = d.tokens ++ k :: r
      ∧ (k = .rightParen ∨ k = .comma ∧ arguments.Heads r) := by
  obtain ⟨d, k, r, hk, rfl⟩ := h
  cases d with
  | argument x => exact ⟨x, k, r, rfl, Or.inl (hk.2 rfl)⟩
  | argumentBefore x more =>
    refine ⟨x, .comma, more.tokens ++ k :: r, ?_, Or.inr ⟨rfl, more, k, r, hk, rfl⟩⟩
    exact List.append_assoc x.tokens _ (k :: r)

theorem expression_of_arguments (h : arguments.Heads s) : expression.Heads s := by
  obtain ⟨d, k, r, rfl, rfl | ⟨rfl, _⟩⟩ := h.arguments_inv
  · exact ⟨d, .rightParen, r, ⟨by decide, nofun⟩, rfl⟩
  · exact ⟨d, .comma, r, ⟨by decide, nofun⟩, rfl⟩

theorem arguments_of_comma (d : Derivation .expression)
    (h : arguments.Heads (d.tokens ++ .comma :: s)) : arguments.Heads s := by
  obtain ⟨d', k, r, hs, hk⟩ := h.arguments_inv
  have hend : expression.EndsBefore k := by
    rcases hk with rfl | ⟨rfl, _⟩ <;> decide
  obtain ⟨-, hrest⟩ := Derivation.eq_of_tokens_append d d' (by decide) hend hs
  injection hrest with hcomma hrest
  rcases hk with rfl | ⟨_, hmore⟩
  · exact nomatch hcomma
  · rwa [hrest]

end Phrase.Heads

end ShapeEstimator.Formula
