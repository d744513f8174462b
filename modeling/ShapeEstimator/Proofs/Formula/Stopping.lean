/-
  ShapeEstimator.Proofs.Formula.Stopping
  ────────────────────────────────
  **WHERE THE PARSER STOPS, NOTHING CAN GO ON.**

  A function of the parser that succeeds leaves the first token that does not go on with
  its phrase.  One token needs care: an opening parenthesis goes on with a name, and the
  parser may stop before one all the same, behind a number or a closing parenthesis.
  There no formula goes on either, for in a formula a parenthesis is never opened behind
  these.  So where an expression was read, it is the only one that stands there, whatever
  the next token is:

      d'.tokens ++ k' :: …  =  d.tokens ++ k :: …   →   k' = k
-/
import Mathlib.Data.List.Chain
import ShapeEstimator.Proofs.Formula.Soundness

namespace ShapeEstimator.Formula

/-! ## §1. Neighbours in a formula. -/

/-- Whether a token ends a value that no parenthesis makes a call of. -/
def TokenKind.isValueEnd : TokenKind → Bool
  | .number _ | .rightParen => true
  | _ => false

/-- Two tokens may stand side by side, as far as the opening of parentheses goes. -/
def TokenKind.Adjacent (a b : TokenKind) : Prop := b = .leftParen → a.isValueEnd = false

namespace Derivation

variable {p : Phrase}

/-- The rest of a chain starts with no parenthesis. -/
theorem head_ne_leftParen (more : Derivation p) (hp : p = .summands ∨ p = .factors) :
    ∀ k ∈ more.tokens.head?, k ≠ .leftParen := by
  cases more with
  | noSummand | noFactor => exact nofun
  | summand op _ operand more | factor op _ operand more =>
    rintro k hk rfl
    exact nomatch hk
  | _ => rcases hp with hp | hp <;> exact nomatch hp

/-- Lists of neighbours are joined unless the second opens a parenthesis. -/
theorem isChain_append {ks ls : List TokenKind} (hks : ks.IsChain TokenKind.Adjacent)
    (hls : ls.IsChain TokenKind.Adjacent) (hhead : ∀ k ∈ ls.head?, k ≠ .leftParen) :
    (ks ++ ls).IsChain TokenKind.Adjacent :=
  List.IsChain.append hks hls fun _ _ k hk hparen => absurd hparen (hhead k hk)

/-- Behind a token that ends no value anything may stand. -/
theorem isChain_cons {k : TokenKind} {ks : List TokenKind} (hk : k.isValueEnd = false)
    (hks : ks.IsChain TokenKind.Adjacent) : (k :: ks).IsChain TokenKind.Adjacent :=
  List.isChain_cons.2 ⟨fun _ _ _ => hk, hks⟩

/-- In what a derivation spells, no parenthesis is opened behind a number or a closing
parenthesis. -/
theorem isChain_tokens (d : Derivation p) : d.tokens.IsChain TokenKind.Adjacent := by
  induction d with
  | sum first more ihFirst ihMore | product first more ihFirst ihMore =>
    exact isChain_append ihFirst ihMore (more.head_ne_leftParen (by decide))
  | noSummand | noFactor => exact List.isChain_nil
  | summand op _ operand more ihOperand ihMore | factor op _ operand more ihOperand ihMore =>
    exact isChain_cons rfl
      (isChain_append ihOperand ihMore (more.head_ne_leftParen (by decide)))
  | signed sign operand ih => exact isChain_cons rfl ih
  | unsigned operand ih | base x ih | argument x ih => exact ih
  | raised x exponent ihBase ihExponent =>
    exact isChain_append ihBase (isChain_cons rfl ihExponent) (by rintro k hk rfl; exact nomatch hk)
  | number value | name text => exact List.isChain_singleton _
  | call function args ih =>
    exact isChain_cons rfl (isChain_cons rfl
      (isChain_append ih (List.isChain_singleton _) (by rintro k hk rfl; exact nomatch hk)))
  | enclosed x ih =>
    exact isChain_cons rfl
      (isChain_append ih (List.isChain_singleton _) (by rintro k hk rfl; exact nomatch hk))
  | argumentBefore x more ih ihMore =>
    exact isChain_append ih (isChain_cons rfl ihMore) (by rintro k hk rfl; exact nomatch hk)

/-- What stands behind an expression, read as far as another one and a token that does not go on
with it: the other cannot end before the first does, and neither can go on with a parenthesis behind
a value. -/
theorem eq_leftParen_absurd {d d' : Derivation .expression} {us : List TokenKind} {a k' : TokenKind}
    {r r' : List TokenKind} (hd : d.tokens = us ++ [a]) (ha : a.isValueEnd = true)
    (hk' : Phrase.expression.EndsBefore k')
    (h : d'.tokens ++ k' :: r' = d.tokens ++ .leftParen :: r) : False := by
  rcases List.append_eq_append_iff.1 h with ⟨vs, hvs, hrest⟩ | ⟨vs, hvs, hrest⟩
  · cases vs with
    | nil =>
      -- both end at the same place, and the parenthesis goes on with an expression
      injection hrest with hk _
      exact absurd (hk ▸ hk') (by decide)
    | cons v vs =>
      -- the second ends within the first, where this goes on
      injection hrest with hv hr
      subst hv
      have hend : d.tokens ++ [.finish] = d'.tokens ++ k' :: (vs ++ [.finish]) := by
        rw [hvs, List.append_assoc]
        rfl
      obtain ⟨rfl, -⟩ := eq_of_tokens_append d d' (by decide) hk' hend
      exact absurd (List.append_right_eq_self.1 hvs.symm) (List.cons_ne_nil _ _)
  · cases vs with
    | nil =>
      injection hrest with hk _
      exact absurd (hk.symm ▸ hk') (by decide)
    | cons v vs =>
      -- the second spells the value and the parenthesis side by side
      injection hrest with hv hr
      subst hv
      have hchain := d'.isChain_tokens
      rw [hvs, hd, List.append_assoc, List.singleton_append,
        List.isChain_append_cons_cons] at hchain
      exact absurd (hchain.2.1 rfl) (by rw [ha]; decide)

end Derivation

/-! ## §2. Where the functions of the parser stop. -/

theorem endsBefore_primary_or (k : TokenKind) : Phrase.primary.EndsBefore k ∨ k = .leftParen := by
  cases k with
  | operator op => cases op <;> exact Or.inl (by decide)
  | leftParen => exact Or.inr rfl
  | comma => exact Or.inl (by decide)
  | number | name | rightParen | finish => exact Or.inl (Nat.succ_pos 4)

/-- A token that goes on with a sum but not with its last product is an operator of the sum. -/
theorem endsBefore_expression {k : TokenKind} (h : Phrase.product.EndsBefore k)
    (hk : additive? k = none) : Phrase.expression.EndsBefore k := by
  have htight : k.tightness ≠ 2 := by
    cases k with
    | operator op => cases op <;> first | decide | cases hk
    | number | name | leftParen | rightParen | comma | finish => exact fun h => nomatch h
  have hlt : k.tightness < 3 := h
  show k.tightness < 2
  omega

theorem endsBefore_product {k : TokenKind} (h : Phrase.unary.EndsBefore k)
    (hk : multiplicative? k = none) : Phrase.product.EndsBefore k := by
  have htight : k.tightness ≠ 3 := by
    cases k with
    | operator op => cases op <;> first | decide | cases hk
    | number | name | leftParen | rightParen | comma | finish => exact fun h => nomatch h
  have hlt : k.tightness < 4 := h
  show k.tightness < 3
  omega

theorem endsBefore_power {k : TokenKind} (h : Phrase.primary.EndsBefore k)
    (hk : k ≠ .operator .pow) : Phrase.power.EndsBefore k := by
  have htight : k.tightness ≠ 4 := by
    cases k with
    | operator op => cases op <;> first | decide | exact absurd rfl hk
    | number | name | leftParen | rightParen | comma | finish => exact fun h => nomatch h
  have hlt : k.tightness < 5 := h
  show k.tightness < 4
  omega

/-- From one cursor to another, the parser has read a phrase up to a token that does not go on with
it, or up to an opening parenthesis behind a number or a closing one. -/
def Stops (p : Phrase) (c e : Cursor) : Prop :=
  e.tokens <:+ c.tokens ∧ (p.EndsBefore e.current.kind
    ∨ e.current.kind = .leftParen
      ∧ ∃ t, t :: e.tokens <:+ c.tokens ∧ t.kind.isValueEnd = true)

theorem Cursor.advance_suffix (c : Cursor) : c.advance.tokens <:+ c.tokens := by
  obtain ⟨t, ts, n⟩ := c
  cases ts with
  | nil => exact List.suffix_rfl
  | cons u us => exact List.suffix_cons t (u :: us)

namespace Stops

variable {p q : Phrase} {c c₀ m e : Cursor}

/-- What was read before counts as well. -/
theorem extend (h : Stops p c e) (hc : c.tokens <:+ c₀.tokens) : Stops p c₀ e := by
  obtain ⟨hsuffix, hstop⟩ := h
  refine ⟨hsuffix.trans hc, hstop.imp_right ?_⟩
  rintro ⟨hparen, t, ht, hend⟩
  exact ⟨hparen, t, ht.trans hc, hend⟩

theorem imp (h : Stops p c e) (hpq : p.EndsBefore e.current.kind → q.EndsBefore e.current.kind) :
    Stops q c e :=
  ⟨h.1, h.2.imp_left hpq⟩

/-- Behind a value end every phrase may stop. -/
theorem advance (hm : m.tokens <:+ c.tokens) (hend : m.current.kind.isValueEnd = true) :
    Stops .primary c m.advance := by
  refine ⟨m.advance_suffix.trans hm, ?_⟩
  refine (endsBefore_primary_or m.advance.current.kind).imp_right fun hparen => ?_
  obtain ⟨t, ts, n⟩ := m
  cases ts with
  | nil =>
    -- the last token stays, and it is no parenthesis that opens
    have hk : t.kind = .leftParen := hparen
    have hend : t.kind.isValueEnd = true := hend
    rw [hk] at hend
    exact nomatch hend
  | cons u us => exact ⟨hparen, t, hm, hend⟩

/-- Where an expression was read, no other one stands, and the next token is the only one behind
it. -/
theorem settled {d d' : Derivation .expression} {ts : List Token} {k' : TokenKind}
    {r r' : List TokenKind} (h : Stops .expression c e) (hc : c = e.rewind ts)
    (hts : ts.map (·.kind) = d.tokens) (hk' : Phrase.expression.EndsBefore k')
    (heq : d'.tokens ++ k' :: r' = d.tokens ++ e.current.kind :: r) : k' = e.current.kind := by
  rcases h.2 with hend | ⟨hparen, t, ⟨us, hus⟩, ht⟩
  · obtain ⟨-, hrest⟩ := Derivation.eq_of_tokens_append d' d hk' hend heq
    exact (List.cons.inj hrest).1
  · -- the value that the parenthesis follows is the last of the expression
    rw [hc, Cursor.tokens_rewind, List.append_cons, List.append_cancel_right_eq] at hus
    have hd : d.tokens = us.map (·.kind) ++ [t.kind] := by
      rw [← hts, ← hus, List.map_append, List.map_singleton]
    rw [hparen] at heq
    exact (Derivation.eq_leftParen_absurd hd ht hk' heq).elim

end Stops

/-- Where the functions of the parser stop with the given fuel.  The rest of a chain stops where the
chain does, seen from before its first operand; what follows the parenthesis of a call is read up to
the closing one. -/
structure Stopping (fuel : Nat) : Prop where
  expression : ∀ {c e : Cursor} {x : Expr},
    expression fuel c = .ok (x, e) → Stops .expression c e
  sumTail : ∀ {c₀ c e : Cursor} {left x : Expr} {chained : Nat}, Stops .product c₀ c →
    sumTail fuel left chained c = .ok (x, e) → Stops .expression c₀ e
  product : ∀ {c e : Cursor} {x : Expr}, product fuel c = .ok (x, e) → Stops .product c e
  productTail : ∀ {c₀ c e : Cursor} {left x : Expr} {chained : Nat}, Stops .unary c₀ c →
    productTail fuel left chained c = .ok (x, e) → Stops .product c₀ e
  unary : ∀ {c e : Cursor} {x : Expr}, unary fuel c = .ok (x, e) → Stops .unary c e
  power : ∀ {c e : Cursor} {x : Expr}, power fuel c = .ok (x, e) → Stops .power c e
  primary : ∀ {c e : Cursor} {x : Expr}, primary fuel c = .ok (x, e) → Stops .primary c e
  arguments : ∀ {c e : Cursor} {xs : List Expr}, arguments fuel c = .ok (xs, e) →
    Stops .primary c e
  argumentsTail : ∀ {c e : Cursor} {before xs : List Expr},
    argumentsTail fuel before c = .ok (xs, e) → Stops .primary c e

namespace Stopping

variable {f : Nat} {c c₀ e : Cursor} {x : Expr}

theorem expression_step (ih : Stopping f) (h : Formula.expression (f + 1) c = .ok (x, e)) :
    Stops .expression c e := by
  obtain ⟨left, m, hleft, hmore⟩ := expression_eq_ok.1 h
  exact ih.sumTail (ih.product hleft) hmore

theorem product_step (ih : Stopping f) (h : Formula.product (f + 1) c = .ok (x, e)) :
    Stops .product c e := by
  obtain ⟨left, m, hleft, hmore⟩ := product_eq_ok.1 h
  exact ih.productTail (ih.unary hleft) hmore

theorem sumTail_step (ih : Stopping f) {left : Expr} {chained : Nat} (hc : Stops .product c₀ c)
    (h : Formula.sumTail (f + 1) left chained c = .ok (x, e)) : Stops .expression c₀ e := by
  cases hop : additive? c.current.kind with
  | none =>
    rw [sumTail_of_none hop] at h
    cases h
    exact hc.imp fun hend => endsBefore_expression hend hop
  | some op =>
    obtain ⟨_, right, m, hright, hmore⟩ := (sumTail_of_some hop).1 h
    exact ih.sumTail ((ih.product hright).extend (c.advance_suffix.trans hc.1)) hmore

theorem productTail_step (ih : Stopping f) {left : Expr} {chained : Nat} (hc : Stops .unary c₀ c)
    (h : Formula.productTail (f + 1) left chained c = .ok (x, e)) : Stops .product c₀ e := by
  cases hop : multiplicative? c.current.kind with
  | none =>
    rw [productTail_of_none hop] at h
    cases h
    exact hc.imp fun hend => endsBefore_product hend hop
  | some op =>
    obtain ⟨_, right, m, hright, hmore⟩ := (productTail_of_some hop).1 h
    exact ih.productTail ((ih.unary hright).extend (c.advance_suffix.trans hc.1)) hmore

theorem unary_step (ih : Stopping f) (h : Formula.unary (f + 1) c = .ok (x, e)) :
    Stops .unary c e := by
  cases hsign : sign? c.current.kind with
  | none =>
    rw [unary_of_none hsign] at h
    exact ih.power h
  | some sign =>
    obtain ⟨_, operand, m, hoperand, -, rfl⟩ := (unary_of_some hsign).1 h
    exact (ih.unary hoperand).extend c.advance_suffix

theorem power_step (ih : Stopping f) (h : Formula.power (f + 1) c = .ok (x, e)) :
    Stops .power c e := by
  obtain ⟨base, m, hbase, h⟩ := power_eq_ok.1 h
  have hm := ih.primary hbase
  by_cases hpow : m.current.kind = .operator .pow
  · rw [if_pos hpow] at h
    obtain ⟨_, exponent, e', hexponent, -, rfl⟩ := h
    exact (ih.unary hexponent).extend (m.advance_suffix.trans hm.1)
  · rw [if_neg hpow] at h
    obtain ⟨-, rfl⟩ := h
    exact hm.imp fun hend => endsBefore_power hend hpow

theorem primary_step (ih : Stopping f) (h : Formula.primary (f + 1) c = .ok (x, e)) :
    Stops .primary c e := by
  rcases primary_starts h with ⟨value, hk⟩ | hk | ⟨text, hk⟩
  · rw [primary_of_number hk] at h
    cases h
    exact Stops.advance List.suffix_rfl (by rw [hk]; rfl)
  · obtain ⟨_, m, hm, hclose, rfl⟩ := (primary_of_leftParen hk).1 h
    exact Stops.advance ((ih.expression hm).1.trans c.advance_suffix) (by rw [hclose]; rfl)
  · by_cases hopen : c.advance.current.kind = .leftParen
    · obtain ⟨_, g, xs, m, _, hxs, _, _, rfl⟩ := (primary_of_call hk hopen).1 h
      exact (ih.arguments hxs).extend (c.advance.advance_suffix.trans c.advance_suffix)
    · rw [primary_of_name hk hopen] at h
      cases h
      exact ⟨c.advance_suffix,
        Or.inl ((endsBefore_primary_or c.advance.current.kind).resolve_right hopen)⟩

theorem arguments_step (ih : Stopping f) {xs : List Expr}
    (h : Formula.arguments (f + 1) c = .ok (xs, e)) : Stops .primary c e := by
  by_cases hclose : c.current.kind = .rightParen
  · rw [arguments_of_rightParen hclose] at h
    cases h
    exact Stops.advance List.suffix_rfl (by rw [hclose]; rfl)
  · rw [arguments_of_ne hclose] at h
    exact ih.argumentsTail h

theorem argumentsTail_step (ih : Stopping f) {before xs : List Expr}
    (h : Formula.argumentsTail (f + 1) before c = .ok (xs, e)) : Stops .primary c e := by
  obtain ⟨y, m, hy, h⟩ := argumentsTail_eq_ok.1 h
  have hm := (ih.expression hy).1
  rcases h with ⟨_, hmore⟩ | ⟨hclose, -, rfl⟩
  · exact (ih.argumentsTail hmore).extend (m.advance_suffix.trans hm)
  · exact Stops.advance hm (by rw [hclose]; rfl)

end Stopping

/-- **Where the parser stops.** -/
theorem stopping (fuel : Nat) : Stopping fuel := by
  induction fuel with
  | zero => constructor <;> intros <;> contradiction
  | succ f ih =>
    exact
      { expression := ih.expression_step
        sumTail := ih.sumTail_step
        product := ih.product_step
        productTail := ih.productTail_step
        unary := ih.unary_step
        power := ih.power_step
        primary := ih.primary_step
        arguments := ih.arguments_step
        argumentsTail := ih.argumentsTail_step }

end ShapeEstimator.Formula
