/-
  ShapeEstimator.Proofs.Formula.Exactness
  ────────────────────────────────
  **THE PARSER IS THE GRAMMAR.**

  A text is read as a tree exactly when its tokens have a derivation whose calls fit
  and whose cost is at most 128, and then the tree is that of the derivation, of
  which there is one:

      parse source = .ok e  ↔  ∃ d, d spells the tokens ∧ d.cost ≤ 128 ∧ d.tree = e
-/
import ShapeEstimator.Proofs.Formula.Soundness

namespace ShapeEstimator.Formula

/-! ## §1. The end token. -/

theorem simpleToken?_ne_finish {c : Char} {k : TokenKind} (h : simpleToken? c = some k) :
    k ≠ .finish := by
  unfold simpleToken? at h
  split at h <;> cases h <;> nofun

/-- Tokens that end with their only end token. -/
def EndsOnce (ts : List Token) : Prop :=
  ∃ init last, ts = init ++ [last] ∧ last.kind = .finish ∧ ∀ t ∈ init, t.kind ≠ .finish

theorem EndsOnce.cons {t : Token} {ts : List Token} (ht : t.kind ≠ .finish) (h : EndsOnce ts) :
    EndsOnce (t :: ts) := by
  obtain ⟨init, last, rfl, hlast, hinit⟩ := h
  refine ⟨t :: init, last, rfl, hlast, ?_⟩
  intro u hu
  rcases List.mem_cons.1 hu with rfl | hu
  · exact ht
  · exact hinit u hu

theorem endsOnce_tokensFrom (position : Nat) (cs : List Char) :
    ∀ ts, tokensFrom position cs = .ok ts → EndsOnce ts := by
  fun_induction tokensFrom position cs with
  | case1 position =>
    intro ts h
    cases h
    exact ⟨[], _, rfl, rfl, fun t ht => nomatch ht⟩
  | case2 position c rest kind hkind ih =>
    intro ts h
    obtain ⟨more, hmore, h⟩ := bind_eq_ok.1 h
    cases h
    exact (ih more hmore).cons (simpleToken?_ne_finish hkind)
  | case3 position c rest hsimple hblank ih => exact ih
  | case4 => intro ts h; exact nomatch h
  | case5 position c rest hsimple hblank hstart scanned lexeme value hvalue ih =>
    intro ts h
    obtain ⟨more, hmore, h⟩ := bind_eq_ok.1 h
    cases h
    exact (ih more hmore).cons nofun
  | case6 position c rest hsimple hblank hstart hname lexeme ih =>
    intro ts h
    obtain ⟨more, hmore, h⟩ := bind_eq_ok.1 h
    cases h
    exact (ih more hmore).cons nofun
  | case7 => intro ts h; exact nomatch h

theorem endsOnce_tokens {source : String} {ts : List Token} (h : tokens source = .ok ts) :
    EndsOnce ts :=
  endsOnce_tokensFrom 0 source.toList ts h

/-! ## §2. Whole formulas. -/

/-- A list that ends with its only end token splits at an end token in one way. -/
theorem eq_of_append_finish {us init rest : List Token} {t last : Token} (ht : t.kind = .finish)
    (hinit : ∀ t ∈ init, t.kind ≠ .finish) (h : us ++ t :: rest = init ++ [last]) : us = init := by
  have hrest : rest = [] := by
    rcases List.eq_nil_or_concat rest with hnil | ⟨rest, u, rfl⟩
    · exact hnil
    · -- otherwise the end token would stand before the last one
      rw [List.concat_eq_append, ← List.cons_append, ← List.append_assoc] at h
      obtain ⟨h, _⟩ := List.append_inj' h rfl
      exact absurd ht (hinit t (h ▸ List.mem_append_right us List.mem_cons_self))
  rw [hrest] at h
  exact (List.append_inj' h rfl).1

/-- A formula that is read: the first token is not the end, and the expression ends at the end. -/
theorem parseTokens_eq_ok {init : List Token} {last : Token} {e : Expr}
    (hlast : last.kind = .finish) (hinit : ∀ t ∈ init, t.kind ≠ .finish) :
    parseTokens (init ++ [last]) = .ok e ↔
      init ≠ [] ∧ ∃ c, expression (fuelFor init.length) ((⟨last, [], 0⟩ : Cursor).rewind init)
        = .ok (e, c) ∧ c.current.kind = .finish := by
  cases init with
  | nil =>
    rw [List.nil_append, parseTokens, if_pos hlast]
    exact ⟨fun h => (nomatch h), fun ⟨h, _⟩ => absurd rfl h⟩
  | cons first more =>
    rw [List.cons_append, parseTokens, if_neg (hinit first List.mem_cons_self), bind_eq_ok,
      Prod.exists, List.length_append]
    constructor
    · rintro ⟨x, c, hx, h⟩
      dsimp only at h
      split at h
      · rename_i hc
        cases h
        exact ⟨List.cons_ne_nil _ _, c, hx, hc⟩
      · exact nomatch h
    · rintro ⟨_, c, hx, hc⟩
      refine ⟨e, c, hx, ?_⟩
      dsimp only
      rw [if_pos hc]
      rfl

/-- The kinds of a list of tokens without the last, which is the end token. -/
def kindsBeforeEnd (ts : List Token) : List TokenKind := ts.dropLast.map (·.kind)

theorem parseTokens_eq_ok_iff {ts : List Token} (h : EndsOnce ts) {e : Expr} :
    parseTokens ts = .ok e ↔ ∃ d : Derivation .expression, d.tokens = kindsBeforeEnd ts
      ∧ d.CallsFit ∧ d.cost ≤ maxNesting ∧ d.tree = e := by
  obtain ⟨init, last, rfl, hlast, hinit⟩ := h
  rw [parseTokens_eq_ok hlast hinit, kindsBeforeEnd, List.dropLast_concat]
  constructor
  · rintro ⟨_, c, hx, hc⟩
    -- all tokens lie behind the first cursor, and the end token is the last of them
    have hclosed : ((⟨last, [], 0⟩ : Cursor).rewind init).Closed :=
      Cursor.closed_rewind.2 fun t ht => by cases ht; exact hlast
    have hdepth : ((⟨last, [], 0⟩ : Cursor).rewind init).depth ≤ maxNesting := by
      rw [Cursor.depth_rewind]
      exact Nat.zero_le _
    obtain ⟨d, us, hus, hkinds, rfl, hfit, hcost⟩ := (sound _).expression hclosed hdepth hx
    -- the expression ends at an end token, of which there is only one
    have happend := congrArg Cursor.tokens hus
    rw [Cursor.tokens_rewind, Cursor.tokens_rewind] at happend
    have hall : us = init := eq_of_append_finish hc hinit happend.symm
    exact ⟨d, by rw [← hkinds, hall], hfit, by omega, rfl⟩
  · rintro ⟨d, hkinds, hfit, hcost, rfl⟩
    -- a derivation has a first token, so the formula is not empty
    obtain ⟨k, ks, hks, _⟩ := d.head (by decide)
    have hne : init ≠ [] := by
      rintro rfl
      exact nomatch hkinds.symm.trans hks
    have hend : Phrase.expression.EndsBefore last.kind := by rw [hlast]; decide
    refine ⟨hne, ⟨last, [], 0⟩, ?_, hlast⟩
    exact runs d hkinds.symm hend nofun hfit (by rw [Nat.zero_add]; exact hcost)
      (show 8 * init.length + 5 ≤ 8 * init.length + 8 + 8 by omega)

/-- A text that is read has the tokens of a derivation, with an end token behind them. -/
theorem derivation_of_parse {source : String} {e : Expr} (h : parse source = .ok e) :
    ∃ (ts : List Token) (d : Derivation .expression), tokens source = .ok ts
      ∧ ts.map (·.kind) = d.tokens ++ [.finish] ∧ d.CallsFit ∧ d.cost ≤ maxNesting ∧ d.tree = e := by
  unfold parse at h
  obtain ⟨ts, htokens, h⟩ := bind_eq_ok.1 h
  have honce : EndsOnce ts := endsOnce_tokens htokens
  obtain ⟨d, hd, hfit, hcost, htree⟩ := (parseTokens_eq_ok_iff honce).1 h
  obtain ⟨init, last, rfl, hlast, _⟩ := honce
  rw [kindsBeforeEnd, List.dropLast_concat] at hd
  refine ⟨init ++ [last], d, htokens, ?_, hfit, hcost, htree⟩
  rw [List.map_append, ← hd, List.map_singleton, hlast]

/-- **The parser is the grammar.**  A text whose tokens are read is a formula with the tree `e`
exactly when the tokens before the end have a derivation with that tree, whose calls fit and whose
cost is at most the greatest depth; and no tokens have two derivations. -/
theorem parse_eq_ok_iff_derivation {source : String} {ts : List Token}
    (h : tokens source = .ok ts) :
    (∀ e, parse source = .ok e ↔ ∃ d : Derivation .expression, d.tokens = kindsBeforeEnd ts
      ∧ d.CallsFit ∧ d.cost ≤ maxNesting ∧ d.tree = e)
    ∧ ∀ d d' : Derivation .expression, d.tokens = kindsBeforeEnd ts →
        d'.tokens = kindsBeforeEnd ts → d = d' := by
  constructor
  · intro e
    have hparse : parse source = parseTokens ts := by
      unfold parse
      rw [h]
      rfl
    rw [hparse]
    exact parseTokens_eq_ok_iff (endsOnce_tokens h)
  · intro d d' hd hd'
    exact Derivation.tokens_injective (hd.trans hd'.symm)

/-- A sign stands over the power, and the call is the base of it. -/
theorem parse_signed_power :
    tokens "-max(a, b)^c" = .ok
      [⟨.operator .sub, 0, ['-']⟩, ⟨.name "max", 1, ['m', 'a', 'x']⟩, ⟨.leftParen, 4, ['(']⟩,
        ⟨.name "a", 5, ['a']⟩, ⟨.comma, 6, [',']⟩, ⟨.name "b", 8, ['b']⟩,
        ⟨.rightParen, 9, [')']⟩, ⟨.operator .pow, 10, ['^']⟩, ⟨.name "c", 11, ['c']⟩,
        ⟨.finish, 12, []⟩]
    ∧ parse "-max(a, b)^c" = .ok
      (.unary .negative (.binary .pow (.call .max [.variable "a", .variable "b"]) (.variable "c")))
    := by
  have htokens : tokens "-max(a, b)^c" = .ok
      [⟨.operator .sub, 0, ['-']⟩, ⟨.name "max", 1, ['m', 'a', 'x']⟩, ⟨.leftParen, 4, ['(']⟩,
        ⟨.name "a", 5, ['a']⟩, ⟨.comma, 6, [',']⟩, ⟨.name "b", 8, ['b']⟩,
        ⟨.rightParen, 9, [')']⟩, ⟨.operator .pow, 10, ['^']⟩, ⟨.name "c", 11, ['c']⟩,
        ⟨.finish, 12, []⟩] := by with_unfolding_all rfl
  refine ⟨htokens, ?_⟩
  apply ((parse_eq_ok_iff_derivation htokens).1 _).2
  refine ⟨.single (.signed .negative (.unsigned (.raised
    (.call "max" (.argumentBefore (.single (.named "a")) (.argument (.single (.named "b")))))
    (.named "c")))), rfl, ?_, by decide, rfl⟩
  have hfits : Function.ofName? "max" = some .max ∧ Function.max.arity.admits 2 = true := by
    decide
  exact ⟨⟨⟨⟨⟨.max, hfits⟩, ⟨⟨trivial, trivial⟩, trivial⟩, ⟨trivial, trivial⟩, trivial⟩, trivial⟩,
    trivial⟩, trivial⟩

end ShapeEstimator.Formula
