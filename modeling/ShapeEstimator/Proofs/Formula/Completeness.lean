/-
  ShapeEstimator.Proofs.Formula.Completeness
  ────────────────────────────────
  **WHAT HAS A DERIVATION IS READ.**

  Where the tokens of a derivation stand, followed by a token that does not go on
  with the phrase, and its cost fits under the greatest depth, the parser reads
  exactly these tokens and returns the meaning of the derivation:

      depth + d.cost ≤ 128  →  Runs p fuel (c.rewind ts) d.meaning c

  The fuel is eight for each token, so that it is never used up.
-/
import ShapeEstimator.Proofs.Formula.ParserStep
import ShapeEstimator.Proofs.Formula.Unambiguity

namespace ShapeEstimator.Formula

/-! ## §1. Operators of the grammar and of the parser. -/

theorem additive?_eq_some {k : TokenKind} {op : Operator} :
    additive? k = some op ↔ k = .operator op ∧ op.isAdditive = true := by
  constructor
  · intro h
    unfold additive? at h
    split at h <;> cases h <;> exact ⟨rfl, rfl⟩
  · rintro ⟨rfl, h⟩
    cases op <;> first | rfl | exact absurd h (by decide)

theorem multiplicative?_eq_some {k : TokenKind} {op : Operator} :
    multiplicative? k = some op ↔ k = .operator op ∧ op.isMultiplicative = true := by
  constructor
  · intro h
    unfold multiplicative? at h
    split at h <;> cases h <;> exact ⟨rfl, rfl⟩
  · rintro ⟨rfl, h⟩
    cases op <;> first | rfl | exact absurd h (by decide)

theorem sign?_eq_some {k : TokenKind} {sign : Sign} :
    sign? k = some sign ↔ k = .operator sign.operator := by
  constructor
  · intro h
    unfold sign? at h
    split at h <;> cases h <;> rfl
  · rintro rfl
    cases sign <;> rfl

theorem additive?_eq_none {k : TokenKind} (h : Phrase.summands.EndsBefore k) :
    additive? k = none := by
  cases ha : additive? k with
  | none => rfl
  | some op =>
    obtain ⟨rfl, hop⟩ := additive?_eq_some.1 ha
    exact absurd h (Derivation.not_endsBefore_additive hop)

theorem multiplicative?_eq_none {k : TokenKind} (h : Phrase.factors.EndsBefore k) :
    multiplicative? k = none := by
  cases hm : multiplicative? k with
  | none => rfl
  | some op =>
    obtain ⟨rfl, hop⟩ := multiplicative?_eq_some.1 hm
    exact absurd h (Derivation.not_endsBefore_multiplicative hop)

theorem sign?_eq_none {k : TokenKind} (h : ∀ op, k ≠ .operator op) : sign? k = none := by
  cases hs : sign? k with
  | none => rfl
  | some sign => exact absurd (sign?_eq_some.1 hs) (h _)

/-! ## §2. Runs of the parser. -/

/-- The parser's function for a phrase, with the given fuel, goes from one cursor to another and
finds the given meaning.  The rest of a chain closes the levels that the chain has opened; the
arguments of a call take the closing parenthesis with them. -/
def Runs : (p : Phrase) → Nat → Cursor → p.Meaning → Cursor → Prop
  | .expression, fuel, c, x, c' => expression fuel c = .ok (x, c')
  | .summands, fuel, c, f, c' =>
    ∀ left chained, sumTail fuel left chained c = .ok (f left, c'.ascend chained)
  | .product, fuel, c, x, c' => product fuel c = .ok (x, c')
  | .factors, fuel, c, f, c' =>
    ∀ left chained, productTail fuel left chained c = .ok (f left, c'.ascend chained)
  | .unary, fuel, c, x, c' => unary fuel c = .ok (x, c')
  | .power, fuel, c, x, c' => power fuel c = .ok (x, c')
  | .primary, fuel, c, x, c' => primary fuel c = .ok (x, c')
  | .arguments, fuel, c, xs, c' =>
    ∀ before, argumentsTail fuel before c = .ok (before ++ xs, c'.advance)

/-- The fuel that a phrase needs besides eight for each token but its first. -/
def Phrase.lead : Phrase → Nat
  | .primary => 1
  | .power => 2
  | .unary => 3
  | .product => 4
  | .expression => 5
  | .arguments => 6
  | .summands | .factors => 9

/-- Only the rest of a chain can be empty, and nothing starts with a closing parenthesis. -/
theorem Derivation.head {p : Phrase} (d : Derivation p) (hp : p.lead ≤ 6) :
    ∃ k ts, d.tokens = k :: ts ∧ k ≠ .rightParen := by
  induction d with
  | sum first more ih _ | product first more ih _ =>
    obtain ⟨k, ts, hts, hk⟩ := ih (by decide)
    exact ⟨k, ts ++ more.tokens, by rw [tokens, hts, List.cons_append], hk⟩
  | noSummand | summand op additive operand more => exact absurd hp (by decide)
  | noFactor | factor op multiplicative operand more => exact absurd hp (by decide)
  | unsigned operand ih => exact ih (by decide)
  | base x ih => exact ih (by decide)
  | argument x ih => exact ih (by decide)
  | signed sign operand | number value | name text | call function args | enclosed x =>
    refine ⟨_, _, rfl, ?_⟩
    intro h
    cases h
  | raised x exponent ih _ =>
    obtain ⟨k, ts, hts, hk⟩ := ih (by decide)
    refine ⟨k, ts ++ .operator .pow :: exponent.tokens, ?_, hk⟩
    rw [tokens_raised, hts, List.cons_append]
  | argumentBefore x more ih _ =>
    obtain ⟨k, ts, hts, hk⟩ := ih (by decide)
    refine ⟨k, ts ++ .comma :: more.tokens, ?_, hk⟩
    rw [tokens_argumentBefore, hts, List.cons_append]

theorem Derivation.length_pos {p : Phrase} (d : Derivation p) (hp : p.lead ≤ 6) {ts : List Token}
    (hts : ts.map (·.kind) = d.tokens) : 0 < ts.length := by
  obtain ⟨k, ks, hks, _⟩ := d.head hp
  rw [← List.length_map (f := (·.kind)), hts, hks]
  exact Nat.succ_pos _

namespace Cursor

/-- The kind of the first token is the first of the kinds. -/
theorem current_rewind_kind {c : Cursor} {ts : List Token} {k : TokenKind} {r : List TokenKind}
    (h : ts.map (·.kind) ++ c.current.kind :: c.rest.map (·.kind) = k :: r) :
    (c.rewind ts).current.kind = k := by
  cases ts with
  | nil => exact (List.cons.inj h).1
  | cons t ts => exact (List.cons.inj h).1

theorem endsBefore_rewind_summands {c : Cursor} {ts : List Token} {more : Derivation .summands}
    (hts : ts.map (·.kind) = more.tokens) (hc : Phrase.summands.EndsBefore c.current.kind) :
    Phrase.product.EndsBefore (c.rewind ts).current.kind := by
  obtain ⟨k, r, h, hk⟩ := more.summands_head (c.rest.map (·.kind)) hc
  rw [current_rewind_kind (hts ▸ h)]
  exact hk

theorem endsBefore_rewind_factors {c : Cursor} {ts : List Token} {more : Derivation .factors}
    (hts : ts.map (·.kind) = more.tokens) (hc : Phrase.factors.EndsBefore c.current.kind) :
    Phrase.unary.EndsBefore (c.rewind ts).current.kind := by
  obtain ⟨k, r, h, hk⟩ := more.factors_head (c.rest.map (·.kind)) hc
  rw [current_rewind_kind (hts ▸ h)]
  exact hk

end Cursor

/-! ## §3. A rule of the grammar, a run of the parser. -/

namespace Runs

variable {f : Nat} {c m e : Cursor} {t : Token} {l : List Token}

theorem sum {left : Expr} {more : Expr → Expr} (hfirst : Runs .product f c left m)
    (hmore : Runs .summands f m more e) : Runs .expression (f + 1) c (more left) e :=
  expression_eq_ok.2 ⟨left, m, hfirst, hmore left 0⟩

theorem product {left : Expr} {more : Expr → Expr} (hfirst : Runs .unary f c left m)
    (hmore : Runs .factors f m more e) : Runs .product (f + 1) c (more left) e :=
  product_eq_ok.2 ⟨left, m, hfirst, hmore left 0⟩

theorem noSummand (hend : Phrase.summands.EndsBefore c.current.kind) :
    Runs .summands (f + 1) c (fun left => left) c := by
  intro left chained
  exact sumTail_of_none (additive?_eq_none hend)

theorem noFactor (hend : Phrase.factors.EndsBefore c.current.kind) :
    Runs .factors (f + 1) c (fun left => left) c := by
  intro left chained
  exact productTail_of_none (multiplicative?_eq_none hend)

/-- Operand and rest are read one level down; the end of the rest closes that level too. -/
theorem summand {op : Operator} {right : Expr} {more : Expr → Expr} (ht : t.kind = .operator op)
    (additive : op.isAdditive = true) (hdepth : c.depth < maxNesting)
    (hoperand : Runs .product f (c.deeper.rewind l) right m)
    (hmore : Runs .summands f m more c.deeper) :
    Runs .summands (f + 1) (c.rewind (t :: l)) (fun left => more (.binary op left right)) c := by
  intro left chained
  -- the rest is read with one operator more to close
  have hrest := hmore (.binary op left right) (chained + 1)
  rw [Cursor.deeper_ascend_succ] at hrest
  refine (sumTail_of_some (additive?_eq_some.2 ⟨ht, additive⟩)).2 ⟨?_, right, m, ?_, hrest⟩
  · rw [Cursor.depth_rewind]
    exact hdepth
  · rw [Cursor.deeper_advance_rewind_cons]
    exact hoperand

theorem factor {op : Operator} {right : Expr} {more : Expr → Expr} (ht : t.kind = .operator op)
    (multiplicative : op.isMultiplicative = true) (hdepth : c.depth < maxNesting)
    (hoperand : Runs .unary f (c.deeper.rewind l) right m)
    (hmore : Runs .factors f m more c.deeper) :
    Runs .factors (f + 1) (c.rewind (t :: l)) (fun left => more (.binary op left right)) c := by
  intro left chained
  have hrest := hmore (.binary op left right) (chained + 1)
  rw [Cursor.deeper_ascend_succ] at hrest
  refine (productTail_of_some (multiplicative?_eq_some.2 ⟨ht, multiplicative⟩)).2
    ⟨?_, right, m, ?_, hrest⟩
  · rw [Cursor.depth_rewind]
    exact hdepth
  · rw [Cursor.deeper_advance_rewind_cons]
    exact hoperand

theorem signed {sign : Sign} {operand : Expr} (ht : t.kind = .operator sign.operator)
    (hdepth : c.depth < maxNesting) (hoperand : Runs .unary f (c.deeper.rewind l) operand c.deeper) :
    Runs .unary (f + 1) (c.rewind (t :: l)) (.unary sign operand) c := by
  refine (unary_of_some (sign?_eq_some.2 ht)).2
    ⟨?_, operand, c.deeper, ?_, rfl, (Cursor.deeper_ascend c).symm⟩
  · rw [Cursor.depth_rewind]
    exact hdepth
  · rw [Cursor.deeper_advance_rewind_cons]
    exact hoperand

theorem unsigned {x : Expr} (hop : ∀ op, c.current.kind ≠ .operator op)
    (hx : Runs .power f c x m) : Runs .unary (f + 1) c x m :=
  (unary_of_none (sign?_eq_none hop)).trans hx

theorem base {x : Expr} (hend : Phrase.power.EndsBefore m.current.kind)
    (hx : Runs .primary f c x m) : Runs .power (f + 1) c x m := by
  have hpow : m.current.kind ≠ .operator .pow := fun h => absurd (h ▸ hend) (by decide)
  refine power_eq_ok.2 ⟨x, m, hx, ?_⟩
  rw [if_neg hpow]
  exact ⟨rfl, rfl⟩

theorem raised {x exponent : Expr} (ht : t.kind = .operator .pow) (hdepth : c.depth < maxNesting)
    (hx : Runs .primary f m x (c.rewind (t :: l)))
    (hexponent : Runs .unary f (c.deeper.rewind l) exponent c.deeper) :
    Runs .power (f + 1) m (.binary .pow x exponent) c := by
  refine power_eq_ok.2 ⟨x, c.rewind (t :: l), hx, ?_⟩
  rw [Cursor.current_rewind_cons, if_pos ht, Cursor.depth_rewind,
    Cursor.deeper_advance_rewind_cons]
  exact ⟨hdepth, exponent, c.deeper, hexponent, rfl, (Cursor.deeper_ascend c).symm⟩

theorem call {function : String} {g : Function} {args : List Expr} {u v : Token}
    (ht : t.kind = .name function) (hu : u.kind = .leftParen)
    (hg : Function.ofName? function = some g) (hcount : g.arity.admits args.length = true)
    (hdepth : c.depth < maxNesting)
    (hfirst : ((c.deeper.rewind [v]).rewind l).current.kind ≠ .rightParen)
    (hargs : Runs .arguments f ((c.deeper.rewind [v]).rewind l) args (c.deeper.rewind [v])) :
    Runs .primary (f + 2) (c.rewind (t :: u :: (l ++ [v]))) (.call g args) c := by
  have hnext : (c.rewind (t :: u :: (l ++ [v]))).advance.current.kind = .leftParen := by
    rw [Cursor.advance_rewind_cons]
    exact hu
  -- the arguments are read behind an empty list of earlier ones
  have hrun := hargs []
  rw [← arguments_of_ne hfirst] at hrun
  refine (primary_of_call ht hnext).2
    ⟨?_, g, args, c.deeper, hg, ?_, hcount, rfl, (Cursor.deeper_ascend c).symm⟩
  · rw [Cursor.depth_rewind]
    exact hdepth
  · rw [Cursor.advance_rewind_cons, Cursor.deeper_advance_rewind_cons, Cursor.rewind_append]
    exact hrun

theorem enclosed {x : Expr} {v : Token} (ht : t.kind = .leftParen) (hv : v.kind = .rightParen)
    (hdepth : c.depth < maxNesting)
    (hx : Runs .expression f ((c.deeper.rewind [v]).rewind l) x (c.deeper.rewind [v])) :
    Runs .primary (f + 1) (c.rewind (t :: (l ++ [v]))) x c := by
  refine (primary_of_leftParen ht).2 ⟨?_, c.deeper.rewind [v], ?_, hv, ?_⟩
  · rw [Cursor.depth_rewind]
    exact hdepth
  · rw [Cursor.deeper_advance_rewind_cons, Cursor.rewind_append]
    exact hx
  · rw [Cursor.advance_rewind_cons, Cursor.rewind_nil, Cursor.deeper_ascend]

theorem argument {x : Expr} (hclose : m.current.kind = .rightParen)
    (hx : Runs .expression f c x m) : Runs .arguments (f + 1) c [x] m := by
  intro before
  exact argumentsTail_eq_ok.2 ⟨x, m, hx, .inr ⟨hclose, rfl, rfl⟩⟩

theorem argumentBefore {x : Expr} {more : List Expr} (ht : t.kind = .comma)
    (hx : Runs .expression f c x (m.rewind (t :: l)))
    (hmore : Runs .arguments f (m.rewind l) more m) :
    Runs .arguments (f + 1) c (x :: more) m := by
  intro before
  have hrest := hmore (before ++ [x])
  rw [List.append_assoc] at hrest
  refine argumentsTail_eq_ok.2 ⟨x, m.rewind (t :: l), hx, .inl ⟨ht, ?_⟩⟩
  rw [Cursor.advance_rewind_cons]
  exact hrest

end Runs

/-! ## §4. One rule at a time. -/

namespace Derivation

/-- A derivation is read wherever its tokens stand in front of one that ends the phrase, with levels
for its cost and eight steps of fuel for each token. -/
def IsRead {p : Phrase} (d : Derivation p) : Prop :=
  ∀ ⦃c : Cursor⦄ ⦃ts : List Token⦄ ⦃fuel : Nat⦄,
    ts.map (·.kind) = d.tokens → p.EndsBefore c.current.kind →
    (p = .arguments → c.current.kind = .rightParen) → d.CallsFit →
    c.depth + d.cost ≤ maxNesting → 8 * ts.length + p.lead ≤ fuel + 8 →
    Runs p fuel (c.rewind ts) d.meaning c

namespace IsRead

theorem sum {first : Derivation .product} {more : Derivation .summands} (hfirst : first.IsRead)
    (hmore : more.IsRead) : (Derivation.sum first more).IsRead := by
  intro c ts fuel hts hend _ hfit hcost hfuel
  -- the first product is not empty, so what it reads pays for the fuel of the rest
  obtain ⟨ts₁, ts₂, rfl, h₁, h₂⟩ := List.map_eq_append_iff.1 hts
  have hpos := first.length_pos (by decide) h₁
  have hcost : c.depth + max first.cost more.cost ≤ maxNesting := hcost
  have hfuel : 8 * (ts₁ ++ ts₂).length + 5 ≤ fuel + 8 := hfuel
  rw [List.length_append] at hfuel
  obtain ⟨f, rfl⟩ : ∃ f, fuel = f + 1 := ⟨fuel - 1, by omega⟩
  rw [Cursor.rewind_append]
  refine Runs.sum (m := c.rewind ts₂) ?_ ?_
  · exact hfirst h₁ (Cursor.endsBefore_rewind_summands h₂ hend) nofun hfit.1
      (by rw [Cursor.depth_rewind]; omega) (show 8 * ts₁.length + 4 ≤ f + 8 by omega)
  · exact hmore h₂ hend nofun hfit.2 (by omega) (show 8 * ts₂.length + 9 ≤ f + 8 by omega)

theorem noSummand : Derivation.noSummand.IsRead := by
  intro c ts fuel hts hend _ _ _ hfuel
  cases List.map_eq_nil_iff.1 hts
  have hfuel : 8 * 0 + 9 ≤ fuel + 8 := hfuel
  obtain ⟨f, rfl⟩ : ∃ f, fuel = f + 1 := ⟨fuel - 1, by omega⟩
  exact Runs.noSummand hend

theorem summand {op : Operator} {additive : op.isAdditive = true} {operand : Derivation .product}
    {more : Derivation .summands} (hoperand : operand.IsRead) (hmore : more.IsRead) :
    (Derivation.summand op additive operand more).IsRead := by
  intro c ts fuel hts hend _ hfit hcost hfuel
  obtain ⟨t, ts, rfl, ht, hts⟩ := List.map_eq_cons_iff.1 hts
  obtain ⟨ts₁, ts₂, rfl, h₁, h₂⟩ := List.map_eq_append_iff.1 hts
  have hcost : c.depth + (max operand.cost more.cost + 1) ≤ maxNesting := hcost
  have hfuel : 8 * (t :: (ts₁ ++ ts₂)).length + 9 ≤ fuel + 8 := hfuel
  rw [List.length_cons, List.length_append] at hfuel
  obtain ⟨f, rfl⟩ : ∃ f, fuel = f + 1 := ⟨fuel - 1, by omega⟩
  -- operand and rest end one level down
  refine Runs.summand (m := c.deeper.rewind ts₂) ht additive (by omega) ?_ ?_
  · rw [Cursor.rewind_append]
    exact hoperand h₁ (Cursor.endsBefore_rewind_summands (c := c.deeper) h₂ hend) nofun hfit.1
      (by rw [Cursor.depth_rewind, Cursor.depth_deeper]; omega)
      (show 8 * ts₁.length + 4 ≤ f + 8 by omega)
  · exact hmore (c := c.deeper) h₂ hend nofun hfit.2 (by rw [Cursor.depth_deeper]; omega)
      (show 8 * ts₂.length + 9 ≤ f + 8 by omega)

theorem product {first : Derivation .unary} {more : Derivation .factors} (hfirst : first.IsRead)
    (hmore : more.IsRead) : (Derivation.product first more).IsRead := by
  intro c ts fuel hts hend _ hfit hcost hfuel
  obtain ⟨ts₁, ts₂, rfl, h₁, h₂⟩ := List.map_eq_append_iff.1 hts
  have hpos := first.length_pos (by decide) h₁
  have hcost : c.depth + max first.cost more.cost ≤ maxNesting := hcost
  have hfuel : 8 * (ts₁ ++ ts₂).length + 4 ≤ fuel + 8 := hfuel
  rw [List.length_append] at hfuel
  obtain ⟨f, rfl⟩ : ∃ f, fuel = f + 1 := ⟨fuel - 1, by omega⟩
  rw [Cursor.rewind_append]
  refine Runs.product (m := c.rewind ts₂) ?_ ?_
  · exact hfirst h₁ (Cursor.endsBefore_rewind_factors h₂ hend) nofun hfit.1
      (by rw [Cursor.depth_rewind]; omega) (show 8 * ts₁.length + 3 ≤ f + 8 by omega)
  · exact hmore h₂ hend nofun hfit.2 (by omega) (show 8 * ts₂.length + 9 ≤ f + 8 by omega)

theorem noFactor : Derivation.noFactor.IsRead := by
  intro c ts fuel hts hend _ _ _ hfuel
  cases List.map_eq_nil_iff.1 hts
  have hfuel : 8 * 0 + 9 ≤ fuel + 8 := hfuel
  obtain ⟨f, rfl⟩ : ∃ f, fuel = f + 1 := ⟨fuel - 1, by omega⟩
  exact Runs.noFactor hend

theorem factor {op : Operator} {multiplicative : op.isMultiplicative = true}
    {operand : Derivation .unary} {more : Derivation .factors} (hoperand : operand.IsRead)
    (hmore : more.IsRead) : (Derivation.factor op multiplicative operand more).IsRead := by
  intro c ts fuel hts hend _ hfit hcost hfuel
  obtain ⟨t, ts, rfl, ht, hts⟩ := List.map_eq_cons_iff.1 hts
  obtain ⟨ts₁, ts₂, rfl, h₁, h₂⟩ := List.map_eq_append_iff.1 hts
  have hcost : c.depth + (max operand.cost more.cost + 1) ≤ maxNesting := hcost
  have hfuel : 8 * (t :: (ts₁ ++ ts₂)).length + 9 ≤ fuel + 8 := hfuel
  rw [List.length_cons, List.length_append] at hfuel
  obtain ⟨f, rfl⟩ : ∃ f, fuel = f + 1 := ⟨fuel - 1, by omega⟩
  refine Runs.factor (m := c.deeper.rewind ts₂) ht multiplicative (by omega) ?_ ?_
  · rw [Cursor.rewind_append]
    exact hoperand h₁ (Cursor.endsBefore_rewind_factors (c := c.deeper) h₂ hend) nofun hfit.1
      (by rw [Cursor.depth_rewind, Cursor.depth_deeper]; omega)
      (show 8 * ts₁.length + 3 ≤ f + 8 by omega)
  · exact hmore (c := c.deeper) h₂ hend nofun hfit.2 (by rw [Cursor.depth_deeper]; omega)
      (show 8 * ts₂.length + 9 ≤ f + 8 by omega)

theorem signed {sign : Sign} {operand : Derivation .unary} (hoperand : operand.IsRead) :
    (Derivation.signed sign operand).IsRead := by
  intro c ts fuel hts hend _ hfit hcost hfuel
  obtain ⟨t, ts, rfl, ht, hts⟩ := List.map_eq_cons_iff.1 hts
  have hcost : c.depth + (operand.cost + 1) ≤ maxNesting := hcost
  have hfuel : 8 * (t :: ts).length + 3 ≤ fuel + 8 := hfuel
  rw [List.length_cons] at hfuel
  obtain ⟨f, rfl⟩ : ∃ f, fuel = f + 1 := ⟨fuel - 1, by omega⟩
  exact Runs.signed ht (by omega) (hoperand (c := c.deeper) hts hend nofun hfit
    (by rw [Cursor.depth_deeper]; omega) (show 8 * ts.length + 3 ≤ f + 8 by omega))

theorem unsigned {operand : Derivation .power} (hoperand : operand.IsRead) :
    (Derivation.unsigned operand).IsRead := by
  intro c ts fuel hts hend _ hfit hcost hfuel
  have hpos := operand.length_pos (by decide) hts
  have hfuel : 8 * ts.length + 3 ≤ fuel + 8 := hfuel
  obtain ⟨f, rfl⟩ : ∃ f, fuel = f + 1 := ⟨fuel - 1, by omega⟩
  obtain ⟨k, ks, hks, hop⟩ := operand.power_head
  -- no sign stands in front of a power
  refine Runs.unsigned ?_ (hoperand hts hend nofun hfit hcost
    (show 8 * ts.length + 2 ≤ f + 8 by omega))
  rw [Cursor.current_rewind_kind (by rw [hts]; exact congrArg (· ++ _) hks)]
  exact hop

theorem base {x : Derivation .primary} (hx : x.IsRead) : (Derivation.base x).IsRead := by
  intro c ts fuel hts hend _ hfit hcost hfuel
  have hpos := x.length_pos (by decide) hts
  have hfuel : 8 * ts.length + 2 ≤ fuel + 8 := hfuel
  obtain ⟨f, rfl⟩ : ∃ f, fuel = f + 1 := ⟨fuel - 1, by omega⟩
  exact Runs.base hend (hx hts (hend.mono (by decide)) nofun hfit hcost
    (show 8 * ts.length + 1 ≤ f + 8 by omega))

theorem raised {x : Derivation .primary} {exponent : Derivation .unary} (hx : x.IsRead)
    (hexponent : exponent.IsRead) : (Derivation.raised x exponent).IsRead := by
  intro c ts fuel hts hend _ hfit hcost hfuel
  obtain ⟨ts₁, ts', rfl, h₁, hts'⟩ := List.map_eq_append_iff.1 hts
  obtain ⟨t, ts₂, rfl, ht, h₂⟩ := List.map_eq_cons_iff.1 hts'
  have hcost : c.depth + max x.cost (exponent.cost + 1) ≤ maxNesting := hcost
  have hfuel : 8 * (ts₁ ++ t :: ts₂).length + 2 ≤ fuel + 8 := hfuel
  rw [List.length_append, List.length_cons] at hfuel
  obtain ⟨f, rfl⟩ : ∃ f, fuel = f + 1 := ⟨fuel - 1, by omega⟩
  rw [Cursor.rewind_append]
  refine Runs.raised (l := ts₂) ht (by omega) ?_ ?_
  · exact hx h₁ (by rw [Cursor.current_rewind_cons, ht]; decide) nofun hfit.1
      (by rw [Cursor.depth_rewind]; omega) (show 8 * ts₁.length + 1 ≤ f + 8 by omega)
  · exact hexponent (c := c.deeper) h₂ hend nofun hfit.2 (by rw [Cursor.depth_deeper]; omega)
      (show 8 * ts₂.length + 3 ≤ f + 8 by omega)

theorem number {value : Decimal} : (Derivation.number value).IsRead := by
  intro c ts fuel hts _ _ _ _ hfuel
  obtain ⟨t, ts, rfl, ht, hts⟩ := List.map_eq_cons_iff.1 hts
  cases List.map_eq_nil_iff.1 hts
  have hfuel : 8 * 1 + 1 ≤ fuel + 8 := hfuel
  obtain ⟨f, rfl⟩ : ∃ f, fuel = f + 1 := ⟨fuel - 1, by omega⟩
  exact primary_of_number ht

theorem name {text : String} : (Derivation.name text).IsRead := by
  intro c ts fuel hts hend _ _ _ hfuel
  obtain ⟨t, ts, rfl, ht, hts⟩ := List.map_eq_cons_iff.1 hts
  cases List.map_eq_nil_iff.1 hts
  have hfuel : 8 * 1 + 1 ≤ fuel + 8 := hfuel
  obtain ⟨f, rfl⟩ : ∃ f, fuel = f + 1 := ⟨fuel - 1, by omega⟩
  -- a parenthesis would not end the name
  have hparen : c.current.kind ≠ .leftParen := fun h => absurd (h ▸ hend) (by decide)
  exact primary_of_name ht hparen

theorem call {function : String} {args : Derivation .arguments} (hargs : args.IsRead) :
    (Derivation.call function args).IsRead := by
  intro c ts fuel hts _ _ hfit hcost hfuel
  obtain ⟨t, ts, rfl, ht, hts⟩ := List.map_eq_cons_iff.1 hts
  obtain ⟨u, ts, rfl, hu, hts⟩ := List.map_eq_cons_iff.1 hts
  obtain ⟨ts₁, ts', rfl, h₁, hts'⟩ := List.map_eq_append_iff.1 hts
  obtain ⟨v, ts', rfl, hv, hts'⟩ := List.map_eq_cons_iff.1 hts'
  cases List.map_eq_nil_iff.1 hts'
  obtain ⟨⟨g, hg, hcount⟩, hargsFit⟩ := hfit
  have hcost : c.depth + (args.cost + 1) ≤ maxNesting := hcost
  have hfuel : 8 * (t :: u :: (ts₁ ++ [v])).length + 1 ≤ fuel + 8 := hfuel
  simp only [List.length_cons, List.length_append, List.length_nil] at hfuel
  obtain ⟨f, rfl⟩ : ∃ f, fuel = f + 2 := ⟨fuel - 2, by omega⟩
  have hmeaning : (Derivation.call function args).meaning = .call g args.meaning := by
    show Derivation.meaningOfCall function args.meaning = _
    rw [Derivation.meaningOfCall, hg]
  rw [hmeaning]
  refine Runs.call ht hu hg hcount (by omega) ?_ ?_
  · -- there is a first argument, so the list is not closed at once
    obtain ⟨k, ks, hks, hk⟩ := args.head (by decide)
    rw [Cursor.current_rewind_kind (by rw [h₁]; exact congrArg (· ++ _) hks)]
    exact hk
  · exact hargs h₁ (by rw [Cursor.current_rewind_cons, hv]; decide) (fun _ => hv) hargsFit
      (by rw [Cursor.depth_rewind, Cursor.depth_deeper]; omega)
      (show 8 * ts₁.length + 6 ≤ f + 8 by omega)

theorem enclosed {x : Derivation .expression} (hx : x.IsRead) : (Derivation.enclosed x).IsRead := by
  intro c ts fuel hts _ _ hfit hcost hfuel
  obtain ⟨t, ts, rfl, ht, hts⟩ := List.map_eq_cons_iff.1 hts
  obtain ⟨ts₁, ts', rfl, h₁, hts'⟩ := List.map_eq_append_iff.1 hts
  obtain ⟨v, ts', rfl, hv, hts'⟩ := List.map_eq_cons_iff.1 hts'
  cases List.map_eq_nil_iff.1 hts'
  have hcost : c.depth + (x.cost + 1) ≤ maxNesting := hcost
  have hfuel : 8 * (t :: (ts₁ ++ [v])).length + 1 ≤ fuel + 8 := hfuel
  simp only [List.length_cons, List.length_append, List.length_nil] at hfuel
  obtain ⟨f, rfl⟩ : ∃ f, fuel = f + 1 := ⟨fuel - 1, by omega⟩
  exact Runs.enclosed ht hv (by omega)
    (hx h₁ (by rw [Cursor.current_rewind_cons, hv]; decide) nofun hfit
      (by rw [Cursor.depth_rewind, Cursor.depth_deeper]; omega)
      (show 8 * ts₁.length + 5 ≤ f + 8 by omega))

theorem argument {x : Derivation .expression} (hx : x.IsRead) : (Derivation.argument x).IsRead := by
  intro c ts fuel hts hend hclose hfit hcost hfuel
  have hpos := x.length_pos (by decide) hts
  have hfuel : 8 * ts.length + 6 ≤ fuel + 8 := hfuel
  obtain ⟨f, rfl⟩ : ∃ f, fuel = f + 1 := ⟨fuel - 1, by omega⟩
  exact Runs.argument (hclose rfl) (hx hts (hend.mono (by decide)) nofun hfit hcost
    (show 8 * ts.length + 5 ≤ f + 8 by omega))

theorem argumentBefore {x : Derivation .expression} {more : Derivation .arguments} (hx : x.IsRead)
    (hmore : more.IsRead) : (Derivation.argumentBefore x more).IsRead := by
  intro c ts fuel hts hend hclose hfit hcost hfuel
  obtain ⟨ts₁, ts', rfl, h₁, hts'⟩ := List.map_eq_append_iff.1 hts
  obtain ⟨t, ts₂, rfl, ht, h₂⟩ := List.map_eq_cons_iff.1 hts'
  have hcost : c.depth + max x.cost more.cost ≤ maxNesting := hcost
  have hfuel : 8 * (ts₁ ++ t :: ts₂).length + 6 ≤ fuel + 8 := hfuel
  rw [List.length_append, List.length_cons] at hfuel
  obtain ⟨f, rfl⟩ : ∃ f, fuel = f + 1 := ⟨fuel - 1, by omega⟩
  rw [Cursor.rewind_append]
  refine Runs.argumentBefore (l := ts₂) ht ?_ ?_
  · exact hx h₁ (by rw [Cursor.current_rewind_cons, ht]; decide) nofun hfit.1
      (by rw [Cursor.depth_rewind]; omega) (show 8 * ts₁.length + 5 ≤ f + 8 by omega)
  · exact hmore h₂ hend hclose hfit.2 (by omega) (show 8 * ts₂.length + 6 ≤ f + 8 by omega)

end IsRead

end Derivation

/-! ## §5. Completeness. -/

/-- **What has a derivation is read.**  By induction on the derivation: its tokens are split among
its parts, and each part is followed by a token that ends it. -/
theorem runs {p : Phrase} (d : Derivation p) : d.IsRead := by
  induction d with
  | sum _ _ hfirst hmore => exact .sum hfirst hmore
  | noSummand => exact .noSummand
  | summand _ _ _ _ hoperand hmore => exact .summand hoperand hmore
  | product _ _ hfirst hmore => exact .product hfirst hmore
  | noFactor => exact .noFactor
  | factor _ _ _ _ hoperand hmore => exact .factor hoperand hmore
  | signed _ _ hoperand => exact .signed hoperand
  | unsigned _ hoperand => exact .unsigned hoperand
  | base _ hx => exact .base hx
  | raised _ _ hx hexponent => exact .raised hx hexponent
  | number _ => exact .number
  | name _ => exact .name
  | call _ _ hargs => exact .call hargs
  | enclosed _ hx => exact .enclosed hx
  | argument _ hx => exact .argument hx
  | argumentBefore _ _ hx hmore => exact .argumentBefore hx hmore

end ShapeEstimator.Formula
