/-
  ShapeEstimator.Proofs.Formula.Soundness
  ────────────────────────────────
  **WHAT IS READ HAS A DERIVATION.**

  Whenever a function of the parser succeeds, the tokens between its two cursors are
  those of a derivation, the value that it returns is the meaning, the calls fit, and
  the cost stays under the greatest depth:

      expression fuel c = .ok (x, c')  →  Found .expression c x c'

  Every call of the parser is preceded by one of less fuel, so the proof is one
  induction on the fuel for all nine functions together.
-/
import ShapeEstimator.Proofs.Formula.Completeness

namespace ShapeEstimator.Formula

/-! ## §1. Found phrases. -/

/-- Between two cursors stands a phrase with the given meaning, and it costs no more than the
levels that are left. -/
def Found (p : Phrase) (c : Cursor) (x : p.Meaning) (e : Cursor) : Prop :=
  ∃ (d : Derivation p) (ts : List Token), c = e.rewind ts ∧ ts.map (·.kind) = d.tokens
    ∧ d.meaning = x ∧ d.CallsFit ∧ e.depth + d.cost ≤ maxNesting

/-- Nothing but the first token and the level that it opens lies between a cursor and the next one
down. -/
theorem Cursor.eq_rewind_of_deeper {c e : Cursor} {ts : List Token} (hc : c.Closed)
    (hk : c.current.kind ≠ .finish) (h : c.advance.deeper = e.rewind ts) :
    c = (e.ascend 1).rewind (c.current :: ts) ∧ e.depth = c.depth + 1 := by
  constructor
  · have hup : c.advance = (e.ascend 1).rewind ts := by
      rw [← ascend_rewind, ← h, deeper_ascend]
    calc c = c.advance.rewind [c.current] := eq_rewind_advance hc hk
      _ = ((e.ascend 1).rewind ts).rewind [c.current] := by rw [← hup]
      _ = (e.ascend 1).rewind (c.current :: ts) := (rewind_append _ [c.current] ts).symm
  · have hdepth := congrArg Cursor.depth h
    rw [depth_rewind, depth_deeper, depth_advance] at hdepth
    exact hdepth.symm

namespace Found

variable {p : Phrase} {c m e : Cursor}

theorem depth_eq {x : p.Meaning} (h : Found p c x e) : e.depth = c.depth := by
  obtain ⟨d, ts, rfl, _⟩ := h
  exact (Cursor.depth_rewind e ts).symm

theorem closed {x : p.Meaning} (h : Found p c x e) (hc : c.Closed) : e.Closed := by
  obtain ⟨d, ts, rfl, _⟩ := h
  exact Cursor.closed_rewind.1 hc

/-- Two phrases that stand one behind the other, joined by a rule without a token of its own. -/
theorem joined {p q s : Phrase} {x : p.Meaning} {y : q.Meaning} {z : s.Meaning}
    (rule : Derivation p → Derivation q → Derivation s)
    (htokens : ∀ d₁ d₂, (rule d₁ d₂).tokens = d₁.tokens ++ d₂.tokens)
    (hmeaning : ∀ d₁ d₂, d₁.meaning = x → d₂.meaning = y → (rule d₁ d₂).meaning = z)
    (hfit : ∀ d₁ d₂, d₁.CallsFit → d₂.CallsFit → (rule d₁ d₂).CallsFit)
    (hcost : ∀ d₁ d₂, (rule d₁ d₂).cost = max d₁.cost d₂.cost)
    (hx : Found p c x m) (hy : Found q m y e) : Found s c z e := by
  obtain ⟨d₁, ts₁, rfl, h₁, hx, hfit₁, hcost₁⟩ := hx
  obtain ⟨d₂, ts₂, rfl, h₂, hy, hfit₂, hcost₂⟩ := hy
  rw [Cursor.depth_rewind] at hcost₁
  refine ⟨rule d₁ d₂, ts₁ ++ ts₂, (Cursor.rewind_append e ts₁ ts₂).symm, ?_,
    hmeaning d₁ d₂ hx hy, hfit d₁ d₂ hfit₁ hfit₂, ?_⟩
  · rw [List.map_append, h₁, h₂, htokens]
  · rw [hcost]
    omega

theorem sum {left : Expr} {more : Expr → Expr} (hfirst : Found .product c left m)
    (hmore : Found .summands m more e) : Found .expression c (more left) e :=
  joined .sum (fun _ _ => rfl) (by rintro _ _ rfl rfl; rfl) (fun _ _ => And.intro)
    (fun _ _ => rfl) hfirst hmore

theorem product {left : Expr} {more : Expr → Expr} (hfirst : Found .unary c left m)
    (hmore : Found .factors m more e) : Found .product c (more left) e :=
  joined .product (fun _ _ => rfl) (by rintro _ _ rfl rfl; rfl) (fun _ _ => And.intro)
    (fun _ _ => rfl) hfirst hmore

theorem noSummand (hdepth : c.depth ≤ maxNesting) :
    Found .summands c (fun left => left) c :=
  ⟨.noSummand, [], rfl, rfl, rfl, trivial, hdepth⟩

theorem noFactor (hdepth : c.depth ≤ maxNesting) : Found .factors c (fun left => left) c :=
  ⟨.noFactor, [], rfl, rfl, rfl, trivial, hdepth⟩

/-- The same behind an operator, which opens a level for both. -/
theorem chained {p q : Phrase} {op : Operator} {x : p.Meaning} {y z : q.Meaning}
    (rule : Derivation p → Derivation q → Derivation q)
    (htokens : ∀ d₁ d₂, (rule d₁ d₂).tokens = .operator op :: (d₁.tokens ++ d₂.tokens))
    (hmeaning : ∀ d₁ d₂, d₁.meaning = x → d₂.meaning = y → (rule d₁ d₂).meaning = z)
    (hfit : ∀ d₁ d₂, d₁.CallsFit → d₂.CallsFit → (rule d₁ d₂).CallsFit)
    (hcost : ∀ d₁ d₂, (rule d₁ d₂).cost = max d₁.cost d₂.cost + 1) (hc : c.Closed)
    (hop : c.current.kind = .operator op) (hx : Found p c.advance.deeper x m)
    (hy : Found q m y e) : Found q c z (e.ascend 1) := by
  obtain ⟨d₁, ts₁, hm, h₁, hx, hfit₁, hcost₁⟩ := hx
  obtain ⟨d₂, ts₂, rfl, h₂, hy, hfit₂, hcost₂⟩ := hy
  rw [Cursor.depth_rewind] at hcost₁
  rw [← Cursor.rewind_append] at hm
  obtain ⟨hrewind, hdepth⟩ := Cursor.eq_rewind_of_deeper hc (by rw [hop]; nofun) hm
  refine ⟨rule d₁ d₂, c.current :: (ts₁ ++ ts₂), hrewind, ?_, hmeaning d₁ d₂ hx hy,
    hfit d₁ d₂ hfit₁ hfit₂, ?_⟩
  · rw [List.map_cons, List.map_append, hop, h₁, h₂, htokens]
  · show e.depth - 1 + (rule d₁ d₂).cost ≤ maxNesting
    rw [hcost]
    omega

theorem summand {op : Operator} {right : Expr} {more : Expr → Expr} (hc : c.Closed)
    (hop : c.current.kind = .operator op) (additive : op.isAdditive = true)
    (hoperand : Found .product c.advance.deeper right m) (hmore : Found .summands m more e) :
    Found .summands c (fun left => more (.binary op left right)) (e.ascend 1) :=
  chained (.summand op additive) (fun _ _ => rfl) (by rintro _ _ rfl rfl; rfl)
    (fun _ _ => And.intro) (fun _ _ => rfl) hc hop hoperand hmore

theorem factor {op : Operator} {right : Expr} {more : Expr → Expr} (hc : c.Closed)
    (hop : c.current.kind = .operator op) (multiplicative : op.isMultiplicative = true)
    (hoperand : Found .unary c.advance.deeper right m) (hmore : Found .factors m more e) :
    Found .factors c (fun left => more (.binary op left right)) (e.ascend 1) :=
  chained (.factor op multiplicative) (fun _ _ => rfl) (by rintro _ _ rfl rfl; rfl)
    (fun _ _ => And.intro) (fun _ _ => rfl) hc hop hoperand hmore

theorem signed {sign : Sign} {x : Expr} (hc : c.Closed)
    (hsign : c.current.kind = .operator sign.operator)
    (hx : Found .unary c.advance.deeper x e) :
    Found .unary c (.unary sign x) (e.ascend 1) := by
  obtain ⟨d, ts, he, h, rfl, hfit, hcost⟩ := hx
  obtain ⟨hrewind, hdepth⟩ := Cursor.eq_rewind_of_deeper hc (by rw [hsign]; nofun) he
  refine ⟨.signed sign d, c.current :: ts, hrewind, ?_, rfl, hfit, ?_⟩
  · rw [List.map_cons, hsign, h]
    rfl
  · show e.depth - 1 + (d.cost + 1) ≤ maxNesting
    omega

theorem unsigned {x : Expr} (hx : Found .power c x e) : Found .unary c x e := by
  obtain ⟨d, ts, he, h, hd, hfit, hcost⟩ := hx
  exact ⟨.unsigned d, ts, he, h, hd, hfit, hcost⟩

theorem base {x : Expr} (hx : Found .primary c x e) : Found .power c x e := by
  obtain ⟨d, ts, he, h, hd, hfit, hcost⟩ := hx
  exact ⟨.base d, ts, he, h, hd, hfit, hcost⟩

theorem raised {x exponent : Expr} (hx : Found .primary c x m) (hm : m.Closed)
    (hpow : m.current.kind = .operator .pow)
    (hexponent : Found .unary m.advance.deeper exponent e) :
    Found .power c (.binary .pow x exponent) (e.ascend 1) := by
  obtain ⟨d₁, ts₁, rfl, h₁, rfl, hfit₁, hcost₁⟩ := hx
  obtain ⟨d₂, ts₂, he, h₂, rfl, hfit₂, hcost₂⟩ := hexponent
  obtain ⟨hrewind, hdepth⟩ := Cursor.eq_rewind_of_deeper hm (by rw [hpow]; nofun) he
  refine ⟨.raised d₁ d₂, ts₁ ++ m.current :: ts₂, ?_, ?_, rfl, ⟨hfit₁, hfit₂⟩, ?_⟩
  · rw [Cursor.rewind_append, ← hrewind]
  · rw [List.map_append, List.map_cons, hpow, h₁, h₂]
    rfl
  · show e.depth - 1 + max d₁.cost (d₂.cost + 1) ≤ maxNesting
    omega

/-- A number, or a name that no parenthesis follows, is a primary by itself. -/
theorem leaf {x : Expr} (d : Derivation .primary) (hc : c.Closed) (hdepth : c.depth ≤ maxNesting)
    (htokens : d.tokens = [c.current.kind]) (hk : c.current.kind ≠ .finish)
    (hmeaning : d.meaning = x) (hfit : d.CallsFit) (hcost : d.cost = 0) :
    Found .primary c x c.advance := by
  refine ⟨d, [c.current], Cursor.eq_rewind_advance hc hk, htokens.symm, hmeaning, hfit, ?_⟩
  rw [hcost, Cursor.depth_advance]
  exact hdepth

theorem enclosed {x : Expr} (hc : c.Closed) (hopen : c.current.kind = .leftParen)
    (hx : Found .expression c.advance.deeper x m) (hm : m.Closed)
    (hclose : m.current.kind = .rightParen) :
    Found .primary c x (m.advance.ascend 1) := by
  obtain ⟨d, ts, he, h, rfl, hfit, hcost⟩ := hx
  -- the closing parenthesis belongs to what is read
  have hm' := Cursor.eq_rewind_advance hm (by rw [hclose]; nofun)
  rw [hm', ← Cursor.rewind_append] at he
  obtain ⟨hrewind, hdepth⟩ := Cursor.eq_rewind_of_deeper hc (by rw [hopen]; nofun) he
  refine ⟨.enclosed d, c.current :: (ts ++ [m.current]), hrewind, ?_, rfl, hfit, ?_⟩
  · rw [List.map_cons, List.map_append, hopen, h, List.map_singleton, hclose]
    rfl
  · show m.advance.depth - 1 + (d.cost + 1) ≤ maxNesting
    rw [Cursor.depth_advance] at hdepth ⊢
    omega

theorem call {function : String} {f : Function} {args : List Expr} (hc : c.Closed)
    (hname : c.current.kind = .name function) (hopen : c.advance.current.kind = .leftParen)
    (hf : Function.ofName? function = some f) (hcount : f.arity.admits args.length = true)
    (hargs : Found .arguments c.advance.advance.deeper args m) (hm : m.Closed)
    (hclose : m.current.kind = .rightParen) :
    Found .primary c (.call f args) (m.advance.ascend 1) := by
  obtain ⟨d, ts, he, h, rfl, hfit, hcost⟩ := hargs
  have hm' := Cursor.eq_rewind_advance hm (by rw [hclose]; nofun)
  rw [hm', ← Cursor.rewind_append] at he
  have hnext := Cursor.closed_advance hc (by rw [hname]; nofun)
  obtain ⟨hrewind, hdepth⟩ := Cursor.eq_rewind_of_deeper hnext (by rw [hopen]; nofun) he
  refine ⟨.call function d, c.current :: c.advance.current :: (ts ++ [m.current]), ?_, ?_, ?_,
    ⟨⟨f, hf, hcount⟩, hfit⟩, ?_⟩
  · -- the name, then the parenthesis that opens the level, then the arguments
    calc c = c.advance.rewind [c.current] :=
          Cursor.eq_rewind_advance hc (by rw [hname]; nofun)
      _ = ((m.advance.ascend 1).rewind (c.advance.current :: (ts ++ [m.current]))).rewind
            [c.current] := by rw [← hrewind]
      _ = _ := (Cursor.rewind_append _ [c.current] _).symm
  · rw [List.map_cons, List.map_cons, List.map_append, hname, hopen, h, List.map_singleton, hclose]
    rfl
  · show Derivation.meaningOfCall function d.meaning = .call f d.meaning
    rw [Derivation.meaningOfCall, hf]
  · show m.advance.depth - 1 + (d.cost + 1) ≤ maxNesting
    rw [Cursor.depth_advance] at hdepth ⊢
    omega

theorem argument {x : Expr} (hx : Found .expression c x e) : Found .arguments c [x] e := by
  obtain ⟨d, ts, he, h, rfl, hfit, hcost⟩ := hx
  exact ⟨.argument d, ts, he, h, rfl, hfit, hcost⟩

theorem argumentBefore {x : Expr} {more : List Expr} (hx : Found .expression c x m)
    (hm : m.Closed) (hcomma : m.current.kind = .comma)
    (hmore : Found .arguments m.advance more e) : Found .arguments c (x :: more) e := by
  obtain ⟨d₁, ts₁, rfl, h₁, rfl, hfit₁, hcost₁⟩ := hx
  obtain ⟨d₂, ts₂, he, h₂, rfl, hfit₂, hcost₂⟩ := hmore
  -- a comma opens no level, so nothing is closed behind it
  have hm' := Cursor.eq_rewind_advance hm (by rw [hcomma]; nofun)
  rw [he, ← Cursor.rewind_append] at hm'
  refine ⟨.argumentBefore d₁ d₂, ts₁ ++ m.current :: ts₂, ?_, ?_, rfl, ⟨hfit₁, hfit₂⟩, ?_⟩
  · rw [Cursor.rewind_append]
    exact congrArg (Cursor.rewind · ts₁) hm'
  · rw [List.map_append, List.map_cons, hcomma, h₁, h₂]
    rfl
  · have hdepth := congrArg Cursor.depth hm'
    rw [Cursor.depth_rewind] at hdepth
    show e.depth + max d₁.cost d₂.cost ≤ maxNesting
    omega

end Found

/-! ## §2. Every function of the parser. -/

/-- What the functions of the parser find with the given fuel. -/
structure Sound (fuel : Nat) : Prop where
  expression : ∀ {c e : Cursor} {x : Expr}, c.Closed → c.depth ≤ maxNesting →
    expression fuel c = .ok (x, e) → Found .expression c x e
  sumTail : ∀ {c e : Cursor} {left x : Expr} {chained : Nat}, c.Closed → c.depth ≤ maxNesting →
    sumTail fuel left chained c = .ok (x, e) →
    ∃ more m, Found .summands c more m ∧ x = more left ∧ e = m.ascend chained
  product : ∀ {c e : Cursor} {x : Expr}, c.Closed → c.depth ≤ maxNesting →
    product fuel c = .ok (x, e) → Found .product c x e
  productTail : ∀ {c e : Cursor} {left x : Expr} {chained : Nat}, c.Closed →
    c.depth ≤ maxNesting → productTail fuel left chained c = .ok (x, e) →
    ∃ more m, Found .factors c more m ∧ x = more left ∧ e = m.ascend chained
  unary : ∀ {c e : Cursor} {x : Expr}, c.Closed → c.depth ≤ maxNesting →
    unary fuel c = .ok (x, e) → Found .unary c x e
  power : ∀ {c e : Cursor} {x : Expr}, c.Closed → c.depth ≤ maxNesting →
    power fuel c = .ok (x, e) → Found .power c x e
  primary : ∀ {c e : Cursor} {x : Expr}, c.Closed → c.depth ≤ maxNesting →
    primary fuel c = .ok (x, e) → Found .primary c x e
  arguments : ∀ {c e : Cursor} {xs : List Expr}, c.Closed → c.depth ≤ maxNesting →
    c.current.kind ≠ .rightParen → arguments fuel c = .ok (xs, e) →
    ∃ m, Found .arguments c xs m ∧ m.current.kind = .rightParen ∧ e = m.advance
  argumentsTail : ∀ {c e : Cursor} {before xs : List Expr}, c.Closed → c.depth ≤ maxNesting →
    argumentsTail fuel before c = .ok (xs, e) →
    ∃ more m, Found .arguments c more m ∧ m.current.kind = .rightParen
      ∧ xs = before ++ more ∧ e = m.advance

namespace Sound

variable {f : Nat} {c e : Cursor} {x : Expr}

theorem expression_step (ih : Sound f) (hc : c.Closed) (hdepth : c.depth ≤ maxNesting)
    (h : Formula.expression (f + 1) c = .ok (x, e)) : Found .expression c x e := by
  obtain ⟨left, m, hleft, hmore⟩ := expression_eq_ok.1 h
  have hfirst := ih.product hc hdepth hleft
  obtain ⟨more, e', hrest, rfl, rfl⟩ :=
    ih.sumTail (hfirst.closed hc) (hfirst.depth_eq ▸ hdepth) hmore
  exact hfirst.sum hrest

theorem product_step (ih : Sound f) (hc : c.Closed) (hdepth : c.depth ≤ maxNesting)
    (h : Formula.product (f + 1) c = .ok (x, e)) : Found .product c x e := by
  obtain ⟨left, m, hleft, hmore⟩ := product_eq_ok.1 h
  have hfirst := ih.unary hc hdepth hleft
  obtain ⟨more, e', hrest, rfl, rfl⟩ :=
    ih.productTail (hfirst.closed hc) (hfirst.depth_eq ▸ hdepth) hmore
  exact hfirst.product hrest

/-- The cursor behind a token is closed, also one level down. -/
theorem closed_deeper (hc : c.Closed) {k : TokenKind} (hk : c.current.kind = k)
    (hne : k ≠ .finish) : c.advance.deeper.Closed :=
  Cursor.closed_deeper.2 (Cursor.closed_advance hc (hk ▸ hne))

theorem depth_deeper (h : c.depth < maxNesting) : c.advance.deeper.depth ≤ maxNesting := by
  rw [Cursor.depth_deeper, Cursor.depth_advance]
  exact h

theorem sumTail_step (ih : Sound f) {left : Expr} {chained : Nat} (hc : c.Closed)
    (hdepth : c.depth ≤ maxNesting) (h : Formula.sumTail (f + 1) left chained c = .ok (x, e)) :
    ∃ more m, Found .summands c more m ∧ x = more left ∧ e = m.ascend chained := by
  cases hop : additive? c.current.kind with
  | none =>
    rw [sumTail_of_none hop] at h
    cases h
    exact ⟨fun y => y, c, Found.noSummand hdepth, rfl, rfl⟩
  | some op =>
    obtain ⟨hkind, additive⟩ := additive?_eq_some.1 hop
    obtain ⟨hlt, right, m, hright, hmore⟩ := (sumTail_of_some hop).1 h
    have hoperand := ih.product (closed_deeper hc hkind nofun) (depth_deeper hlt) hright
    have hm := hoperand.closed (closed_deeper hc hkind nofun)
    have hmdepth := hoperand.depth_eq ▸ depth_deeper hlt
    obtain ⟨more, e', hrest, rfl, rfl⟩ := ih.sumTail hm hmdepth hmore
    -- the level of this operator is closed together with those before it
    exact ⟨_, e'.ascend 1, Found.summand hc hkind additive hoperand hrest, rfl,
      (Cursor.ascend_ascend e' 1 chained).symm⟩

theorem productTail_step (ih : Sound f) {left : Expr} {chained : Nat} (hc : c.Closed)
    (hdepth : c.depth ≤ maxNesting)
    (h : Formula.productTail (f + 1) left chained c = .ok (x, e)) :
    ∃ more m, Found .factors c more m ∧ x = more left ∧ e = m.ascend chained := by
  cases hop : multiplicative? c.current.kind with
  | none =>
    rw [productTail_of_none hop] at h
    cases h
    exact ⟨fun y => y, c, Found.noFactor hdepth, rfl, rfl⟩
  | some op =>
    obtain ⟨hkind, multiplicative⟩ := multiplicative?_eq_some.1 hop
    obtain ⟨hlt, right, m, hright, hmore⟩ := (productTail_of_some hop).1 h
    have hoperand := ih.unary (closed_deeper hc hkind nofun) (depth_deeper hlt) hright
    have hm := hoperand.closed (closed_deeper hc hkind nofun)
    have hmdepth := hoperand.depth_eq ▸ depth_deeper hlt
    obtain ⟨more, e', hrest, rfl, rfl⟩ := ih.productTail hm hmdepth hmore
    exact ⟨_, e'.ascend 1, Found.factor hc hkind multiplicative hoperand hrest, rfl,
      (Cursor.ascend_ascend e' 1 chained).symm⟩

theorem unary_step (ih : Sound f) (hc : c.Closed) (hdepth : c.depth ≤ maxNesting)
    (h : Formula.unary (f + 1) c = .ok (x, e)) : Found .unary c x e := by
  cases hsign : sign? c.current.kind with
  | none =>
    rw [unary_of_none hsign] at h
    exact (ih.power hc hdepth h).unsigned
  | some sign =>
    have hkind := sign?_eq_some.1 hsign
    obtain ⟨hlt, operand, m, hoperand, rfl, rfl⟩ := (unary_of_some hsign).1 h
    exact (ih.unary (closed_deeper hc hkind nofun) (depth_deeper hlt) hoperand).signed hc hkind

theorem power_step (ih : Sound f) (hc : c.Closed) (hdepth : c.depth ≤ maxNesting)
    (h : Formula.power (f + 1) c = .ok (x, e)) : Found .power c x e := by
  obtain ⟨base, m, hbase, h⟩ := power_eq_ok.1 h
  have hx := ih.primary hc hdepth hbase
  have hm := hx.closed hc
  by_cases hpow : m.current.kind = .operator .pow
  · rw [if_pos hpow] at h
    obtain ⟨hlt, exponent, e', hexponent, rfl, rfl⟩ := h
    exact hx.raised hm hpow (ih.unary (closed_deeper hm hpow nofun) (depth_deeper hlt) hexponent)
  · rw [if_neg hpow] at h
    obtain ⟨rfl, rfl⟩ := h
    exact hx.base

/-- No function can be called without arguments. -/
theorem not_admits_zero (g : Function) : g.arity.admits 0 = false := by
  cases g <;> rfl

theorem call_step (ih : Sound f) {text : String} (hc : c.Closed)
    (hname : c.current.kind = .name text) (hopen : c.advance.current.kind = .leftParen)
    (h : Formula.primary (f + 1) c = .ok (x, e)) : Found .primary c x e := by
  obtain ⟨hlt, g, xs, c₁, hg, hxs, hcount, rfl, rfl⟩ := (primary_of_call hname hopen).1 h
  have hnext := Cursor.closed_advance hc (by rw [hname]; nofun)
  have hdeep := closed_deeper hnext hopen nofun
  have hlt' : c.advance.depth < maxNesting := by rwa [Cursor.depth_advance]
  by_cases hempty : c.advance.advance.deeper.current.kind = .rightParen
  · -- an empty list of arguments is read, but fits no function
    cases f with
    | zero => exact nomatch hxs
    | succ f =>
      rw [arguments_of_rightParen hempty] at hxs
      cases hxs
      exact absurd hcount (by rw [List.length_nil, not_admits_zero]; decide)
  · obtain ⟨m, hargs, hclose, rfl⟩ := ih.arguments hdeep (depth_deeper hlt') hempty hxs
    exact Found.call hc hname hopen hg hcount hargs (hargs.closed hdeep) hclose

theorem primary_step (ih : Sound f) (hc : c.Closed) (hdepth : c.depth ≤ maxNesting)
    (h : Formula.primary (f + 1) c = .ok (x, e)) : Found .primary c x e := by
  -- a primary that is read starts with a number, a parenthesis or a name
  rcases primary_starts h with ⟨value, hk⟩ | hk | ⟨text, hk⟩
  · rw [primary_of_number hk] at h
    cases h
    exact Found.leaf (.number value) hc hdepth (by rw [hk]; rfl) (by rw [hk]; nofun) rfl trivial rfl
  · obtain ⟨hlt, m, hm, hclose, rfl⟩ := (primary_of_leftParen hk).1 h
    have hdeep := closed_deeper hc hk nofun
    have hx := ih.expression hdeep (depth_deeper hlt) hm
    exact Found.enclosed hc hk hx (hx.closed hdeep) hclose
  · by_cases hopen : c.advance.current.kind = .leftParen
    · exact call_step ih hc hk hopen h
    · rw [primary_of_name hk hopen] at h
      cases h
      exact Found.leaf (.name text) hc hdepth (by rw [hk]; rfl) (by rw [hk]; nofun) rfl trivial rfl

theorem arguments_step (ih : Sound f) {xs : List Expr} (hc : c.Closed)
    (hdepth : c.depth ≤ maxNesting) (hne : c.current.kind ≠ .rightParen)
    (h : Formula.arguments (f + 1) c = .ok (xs, e)) :
    ∃ m, Found .arguments c xs m ∧ m.current.kind = .rightParen ∧ e = m.advance := by
  rw [arguments_of_ne hne] at h
  obtain ⟨more, m, hmore, hclose, rfl, rfl⟩ := ih.argumentsTail hc hdepth h
  exact ⟨m, hmore, hclose, rfl⟩

theorem argumentsTail_step (ih : Sound f) {before xs : List Expr} (hc : c.Closed)
    (hdepth : c.depth ≤ maxNesting)
    (h : Formula.argumentsTail (f + 1) before c = .ok (xs, e)) :
    ∃ more m, Found .arguments c more m ∧ m.current.kind = .rightParen
      ∧ xs = before ++ more ∧ e = m.advance := by
  obtain ⟨y, m, hy, h⟩ := argumentsTail_eq_ok.1 h
  have hx := ih.expression hc hdepth hy
  have hm := hx.closed hc
  -- behind an argument stands a comma or the closing parenthesis
  rcases h with ⟨hcomma, hmore⟩ | ⟨hclose, rfl, rfl⟩
  · have hnext := Cursor.closed_advance hm (by rw [hcomma]; nofun)
    have hnextDepth : m.advance.depth ≤ maxNesting := by
      rw [Cursor.depth_advance, hx.depth_eq]
      exact hdepth
    obtain ⟨more, e', hrest, hclose, rfl, rfl⟩ := ih.argumentsTail hnext hnextDepth hmore
    refine ⟨y :: more, e', hx.argumentBefore hm hcomma hrest, hclose, ?_, rfl⟩
    rw [List.append_assoc]
    rfl
  · exact ⟨[y], m, hx.argument, hclose, rfl, rfl⟩

end Sound

/-- **What is read has a derivation.** -/
theorem sound (fuel : Nat) : Sound fuel := by
  induction fuel with
  | zero =>
    -- without fuel nothing succeeds
    constructor <;> intros <;> contradiction
  | succ f ih =>
    exact
      { expression := ih.expression_step
        sumTail := ih.sumTail_step
        product := ih.product_step
        productTail := ih.productTail_step
        unary := ih.unary_step
        power := ih.power_step
        primary := ih.primary_step
        arguments := ih.arguments_step
        argumentsTail := ih.argumentsTail_step }

end ShapeEstimator.Formula
