/-
  ShapeEstimator.Proofs.Formula.FirstFault
  ────────────────────────────────
  **A FAULT IS FOUND WHERE THE FORMULA CANNOT GO ON.**

  The tokens before a fault are the start of some formula.  Unless the fault is one of
  depth, or a call of an unknown function or with a wrong number of arguments, the token
  at the fault makes an end of that:

      tokens  =  before ++ t :: after         before        starts a formula
                                              before ++ [t] starts none

  Each function of the parser is followed through the grammar: one that fails at `t` has
  read tokens `before` that start its phrase, and its phrase heads no list that starts
  with `before ++ [t]`.
-/
import ShapeEstimator.Proofs.Formula.Exactness
import ShapeEstimator.Proofs.Formula.Stopping
import ShapeEstimator.Proofs.Formula.ViablePrefix

namespace ShapeEstimator.Formula

/-! ## §1. Failures of the parser. -/

/-- Whether a cause lies beyond the grammar: the depth, or the call of a function. -/
def SyntaxCause.isLimit : SyntaxCause → Bool
  | .nestedTooDeeply | .unknownFunction _ | .wrongArgumentCount _ _ => true
  | _ => false

/-- A step or the next one fails. -/
theorem bind_eq_error {ε α β : Type} {x : Except ε α} {f : α → Except ε β} {fault : ε}
    (h : (x >>= f) = .error fault) : x = .error fault ∨ ∃ a, x = .ok a ∧ f a = .error fault := by
  match x, h with
  | .error _, h => exact Or.inl (congrArg Except.error (Except.error.inj h))
  | .ok a, h => exact Or.inr ⟨a, rfl, h⟩

/-- A level that cannot be opened is one too many. -/
theorem Cursor.descend_eq_error {c : Cursor} {position : Nat} {fault : SyntaxFault}
    (h : c.descend position = .error fault) : fault = ⟨position, .nestedTooDeeply⟩ := by
  unfold descend at h
  split at h
  · cases h
    rfl
  · exact nomatch h

/-- What is wrong behind a cursor is found at a token: those before it start the phrase, and if the
cause lies in the grammar, no list with this token behind them has the phrase in front. -/
def Fails (p : Phrase) (c : Cursor) (fault : SyntaxFault) : Prop :=
  ∃ before t after, c.tokens = before ++ t :: after ∧ t.position = fault.position
    ∧ Viable p (before.map (·.kind))
    ∧ (fault.cause.isLimit = false → ∀ s, ¬ p.Heads (before.map (·.kind) ++ t.kind :: s))

namespace Fails

variable {p q : Phrase} {c m : Cursor} {fault : SyntaxFault}

/-- The first token is at fault. -/
theorem here (hposition : fault.position = c.current.position)
    (h : fault.cause.isLimit = false → ∀ s, ¬ p.Heads (c.current.kind :: s)) : Fails p c fault :=
  ⟨[], c.current, c.rest, rfl, hposition.symm, Viable.nil p, h⟩

/-- A limit is reached at the first token. -/
theorem limit {cause : SyntaxCause} (h : cause.isLimit = true) : Fails p c (c.fault cause) :=
  here rfl fun hlimit => absurd h (by rw [show cause.isLimit = false from hlimit]; decide)

/-- A part of the phrase fails, behind the tokens that were read before. -/
theorem within (pre : List Token) (hc : c.tokens = pre ++ m.tokens)
    (hviable : ∀ ks, Viable p ks → Viable q (pre.map (·.kind) ++ ks))
    (hheads : fault.cause.isLimit = false →
      ∀ s, q.Heads (pre.map (·.kind) ++ m.current.kind :: s) → p.Heads (m.current.kind :: s))
    (h : Fails p m fault) : Fails q c fault := by
  obtain ⟨before, t, after, hm, hposition, hbefore, hno⟩ := h
  refine ⟨pre ++ before, t, after, ?_, hposition, ?_, fun hlimit s hs => ?_⟩
  · rw [hc, hm, List.append_assoc]
  · rw [List.map_append]
    exact hviable _ hbefore
  · -- the part starts with the token that the cursor is at
    have hstart : ∃ s', before.map (·.kind) ++ t.kind :: s = m.current.kind :: s' := by
      cases before with
      | nil =>
        obtain rfl : m.current = t := (List.cons.inj hm).1
        exact ⟨s, rfl⟩
      | cons u us =>
        obtain rfl : m.current = u := (List.cons.inj hm).1
        exact ⟨us.map (·.kind) ++ t.kind :: s, rfl⟩
    obtain ⟨s', hs'⟩ := hstart
    apply hno hlimit s
    rw [List.map_append, List.append_assoc, hs'] at hs
    rw [hs']
    exact hheads hlimit s' hs

/-- The tokens from a cursor other than at the end, with the first one split off. -/
theorem tokens_eq_cons (hc : c.Closed) (hk : c.current.kind ≠ .finish) :
    c.tokens = [c.current] ++ c.advance.deeper.tokens := by
  conv_lhs => rw [Cursor.eq_rewind_advance hc hk]
  exact Cursor.tokens_rewind c.advance [c.current]

/-! A part that fails, rule by rule of the grammar. -/

theorem sum_first (h : Fails .product c fault) : Fails .expression c fault := by
  refine h.within [] rfl (fun ks hks => ?_) fun _ s hs => hs.product_of_expression
  exact hks.within (.sum · .noSummand) [] [] (fun _ => rfl) fun _ hd => ⟨hd, trivial⟩

theorem product_first (h : Fails .unary c fault) : Fails .product c fault := by
  refine h.within [] rfl (fun ks hks => ?_) fun _ s hs => hs.unary_of_product
  exact hks.within (.product · .noFactor) [] [] (fun _ => rfl) fun _ hd => ⟨hd, trivial⟩

/-- What follows the first product of a sum fails; in the grammar only behind an operator. -/
theorem sum_more {x : Expr} (hx : Found .product c x m)
    (hop : fault.cause.isLimit = false → ∃ op, additive? m.current.kind = some op)
    (h : Fails .summands m fault) : Fails .expression c fault := by
  obtain ⟨d, ts, rfl, hts, -, hfit, -⟩ := hx
  refine h.within ts (Cursor.tokens_rewind m ts) (fun ks hks => ?_) fun hlimit s hs => ?_
  · rw [hts]
    exact hks.within (.sum d) d.tokens [] (fun more => by rw [List.append_nil]; rfl)
      fun _ hmore => ⟨hfit.known, hmore⟩
  · -- the chain goes on, so the first product has ended
    obtain ⟨op, hop⟩ := hop hlimit
    obtain ⟨hk, hadditive⟩ := additive?_eq_some.1 hop
    rw [hts] at hs
    refine Phrase.Heads.summands_of_expression d ?_ hs
    show TokenKind.tightness _ < 3
    rw [hk, tightness_of_isAdditive hadditive]
    decide

theorem product_more {x : Expr} (hx : Found .unary c x m)
    (hop : fault.cause.isLimit = false → ∃ op, multiplicative? m.current.kind = some op)
    (h : Fails .factors m fault) : Fails .product c fault := by
  obtain ⟨d, ts, rfl, hts, -, hfit, -⟩ := hx
  refine h.within ts (Cursor.tokens_rewind m ts) (fun ks hks => ?_) fun hlimit s hs => ?_
  · rw [hts]
    exact hks.within (.product d) d.tokens [] (fun more => by rw [List.append_nil]; rfl)
      fun _ hmore => ⟨hfit.known, hmore⟩
  · obtain ⟨op, hop⟩ := hop hlimit
    obtain ⟨hk, hmultiplicative⟩ := multiplicative?_eq_some.1 hop
    rw [hts] at hs
    refine Phrase.Heads.factors_of_product d ?_ hs
    show TokenKind.tightness _ < 4
    rw [hk, tightness_of_isMultiplicative hmultiplicative]
    decide

/-- Behind an operator the rest of a chain is a chain by itself. -/
theorem summand {op : Operator} (hc : c.Closed) (hk : c.current.kind = .operator op)
    (hadditive : op.isAdditive = true) (h : Fails .expression c.advance.deeper fault) :
    Fails .summands c fault := by
  refine h.within [c.current] (tokens_eq_cons hc (by rw [hk]; nofun)) (fun ks hks => ?_)
    fun _ s hs => ?_
  · rw [List.map_singleton, hk]
    exact hks.within (fun | .sum first more => .summand op hadditive first more) [.operator op] []
      (by rintro ⟨first, more⟩; rw [List.append_nil]; rfl) (by rintro ⟨first, more⟩ hd; exact hd)
  · rw [List.map_singleton, hk] at hs
    exact Phrase.Heads.summands_inv hadditive hs

theorem factor {op : Operator} (hc : c.Closed) (hk : c.current.kind = .operator op)
    (hmultiplicative : op.isMultiplicative = true) (h : Fails .product c.advance.deeper fault) :
    Fails .factors c fault := by
  refine h.within [c.current] (tokens_eq_cons hc (by rw [hk]; nofun)) (fun ks hks => ?_)
    fun _ s hs => ?_
  · rw [List.map_singleton, hk]
    exact hks.within (fun | .product first more => .factor op hmultiplicative first more)
      [.operator op] [] (by rintro ⟨first, more⟩; rw [List.append_nil]; rfl)
      (by rintro ⟨first, more⟩ hd; exact hd)
  · rw [List.map_singleton, hk] at hs
    exact Phrase.Heads.factors_inv hmultiplicative hs

theorem unsigned (hk : sign? c.current.kind = none) (h : Fails .power c fault) :
    Fails .unary c fault := by
  refine h.within [] rfl (fun ks hks => ?_) fun _ s hs => hs.power_of_unary hk
  exact hks.within .unsigned [] [] (fun d => (List.append_nil d.tokens).symm) fun _ hd => hd

theorem signed {sign : Sign} (hc : c.Closed) (hk : c.current.kind = .operator sign.operator)
    (h : Fails .unary c.advance.deeper fault) : Fails .unary c fault := by
  refine h.within [c.current] (tokens_eq_cons hc (by rw [hk]; nofun)) (fun ks hks => ?_)
    fun _ s hs => ?_
  · rw [List.map_singleton, hk]
    exact hks.within (.signed sign) [.operator sign.operator] []
      (fun d => by rw [List.append_nil]; rfl) fun _ hd => hd
  · rw [List.map_singleton, hk] at hs
    exact Phrase.Heads.unary_of_sign hs

theorem base (h : Fails .primary c fault) : Fails .power c fault := by
  refine h.within [] rfl (fun ks hks => ?_) fun _ s hs => hs.primary_of_power
  exact hks.within .base [] [] (fun d => (List.append_nil d.tokens).symm) fun _ hd => hd

/-- The tokens behind a phrase that was read and the token that follows it. -/
theorem tokens_eq_append {ts : List Token} (hm : m.Closed) (hk : m.current.kind ≠ .finish) :
    (m.rewind ts).tokens = (ts ++ [m.current]) ++ m.advance.deeper.tokens := by
  rw [Cursor.tokens_rewind, tokens_eq_cons hm hk, List.append_assoc]

theorem raised {x : Expr} (hx : Found .primary c x m) (hm : m.Closed)
    (hpow : m.current.kind = .operator .pow) (h : Fails .unary m.advance.deeper fault) :
    Fails .power c fault := by
  obtain ⟨d, ts, rfl, hts, -, hfit, -⟩ := hx
  refine h.within (ts ++ [m.current]) (tokens_eq_append hm (by rw [hpow]; nofun))
    (fun ks hks => ?_) fun _ s hs => ?_
  · rw [List.map_append, List.map_singleton, hts, hpow]
    exact hks.within (.raised d) (d.tokens ++ [.operator .pow]) []
      (fun y => by rw [List.append_nil, List.append_assoc]; rfl) fun _ hy => ⟨hfit.known, hy⟩
  · rw [List.map_append, List.map_singleton, hts, hpow, List.append_assoc] at hs
    exact Phrase.Heads.unary_of_power d hs

/-- A level is one too many behind a phrase that was read. -/
theorem raised_limit {x : Expr} (hx : Found .primary c x m) :
    Fails .power c (m.fault .nestedTooDeeply) := by
  obtain ⟨d, ts, rfl, hts, -, hfit, -⟩ := hx
  refine ⟨ts, m.current, m.rest, Cursor.tokens_rewind m ts, rfl, ⟨.base d, hfit.known, ?_⟩, nofun⟩
  exact hts ▸ List.prefix_rfl

theorem enclosed (hc : c.Closed) (hk : c.current.kind = .leftParen)
    (h : Fails .expression c.advance.deeper fault) : Fails .primary c fault := by
  refine h.within [c.current] (tokens_eq_cons hc (by rw [hk]; nofun)) (fun ks hks => ?_)
    fun _ s hs => ?_
  · rw [List.map_singleton, hk]
    exact hks.within .enclosed [.leftParen] [.rightParen] (fun _ => rfl) fun _ hd => hd
  · rw [List.map_singleton, hk] at hs
    obtain ⟨d, r, hs⟩ := hs.expression_of_leftParen
    exact ⟨d, .rightParen, r, ⟨by decide, nofun⟩, hs⟩

/-- A parenthesis is not closed where its expression stops. -/
theorem unclosed {x : Expr} (hc : c.Closed) (hk : c.current.kind = .leftParen)
    (hx : Found .expression c.advance.deeper x m) (hstop : Stops .expression c.advance.deeper m)
    (hm : m.current.kind ≠ .rightParen) :
    Fails .primary c (m.fault (.expectedClosing m.current.kind)) := by
  obtain ⟨d, ts, hts, hkinds, -, hfit, -⟩ := hx
  refine ⟨c.current :: ts, m.current, m.rest, ?_, rfl, ⟨.enclosed d, hfit.known, ?_⟩, ?_⟩
  · rw [tokens_eq_cons hc (by rw [hk]; nofun), hts, Cursor.tokens_rewind]
    rfl
  · rw [List.map_cons, hk, hkinds]
    exact ⟨[.rightParen], rfl⟩
  · intro _ s hs
    rw [List.map_cons, hk, hkinds] at hs
    obtain ⟨d', r, hs⟩ := hs.expression_of_leftParen
    exact hm (hstop.settled hts hkinds (by decide) hs.symm).symm

theorem call {text : String} {g : Function} (hc : c.Closed) (hk : c.current.kind = .name text)
    (hopen : c.advance.current.kind = .leftParen) (hg : Function.ofName? text = some g)
    (h : Fails .arguments c.advance.advance.deeper fault) : Fails .primary c fault := by
  have hnext := Cursor.closed_advance hc (by rw [hk]; nofun)
  refine h.within [c.current, c.advance.current] ?_ (fun ks hks => ?_) fun _ s hs => ?_
  · rw [tokens_eq_cons hc (by rw [hk]; nofun)]
    exact congrArg (List.append [c.current]) (tokens_eq_cons hnext (by rw [hopen]; nofun))
  · rw [List.map_cons, List.map_singleton, hk, hopen]
    exact hks.within (.call text) [.name text, .leftParen] [.rightParen] (fun _ => rfl)
      fun _ hd => ⟨⟨g, hg⟩, hd⟩
  · rw [List.map_cons, List.map_singleton, hk, hopen] at hs
    exact Phrase.Heads.arguments_of_call hs

theorem argument (h : Fails .expression c fault) : Fails .arguments c fault := by
  refine h.within [] rfl (fun ks hks => ?_) fun _ s hs => hs.expression_of_arguments
  exact hks.within .argument [] [] (fun d => (List.append_nil d.tokens).symm) fun _ hd => hd

theorem argumentBefore {x : Expr} (hx : Found .expression c x m) (hm : m.Closed)
    (hcomma : m.current.kind = .comma) (h : Fails .arguments m.advance fault) :
    Fails .arguments c fault := by
  obtain ⟨d, ts, rfl, hts, -, hfit, -⟩ := hx
  refine h.within (ts ++ [m.current]) (tokens_eq_append hm (by rw [hcomma]; nofun))
    (fun ks hks => ?_) fun _ s hs => ?_
  · rw [List.map_append, List.map_singleton, hts, hcomma]
    exact hks.within (.argumentBefore d) (d.tokens ++ [.comma]) []
      (fun y => by rw [List.append_nil, List.append_assoc]; rfl) fun _ hy => ⟨hfit.known, hy⟩
  · rw [List.map_append, List.map_singleton, hts, hcomma, List.append_assoc] at hs
    exact Phrase.Heads.arguments_of_comma d hs

/-- An argument stops before neither a comma nor the closing parenthesis. -/
theorem unseparated {x : Expr} (hx : Found .expression c x m) (hstop : Stops .expression c m)
    (hcomma : m.current.kind ≠ .comma) (hclose : m.current.kind ≠ .rightParen) :
    Fails .arguments c (m.fault (.expectedSeparator m.current.kind)) := by
  obtain ⟨d, ts, hts, hkinds, -, hfit, -⟩ := hx
  refine ⟨ts, m.current, m.rest, hts ▸ Cursor.tokens_rewind m ts, rfl,
    ⟨.argument d, hfit.known, hkinds ▸ List.prefix_rfl⟩, fun _ s hs => ?_⟩
  rw [hkinds] at hs
  obtain ⟨d', k, r, hs, rfl | ⟨rfl, _⟩⟩ := hs.arguments_inv
  · exact hclose (hstop.settled hts hkinds (by decide) hs.symm).symm
  · exact hcomma (hstop.settled hts hkinds (by decide) hs.symm).symm

end Fails

/-! ## §2. Every function of the parser. -/

/-- What the failures of the parser with the given fuel say. -/
structure Diagnoses (fuel : Nat) : Prop where
  expression : ∀ {c : Cursor} {fault : SyntaxFault}, c.Closed → c.depth ≤ maxNesting →
    expression fuel c = .error fault → Fails .expression c fault
  sumTail : ∀ {c : Cursor} {left : Expr} {chained : Nat} {fault : SyntaxFault}, c.Closed →
    sumTail fuel left chained c = .error fault → Fails .summands c fault
  product : ∀ {c : Cursor} {fault : SyntaxFault}, c.Closed → c.depth ≤ maxNesting →
    product fuel c = .error fault → Fails .product c fault
  productTail : ∀ {c : Cursor} {left : Expr} {chained : Nat} {fault : SyntaxFault}, c.Closed →
    productTail fuel left chained c = .error fault → Fails .factors c fault
  unary : ∀ {c : Cursor} {fault : SyntaxFault}, c.Closed → c.depth ≤ maxNesting →
    unary fuel c = .error fault → Fails .unary c fault
  power : ∀ {c : Cursor} {fault : SyntaxFault}, c.Closed → c.depth ≤ maxNesting →
    power fuel c = .error fault → Fails .power c fault
  primary : ∀ {c : Cursor} {fault : SyntaxFault}, c.Closed →
    primary fuel c = .error fault → Fails .primary c fault
  arguments : ∀ {c : Cursor} {fault : SyntaxFault}, c.Closed → c.depth ≤ maxNesting →
    arguments fuel c = .error fault → Fails .arguments c fault
  argumentsTail : ∀ {c : Cursor} {before : List Expr} {fault : SyntaxFault}, c.Closed →
    c.depth ≤ maxNesting → argumentsTail fuel before c = .error fault → Fails .arguments c fault

/-- A chain fails only behind an operator, unless a limit is reached. -/
theorem additive_of_sumTail_error {fuel chained : Nat} {left : Expr} {c : Cursor}
    {fault : SyntaxFault} (h : sumTail fuel left chained c = .error fault)
    (hlimit : fault.cause.isLimit = false) : ∃ op, additive? c.current.kind = some op := by
  cases fuel with
  | zero =>
    rw [sumTail] at h
    cases h
    exact absurd (show true = false from hlimit) (by decide)
  | succ fuel =>
    cases hop : additive? c.current.kind with
    | none => cases (sumTail_of_none hop).symm.trans h
    | some op => exact ⟨op, rfl⟩

theorem multiplicative_of_productTail_error {fuel chained : Nat} {left : Expr} {c : Cursor}
    {fault : SyntaxFault} (h : productTail fuel left chained c = .error fault)
    (hlimit : fault.cause.isLimit = false) : ∃ op, multiplicative? c.current.kind = some op := by
  cases fuel with
  | zero =>
    rw [productTail] at h
    cases h
    exact absurd (show true = false from hlimit) (by decide)
  | succ fuel =>
    cases hop : multiplicative? c.current.kind with
    | none => cases (productTail_of_none hop).symm.trans h
    | some op => exact ⟨op, rfl⟩

/-- A step behind a token that opens a level fails, because the level is one too many or in what is
read one level down. -/
theorem descend_bind_eq_error {α : Type} {c : Cursor} {position : Nat}
    {read : Cursor → Except SyntaxFault α} {fault : SyntaxFault}
    (h : (c.descend position >>= read) = .error fault) :
    fault = ⟨position, .nestedTooDeeply⟩ ∨ c.depth < maxNesting ∧ read c.deeper = .error fault := by
  rcases bind_eq_error h with h | ⟨inner, hinner, h⟩
  · exact Or.inl (Cursor.descend_eq_error h)
  · obtain ⟨hlt, rfl⟩ := Cursor.descend_eq_ok.1 hinner
    exact Or.inr ⟨hlt, h⟩

namespace Diagnoses

open Sound (closed_deeper)

variable {f : Nat} {c m : Cursor} {x : Expr} {fault : SyntaxFault}

theorem depth_deeper (h : c.advance.depth < maxNesting) : c.advance.deeper.depth ≤ maxNesting := h

/-- What follows the first product of a sum fails. -/
theorem sum_more (ih : Diagnoses f) {left : Expr} {chained : Nat} (hc : c.Closed)
    (hdepth : c.depth ≤ maxNesting) (hx : Formula.product f c = .ok (x, m))
    (h : Formula.sumTail f left chained m = .error fault) : Fails .expression c fault := by
  have hfound := (sound f).product hc hdepth hx
  exact Fails.sum_more hfound (additive_of_sumTail_error h) (ih.sumTail (hfound.closed hc) h)

theorem product_more (ih : Diagnoses f) {left : Expr} {chained : Nat} (hc : c.Closed)
    (hdepth : c.depth ≤ maxNesting) (hx : Formula.unary f c = .ok (x, m))
    (h : Formula.productTail f left chained m = .error fault) : Fails .product c fault := by
  have hfound := (sound f).unary hc hdepth hx
  exact Fails.product_more hfound (multiplicative_of_productTail_error h)
    (ih.productTail (hfound.closed hc) h)

theorem expression_step (ih : Diagnoses f) (hc : c.Closed) (hdepth : c.depth ≤ maxNesting)
    (h : Formula.expression (f + 1) c = .error fault) : Fails .expression c fault := by
  rw [Formula.expression] at h
  rcases bind_eq_error h with h | ⟨⟨x, m⟩, hx, h⟩
  · exact (ih.product hc hdepth h).sum_first
  · exact ih.sum_more hc hdepth hx h

theorem product_step (ih : Diagnoses f) (hc : c.Closed) (hdepth : c.depth ≤ maxNesting)
    (h : Formula.product (f + 1) c = .error fault) : Fails .product c fault := by
  rw [Formula.product] at h
  rcases bind_eq_error h with h | ⟨⟨x, m⟩, hx, h⟩
  · exact (ih.unary hc hdepth h).product_first
  · exact ih.product_more hc hdepth hx h

theorem sumTail_step (ih : Diagnoses f) {left : Expr} {chained : Nat} (hc : c.Closed)
    (h : Formula.sumTail (f + 1) left chained c = .error fault) : Fails .summands c fault := by
  cases hop : additive? c.current.kind with
  | none => exact nomatch (sumTail_of_none hop).symm.trans h
  | some op =>
    obtain ⟨hk, hadditive⟩ := additive?_eq_some.1 hop
    have hnext := closed_deeper hc hk nofun
    rw [Formula.sumTail] at h
    simp only [hop] at h
    rcases descend_bind_eq_error h with rfl | ⟨hlt, h⟩
    · exact Fails.limit rfl
    · rcases bind_eq_error h with h | ⟨⟨x, m⟩, hx, h⟩
      · exact (ih.product hnext (depth_deeper hlt) h).sum_first.summand hc hk hadditive
      · exact (ih.sum_more hnext (depth_deeper hlt) hx h).summand hc hk hadditive

theorem productTail_step (ih : Diagnoses f) {left : Expr} {chained : Nat} (hc : c.Closed)
    (h : Formula.productTail (f + 1) left chained c = .error fault) : Fails .factors c fault := by
  cases hop : multiplicative? c.current.kind with
  | none => exact nomatch (productTail_of_none hop).symm.trans h
  | some op =>
    obtain ⟨hk, hmultiplicative⟩ := multiplicative?_eq_some.1 hop
    have hnext := closed_deeper hc hk nofun
    rw [Formula.productTail] at h
    simp only [hop] at h
    rcases descend_bind_eq_error h with rfl | ⟨hlt, h⟩
    · exact Fails.limit rfl
    · rcases bind_eq_error h with h | ⟨⟨x, m⟩, hx, h⟩
      · exact (ih.unary hnext (depth_deeper hlt) h).product_first.factor hc hk hmultiplicative
      · exact (ih.product_more hnext (depth_deeper hlt) hx h).factor hc hk hmultiplicative

theorem unary_step (ih : Diagnoses f) (hc : c.Closed) (hdepth : c.depth ≤ maxNesting)
    (h : Formula.unary (f + 1) c = .error fault) : Fails .unary c fault := by
  cases hsign : sign? c.current.kind with
  | none =>
    rw [unary_of_none hsign] at h
    exact (ih.power hc hdepth h).unsigned hsign
  | some sign =>
    have hk := sign?_eq_some.1 hsign
    have hnext := closed_deeper hc hk nofun
    rw [Formula.unary] at h
    simp only [hsign] at h
    rcases descend_bind_eq_error h with rfl | ⟨hlt, h⟩
    · exact Fails.limit rfl
    · rcases bind_eq_error h with h | ⟨_, _, h⟩
      · exact (ih.unary hnext (depth_deeper hlt) h).signed hc hk
      · cases h

theorem power_step (ih : Diagnoses f) (hc : c.Closed) (hdepth : c.depth ≤ maxNesting)
    (h : Formula.power (f + 1) c = .error fault) : Fails .power c fault := by
  rw [Formula.power] at h
  rcases bind_eq_error h with h | ⟨⟨x, m⟩, hx, h⟩
  · exact (ih.primary hc h).base
  · have hfound := (sound f).primary hc hdepth hx
    have hm := hfound.closed hc
    dsimp only at h
    split at h
    · rename_i hpow
      rcases descend_bind_eq_error h with rfl | ⟨hlt, h⟩
      · exact Fails.raised_limit hfound
      · rcases bind_eq_error h with h | ⟨_, _, h⟩
        · exact Fails.raised hfound hm hpow
            (ih.unary (closed_deeper hm hpow (by decide)) (depth_deeper hlt) h)
        · cases h
    · cases h

/-- A call of a function: its name is unknown, or its arguments fail or are too few or many. -/
theorem call_step (ih : Diagnoses f) {text : String} (hc : c.Closed)
    (hk : c.current.kind = .name text) (hopen : c.advance.current.kind = .leftParen)
    (h : Formula.primary (f + 1) c = .error fault) : Fails .primary c fault := by
  have hnext := Cursor.closed_advance hc (by rw [hk]; nofun)
  have hbehind := closed_deeper hnext hopen nofun
  rw [Formula.primary] at h
  simp only [hk, if_pos hopen] at h
  cases hg : Function.ofName? text with
  | none =>
    rw [hg] at h
    cases h
    exact Fails.limit rfl
  | some g =>
    simp only [hg] at h
    rcases descend_bind_eq_error h with rfl | ⟨hlt, h⟩
    · exact Fails.limit rfl
    · rcases bind_eq_error h with h | ⟨⟨xs, m⟩, hxs, h⟩
      · exact (ih.arguments hbehind (depth_deeper hlt) h).call hc hk hopen hg
      · dsimp only at h
        split at h
        · cases h
        · cases h
          exact Fails.limit rfl

theorem primary_step (ih : Diagnoses f) (hc : c.Closed)
    (h : Formula.primary (f + 1) c = .error fault) : Fails .primary c fault := by
  cases hk : c.current.kind with
  | number value => cases (primary_of_number hk).symm.trans h
  | leftParen =>
    have hnext := closed_deeper hc hk nofun
    rw [Formula.primary] at h
    simp only [hk] at h
    rcases descend_bind_eq_error h with rfl | ⟨hlt, h⟩
    · exact Fails.limit rfl
    · rcases bind_eq_error h with h | ⟨⟨x, m⟩, hx, h⟩
      · exact (ih.expression hnext (depth_deeper hlt) h).enclosed hc hk
      · dsimp only at h
        split at h
        · cases h
        · rename_i hclose
          cases h
          exact Fails.unclosed hc hk ((sound f).expression hnext (depth_deeper hlt) hx)
            ((stopping f).expression hx) hclose
  | name text =>
    by_cases hopen : c.advance.current.kind = .leftParen
    · exact ih.call_step hc hk hopen h
    · cases (primary_of_name hk hopen).symm.trans h
  | operator op | rightParen | comma | finish =>
    -- no primary starts with this token
    rw [Formula.primary] at h
    simp only [hk] at h
    cases h
    refine Fails.here rfl fun _ s hs => ?_
    rw [hk] at hs
    rcases hs.primary_starts with ⟨value, hv⟩ | hv | ⟨text, hv⟩ <;> cases hv

theorem arguments_step (ih : Diagnoses f) (hc : c.Closed) (hdepth : c.depth ≤ maxNesting)
    (h : Formula.arguments (f + 1) c = .error fault) : Fails .arguments c fault := by
  by_cases hclose : c.current.kind = .rightParen
  · exact nomatch (arguments_of_rightParen hclose).symm.trans h
  · rw [arguments_of_ne hclose] at h
    exact ih.argumentsTail hc hdepth h

theorem argumentsTail_step (ih : Diagnoses f) {before : List Expr} (hc : c.Closed)
    (hdepth : c.depth ≤ maxNesting)
    (h : Formula.argumentsTail (f + 1) before c = .error fault) : Fails .arguments c fault := by
  rw [Formula.argumentsTail] at h
  rcases bind_eq_error h with h | ⟨⟨x, m⟩, hx, h⟩
  · exact (ih.expression hc hdepth h).argument
  · have hfound := (sound f).expression hc hdepth hx
    have hm := hfound.closed hc
    dsimp only at h
    split at h
    · rename_i hcomma
      have hdepth' : m.advance.depth ≤ maxNesting := by
        rw [Cursor.depth_advance, hfound.depth_eq]
        exact hdepth
      exact Fails.argumentBefore hfound hm hcomma
        (ih.argumentsTail (Cursor.closed_advance hm (by rw [hcomma]; decide)) hdepth' h)
    · cases h
    · rename_i hcomma hclose
      cases h
      exact Fails.unseparated hfound ((stopping f).expression hx) hcomma hclose

/-- Without fuel a limit is reached at once. -/
theorem zero : Diagnoses 0 := by
  have hlimit : ∀ {p : Phrase} {c : Cursor} {fault : SyntaxFault} {α : Type},
      (.error (c.fault .nestedTooDeeply) : Except SyntaxFault α) = .error fault →
        Fails p c fault := by
    intro p c fault α h
    cases h
    exact Fails.limit rfl
  constructor <;> intros <;> rename_i h <;> exact hlimit h

end Diagnoses

/-- **What the failures of the parser say.** -/
theorem diagnoses (fuel : Nat) : Diagnoses fuel := by
  induction fuel with
  | zero => exact Diagnoses.zero
  | succ f ih =>
    exact
      { expression := ih.expression_step
        sumTail := ih.sumTail_step
        product := ih.product_step
        productTail := ih.productTail_step
        unary := ih.unary_step
        power := ih.power_step
        primary := ih.primary_step
        arguments := ih.arguments_step
        argumentsTail := ih.argumentsTail_step }

/-! ## §3. Whole formulas. -/

/-- The tokens of a text stand in the order of their positions. -/
theorem pairwise_tokensFrom (position : Nat) (cs : List Char) :
    ∀ ts, tokensFrom position cs = .ok ts →
      (∀ t ∈ ts, position ≤ t.position) ∧ ts.Pairwise (·.position < ·.position) := by
  have cons : ∀ {t : Token} {n : Nat} {ts : List Token}, t.position < n →
      (∀ u ∈ ts, n ≤ u.position) ∧ ts.Pairwise (·.position < ·.position) →
      (∀ u ∈ t :: ts, t.position ≤ u.position) ∧ (t :: ts).Pairwise (·.position < ·.position) := by
    rintro t n ts hn ⟨hts, hpairs⟩
    refine ⟨fun u hu => ?_, List.pairwise_cons.2 ⟨fun u hu => hn.trans_le (hts u hu), hpairs⟩⟩
    rcases List.mem_cons.1 hu with rfl | hu
    · exact le_rfl
    · exact (hn.trans_le (hts u hu)).le
  fun_induction tokensFrom position cs with
  | case1 position =>
    intro ts h
    cases h
    exact ⟨fun t ht => by rw [List.mem_singleton.1 ht], List.pairwise_singleton _ _⟩
  | case2 position c rest kind hkind ih =>
    intro ts h
    obtain ⟨more, hmore, h⟩ := bind_eq_ok.1 h
    cases h
    exact cons (Nat.lt_succ_self position) (ih more hmore)
  | case3 position c rest hsimple hblank ih =>
    intro ts h
    obtain ⟨hpositions, hpairs⟩ := ih ts h
    exact ⟨fun t ht => (Nat.le_succ position).trans (hpositions t ht), hpairs⟩
  | case4 => intro ts h; cases h
  | case5 position c rest hsimple hblank hstart scanned lexeme value hvalue ih =>
    intro ts h
    obtain ⟨more, hmore, h⟩ := bind_eq_ok.1 h
    cases h
    -- a numeral has a character
    have hlength : 0 < lexeme.length := by
      have hlt : scanned.2.length < (c :: rest).length := Numeral.scan_length_lt hstart
      rw [List.length_take]
      omega
    exact cons (Nat.lt_add_of_pos_right hlength) (ih more hmore)
  | case6 position c rest hsimple hblank hstart hname lexeme ih =>
    intro ts h
    obtain ⟨more, hmore, h⟩ := bind_eq_ok.1 h
    cases h
    exact cons (Nat.lt_add_of_pos_right (Nat.succ_pos _)) (ih more hmore)
  | case7 => intro ts h; cases h

/-- What is wrong with a list of tokens is found at one of them.  Those before it start a formula,
and unless a limit is reached, no formula with an end token behind it goes through this one. -/
theorem parseTokens_error {ts : List Token} {fault : SyntaxFault} (hends : EndsOnce ts)
    (hlong : 1 < ts.length) (h : parseTokens ts = .error fault) :
    ∃ before t after, ts = before ++ t :: after ∧ t.position = fault.position
      ∧ Viable .expression (before.map (·.kind))
      ∧ (fault.cause.isLimit = false → ∀ (d : Derivation .expression) (s : List TokenKind),
          d.tokens ++ [.finish] ≠ before.map (·.kind) ++ t.kind :: s) := by
  obtain ⟨init, last, rfl, hlast, hinit⟩ := hends
  cases init with
  | nil => exact absurd hlong (by simp)
  | cons first more =>
    rw [List.cons_append, parseTokens, if_neg (hinit first List.mem_cons_self)] at h
    have hclosed : (⟨first, more ++ [last], 0⟩ : Cursor).Closed := by
      intro t ht
      rw [Cursor.tokens, ← List.cons_append, List.getLast?_append] at ht
      cases ht
      exact hlast
    rcases bind_eq_error h with h | ⟨⟨x, e⟩, hx, h⟩
    · obtain ⟨before, t, after, hts, hposition, hviable, hno⟩ :=
        (diagnoses _).expression hclosed (Nat.zero_le _) h
      refine ⟨before, t, after, hts, hposition, hviable, fun hlimit d s hd => ?_⟩
      exact hno hlimit s ⟨d, .finish, [], ⟨by decide, by decide⟩, hd.symm⟩
    · -- an expression was read, and something else than the end follows it
      dsimp only at h
      split at h
      · cases h
      · rename_i hfinish
        cases h
        obtain ⟨d₀, us, hus, hkinds, -, hfit, -⟩ := (sound _).expression hclosed (Nat.zero_le _) hx
        refine ⟨us, e.current, e.rest, ?_, rfl, ⟨d₀, hfit.known, hkinds ▸ List.prefix_rfl⟩, ?_⟩
        · exact (congrArg Cursor.tokens hus).trans (Cursor.tokens_rewind e us)
        · intro _ d s hd
          rw [hkinds] at hd
          exact hfinish (((stopping _).expression hx).settled hus hkinds (by decide) hd).symm

/-- The first token that offends: it stands at the fault, with the tokens before and behind it. -/
structure Offends (before : List Token) (t : Token) (after : List Token) (fault : SyntaxFault) :
    Prop where
  /-- The fault is at the token. -/
  position : t.position = fault.position
  /-- The tokens before are those at lower positions. -/
  before_lt : ∀ u ∈ before, u.position < fault.position
  /-- The tokens behind are those at higher positions. -/
  lt_after : ∀ u ∈ after, fault.position < u.position
  /-- The tokens before start a formula, argument counts disregarded. -/
  viable : Viable .expression (before.map (·.kind))
  /-- Unless a limit is reached, no formula starts with them and the token; and where this is the
  end, they are no formula. -/
  stuck : fault.cause.isLimit = false → ∀ d : Derivation .expression,
    if t.kind = .finish then d.tokens ≠ before.map (·.kind)
    else ¬ (before ++ [t]).map (·.kind) <+: d.tokens

/-- **A fault is found where the formula cannot go on.**  When a text with tokens is no formula, the
fault is at the first of them that offends. -/
theorem fault_at_first_offending_token {source : String} {ts : List Token} {fault : SyntaxFault}
    (htokens : tokens source = .ok ts) (hlong : 1 < ts.length)
    (hparse : parse source = .error fault) :
    ∃ before t after, ts = before ++ t :: after ∧ Offends before t after fault := by
  have h : parseTokens ts = .error fault := by
    unfold parse at hparse
    rw [htokens] at hparse
    exact hparse
  obtain ⟨before, t, after, rfl, hposition, hviable, hno⟩ :=
    parseTokens_error (endsOnce_tokens htokens) hlong h
  obtain ⟨-, hafter, hbefore⟩ :=
    List.pairwise_append.1 (pairwise_tokensFrom 0 source.toList _ htokens).2
  refine ⟨before, t, after, rfl, hposition, fun u hu => ?_, fun u hu => ?_, hviable,
    fun hlimit d => ?_⟩
  · rw [← hposition]
    exact hbefore u hu t List.mem_cons_self
  · rw [← hposition]
    exact (List.pairwise_cons.1 hafter).1 u hu
  · split
    · rename_i hfinish
      intro hd
      exact hno hlimit d [] (by rw [hd, hfinish])
    · rintro ⟨s, hs⟩
      apply hno hlimit d (s ++ [.finish])
      rw [← hs, List.map_append, List.append_assoc, List.append_assoc]
      rfl

/-- A text whose fault is computed. -/
theorem parse_eq_error {source : String} {fault : SyntaxFault}
    (h : (match parse source with
      | .error found => decide (found = fault)
      | .ok _ => false) = true) : parse source = .error fault := by
  split at h
  · rename_i found hparse
    rw [hparse, of_decide_eq_true h]
  · exact nomatch h

/-- The tokens of `L * (W + t`. -/
def unclosedTokens : List Token :=
  [⟨.name "L", 0, ['L']⟩, ⟨.operator .mul, 2, ['*']⟩, ⟨.leftParen, 4, ['(']⟩,
    ⟨.name "W", 5, ['W']⟩, ⟨.operator .add, 7, ['+']⟩, ⟨.name "t", 9, ['t']⟩, ⟨.finish, 10, []⟩]

/-- In `L * (W + t` the end of the text is at fault: what stands before it could go on, and is no
formula by itself. -/
theorem unclosed_parenthesis_fault :
    tokens "L * (W + t" = .ok unclosedTokens ∧ 1 < unclosedTokens.length
    ∧ parse "L * (W + t" = .error ⟨10, .expectedClosing .finish⟩
    ∧ ∃ before t after, unclosedTokens = before ++ t :: after
      ∧ Offends before t after ⟨10, .expectedClosing .finish⟩ := by
  have htokens : tokens "L * (W + t" = .ok unclosedTokens := by with_unfolding_all rfl
  have hlong : 1 < unclosedTokens.length := by decide
  have hparse : parse "L * (W + t" = .error ⟨10, .expectedClosing .finish⟩ :=
    parse_eq_error (by decide +kernel)
  exact ⟨htokens, hlong, hparse, fault_at_first_offending_token htokens hlong hparse⟩

end ShapeEstimator.Formula
