/-
  ShapeEstimator.Proofs.Formula.Fuel
  ────────────────────────────────
  **THE FUEL IS NEVER USED UP.**

  A function of the parser that succeeds has read a token, and one that calls itself has
  done so before.  Between two tokens lie fewer than eight calls.  So with eight calls
  for each token that is left, a run ends by itself, in a tree or in a fault of the text:

      8 * (tokens left) + 7 ≤ fuel   →   one more does not change the run

  This is said of the runs with a log, so that it holds of what happens on the way, too.
-/
import Mathlib.Tactic.Conv
import ShapeEstimator.Proofs.Formula.Exactness
import ShapeEstimator.Proofs.Formula.LevelLog

namespace ShapeEstimator.Formula

/-! ## §1. Tokens that are read. -/

/-- From one cursor to another at least one token is read, and as many levels are open. -/
def Advances (c e : Cursor) : Prop := ∃ ts, ts ≠ [] ∧ c = e.rewind ts

namespace Advances

variable {c e : Cursor}

theorem of_found {p : Phrase} {x : p.Meaning} (h : Found p c x e) (hp : p.lead ≤ 6) :
    Advances c e := by
  obtain ⟨d, ts, hc, hts, _⟩ := h
  exact ⟨ts, List.ne_nil_of_length_pos (d.length_pos hp hts), hc⟩

theorem advance (hc : c.Closed) (hk : c.current.kind ≠ .finish) : Advances c c.advance :=
  ⟨[c.current], List.cons_ne_nil _ _, Cursor.eq_rewind_advance hc hk⟩

theorem trans {m : Cursor} (h : Advances c m) (h' : Advances m e) : Advances c e := by
  obtain ⟨ts, hts, rfl⟩ := h
  obtain ⟨us, -, rfl⟩ := h'
  exact ⟨ts ++ us, List.append_ne_nil_of_left_ne_nil hts us, (Cursor.rewind_append e ts us).symm⟩

theorem closed (h : Advances c e) (hc : c.Closed) : e.Closed := by
  obtain ⟨ts, -, rfl⟩ := h
  exact Cursor.closed_rewind.1 hc

theorem depth_le {n : Nat} (h : Advances c e) (hc : c.depth ≤ n) : e.depth ≤ n := by
  obtain ⟨ts, -, rfl⟩ := h
  rwa [Cursor.depth_rewind] at hc

/-- Fewer tokens are left. -/
theorem rest_lt (h : Advances c e) : e.rest.length < c.rest.length := by
  obtain ⟨ts, hts, rfl⟩ := h
  have hlength := congrArg List.length (Cursor.tokens_rewind e ts)
  rw [Cursor.tokens, Cursor.tokens, List.length_append, List.length_cons, List.length_cons]
    at hlength
  have hpos : 0 < ts.length := List.length_pos_iff.2 hts
  omega

end Advances

namespace Cursor

/-- Behind a token that opens a level, the end token is still to come and one token less is left. -/
theorem deeper_advance {c : Cursor} {k : TokenKind} (hc : c.Closed) (hk : c.current.kind = k)
    (hne : k ≠ .finish) :
    c.advance.deeper.Closed ∧ c.advance.deeper.rest.length < c.rest.length :=
  ⟨closed_advance hc (hk ▸ hne), (Advances.advance hc (hk ▸ hne)).rest_lt⟩

end Cursor

/-- With the given fuel, the functions of the parser that succeed have read a token. -/
structure Advancing (fuel : Nat) : Prop where
  expression : ∀ {c e : Cursor} {x : Expr}, c.Closed → c.depth ≤ maxNesting →
    expression fuel c = .ok (x, e) → Advances c e
  product : ∀ {c e : Cursor} {x : Expr}, c.Closed → c.depth ≤ maxNesting →
    product fuel c = .ok (x, e) → Advances c e
  unary : ∀ {c e : Cursor} {x : Expr}, c.Closed → c.depth ≤ maxNesting →
    unary fuel c = .ok (x, e) → Advances c e
  power : ∀ {c e : Cursor} {x : Expr}, c.Closed → c.depth ≤ maxNesting →
    power fuel c = .ok (x, e) → Advances c e
  primary : ∀ {c e : Cursor} {x : Expr}, c.Closed → c.depth ≤ maxNesting →
    primary fuel c = .ok (x, e) → Advances c e
  arguments : ∀ {c e : Cursor} {xs : List Expr}, c.Closed → c.depth ≤ maxNesting →
    arguments fuel c = .ok (xs, e) → Advances c e

/-- A function that reads the arguments of a call reads at least the parenthesis that closes it. -/
theorem advances_of_arguments {fuel : Nat} {c e : Cursor} {xs : List Expr} (hc : c.Closed)
    (hdepth : c.depth ≤ maxNesting) (h : arguments fuel c = .ok (xs, e)) : Advances c e := by
  by_cases hempty : c.current.kind = .rightParen
  · cases fuel with
    | zero => exact nomatch h
    | succ f =>
      rw [arguments_of_rightParen hempty] at h
      cases h
      exact .advance hc (by rw [hempty]; nofun)
  · obtain ⟨m, hargs, hclose, rfl⟩ := (sound fuel).arguments hc hdepth hempty h
    refine (Advances.of_found hargs (by decide)).trans (.advance (hargs.closed hc) ?_)
    rw [hclose]
    nofun

/-- No phrase of the grammar is empty, but for the rest of a chain. -/
theorem advancing (fuel : Nat) : Advancing fuel where
  expression hc hdepth h := .of_found ((sound fuel).expression hc hdepth h) (by decide)
  product hc hdepth h := .of_found ((sound fuel).product hc hdepth h) (by decide)
  unary hc hdepth h := .of_found ((sound fuel).unary hc hdepth h) (by decide)
  power hc hdepth h := .of_found ((sound fuel).power hc hdepth h) (by decide)
  primary hc hdepth h := .of_found ((sound fuel).primary hc hdepth h) (by decide)
  arguments := advances_of_arguments

/-! ## §2. Runs that do not change. -/

namespace Logged

/-- A second step is the same where the first is and has a result. -/
theorem bind_congr_ok {α β : Type} {x y : Logged α} {f g : α → Logged β} (hx : x = y)
    (hf : ∀ a, y.outcome = .ok a → f a = g a) : x >>= f = y >>= g := by
  subst hx
  cases hout : x.outcome with
  | error fault => rw [bind_of_error hout, bind_of_error hout]
  | ok a => rw [bind_of_ok hout, bind_of_ok hout, hf a hout]

/-- The given fuel is enough for runs over so many tokens that it covers eight calls for each of
them: one more changes nothing. -/
structure Settles (fuel : Nat) : Prop where
  expression : ∀ {c : Cursor}, c.Closed → c.depth ≤ maxNesting → 8 * c.rest.length + 5 ≤ fuel →
    expression (fuel + 1) c = expression fuel c
  sumTail : ∀ {left : Expr} {chained : Nat} {c : Cursor}, c.Closed → c.depth ≤ maxNesting →
    8 * c.rest.length + 9 ≤ fuel → sumTail (fuel + 1) left chained c = sumTail fuel left chained c
  product : ∀ {c : Cursor}, c.Closed → c.depth ≤ maxNesting → 8 * c.rest.length + 4 ≤ fuel →
    product (fuel + 1) c = product fuel c
  productTail : ∀ {left : Expr} {chained : Nat} {c : Cursor}, c.Closed → c.depth ≤ maxNesting →
    8 * c.rest.length + 9 ≤ fuel →
    productTail (fuel + 1) left chained c = productTail fuel left chained c
  unary : ∀ {c : Cursor}, c.Closed → c.depth ≤ maxNesting → 8 * c.rest.length + 3 ≤ fuel →
    unary (fuel + 1) c = unary fuel c
  power : ∀ {c : Cursor}, c.Closed → c.depth ≤ maxNesting → 8 * c.rest.length + 2 ≤ fuel →
    power (fuel + 1) c = power fuel c
  primary : ∀ {c : Cursor}, c.Closed → c.depth ≤ maxNesting → 8 * c.rest.length + 1 ≤ fuel →
    primary (fuel + 1) c = primary fuel c
  arguments : ∀ {c : Cursor}, c.Closed → c.depth ≤ maxNesting → 8 * c.rest.length + 7 ≤ fuel →
    arguments (fuel + 1) c = arguments fuel c
  argumentsTail : ∀ {before : List Expr} {c : Cursor}, c.Closed → c.depth ≤ maxNesting →
    8 * c.rest.length + 6 ≤ fuel → argumentsTail (fuel + 1) before c = argumentsTail fuel before c

namespace Settles

variable {f : Nat} {c : Cursor}

theorem expression_step (ih : Settles f) (hc : c.Closed) (hdepth : c.depth ≤ maxNesting)
    (hfuel : 8 * c.rest.length + 5 ≤ f + 1) :
    Logged.expression (f + 1 + 1) c = Logged.expression (f + 1) c := by
  conv_lhs => rw [Logged.expression]
  conv_rhs => rw [Logged.expression]
  refine bind_congr_ok (ih.product hc hdepth (by omega)) ?_
  rintro ⟨left, m⟩ hleft
  rw [(agrees f).product] at hleft
  -- the first product has taken a token, which pays for the calls of the rest
  have hm := (advancing f).product hc hdepth hleft
  have hless := hm.rest_lt
  exact ih.sumTail (hm.closed hc) (hm.depth_le hdepth) (by omega)

theorem product_step (ih : Settles f) (hc : c.Closed) (hdepth : c.depth ≤ maxNesting)
    (hfuel : 8 * c.rest.length + 4 ≤ f + 1) :
    Logged.product (f + 1 + 1) c = Logged.product (f + 1) c := by
  conv_lhs => rw [Logged.product]
  conv_rhs => rw [Logged.product]
  refine bind_congr_ok (ih.unary hc hdepth (by omega)) ?_
  rintro ⟨left, m⟩ hleft
  rw [(agrees f).unary] at hleft
  have hm := (advancing f).unary hc hdepth hleft
  have hless := hm.rest_lt
  exact ih.productTail (hm.closed hc) (hm.depth_le hdepth) (by omega)

/-- A level is opened in both runs or in none. -/
theorem descend_bind {α : Type} {position : Nat} {g h : Cursor → Logged α}
    (hgh : c.depth < maxNesting → g c.deeper = h c.deeper) :
    descend c position >>= g = descend c position >>= h := by
  refine bind_congr_ok rfl fun e he => ?_
  obtain ⟨hlt, rfl⟩ := Cursor.descend_eq_ok.1 he
  exact hgh hlt

theorem sumTail_step (ih : Settles f) {left : Expr} {chained : Nat} (hc : c.Closed)
    (hfuel : 8 * c.rest.length + 9 ≤ f + 1) :
    Logged.sumTail (f + 1 + 1) left chained c = Logged.sumTail (f + 1) left chained c := by
  conv_lhs => rw [Logged.sumTail]
  conv_rhs => rw [Logged.sumTail]
  cases hop : additive? c.current.kind with
  | none => rfl
  | some op =>
    obtain ⟨hclosed, hless⟩ := Cursor.deeper_advance hc (additive?_eq_some.1 hop).1 (by simp)
    refine descend_bind fun hlt => ?_
    refine bind_congr_ok (ih.product hclosed hlt (by omega)) ?_
    rintro ⟨right, m⟩ hright
    rw [(agrees f).product] at hright
    have hm := (advancing f).product hclosed hlt hright
    have hmless := hm.rest_lt
    exact ih.sumTail (hm.closed hclosed) (hm.depth_le hlt) (by omega)

theorem productTail_step (ih : Settles f) {left : Expr} {chained : Nat} (hc : c.Closed)
    (hfuel : 8 * c.rest.length + 9 ≤ f + 1) :
    Logged.productTail (f + 1 + 1) left chained c = Logged.productTail (f + 1) left chained c := by
  conv_lhs => rw [Logged.productTail]
  conv_rhs => rw [Logged.productTail]
  cases hop : multiplicative? c.current.kind with
  | none => rfl
  | some op =>
    obtain ⟨hclosed, hless⟩ := Cursor.deeper_advance hc (multiplicative?_eq_some.1 hop).1 (by simp)
    refine descend_bind fun hlt => ?_
    refine bind_congr_ok (ih.unary hclosed hlt (by omega)) ?_
    rintro ⟨right, m⟩ hright
    rw [(agrees f).unary] at hright
    have hm := (advancing f).unary hclosed hlt hright
    have hmless := hm.rest_lt
    exact ih.productTail (hm.closed hclosed) (hm.depth_le hlt) (by omega)

theorem unary_step (ih : Settles f) (hc : c.Closed) (hdepth : c.depth ≤ maxNesting)
    (hfuel : 8 * c.rest.length + 3 ≤ f + 1) :
    Logged.unary (f + 1 + 1) c = Logged.unary (f + 1) c := by
  conv_lhs => rw [Logged.unary]
  conv_rhs => rw [Logged.unary]
  cases hsign : sign? c.current.kind with
  | none => exact ih.power hc hdepth (by omega)
  | some sign =>
    obtain ⟨hclosed, hless⟩ := Cursor.deeper_advance hc (sign?_eq_some.1 hsign) (by simp)
    refine descend_bind fun hlt => ?_
    exact bind_congr_ok (ih.unary hclosed hlt (by omega)) fun _ _ => rfl

theorem power_step (ih : Settles f) (hc : c.Closed) (hdepth : c.depth ≤ maxNesting)
    (hfuel : 8 * c.rest.length + 2 ≤ f + 1) :
    Logged.power (f + 1 + 1) c = Logged.power (f + 1) c := by
  conv_lhs => rw [Logged.power]
  conv_rhs => rw [Logged.power]
  refine bind_congr_ok (ih.primary hc hdepth (by omega)) ?_
  rintro ⟨base, m⟩ hbase
  rw [(agrees f).primary] at hbase
  have hm := (advancing f).primary hc hdepth hbase
  have hmless := hm.rest_lt
  dsimp only
  by_cases hpow : m.current.kind = .operator .pow
  · rw [if_pos hpow, if_pos hpow]
    obtain ⟨hclosed, hless⟩ := Cursor.deeper_advance (hm.closed hc) hpow (by simp)
    refine descend_bind fun hlt => ?_
    exact bind_congr_ok (ih.unary hclosed hlt (by omega)) fun _ _ => rfl
  · rw [if_neg hpow, if_neg hpow]

theorem primary_step (ih : Settles f) (hc : c.Closed) (hfuel : 8 * c.rest.length + 1 ≤ f + 1) :
    Logged.primary (f + 1 + 1) c = Logged.primary (f + 1) c := by
  conv_lhs => rw [Logged.primary]
  conv_rhs => rw [Logged.primary]
  cases hk : c.current.kind with
  | number value => rfl
  | leftParen =>
    obtain ⟨hclosed, hless⟩ := Cursor.deeper_advance hc hk (by simp)
    refine descend_bind fun hlt => ?_
    exact bind_congr_ok (ih.expression hclosed hlt (by omega)) fun _ _ => rfl
  | name text =>
    dsimp only
    by_cases hopen : c.advance.current.kind = .leftParen
    · rw [if_pos hopen, if_pos hopen]
      cases Function.ofName? text with
      | none => rfl
      | some g =>
        -- two tokens are read before the arguments
        have hname : c.current.kind ≠ .finish := by simp [hk]
        obtain ⟨hclosed, hless⟩ :=
          Cursor.deeper_advance (Cursor.closed_advance hc hname) hopen (by simp)
        have hnext := (Advances.advance hc hname).rest_lt
        refine descend_bind fun hlt => ?_
        exact bind_congr_ok (ih.arguments hclosed hlt (by omega)) fun _ _ => rfl
    · rw [if_neg hopen, if_neg hopen]
  | operator | rightParen | comma | finish => rfl

theorem arguments_step (ih : Settles f) (hc : c.Closed) (hdepth : c.depth ≤ maxNesting)
    (hfuel : 8 * c.rest.length + 7 ≤ f + 1) :
    Logged.arguments (f + 1 + 1) c = Logged.arguments (f + 1) c := by
  conv_lhs => rw [Logged.arguments]
  conv_rhs => rw [Logged.arguments]
  rw [ih.argumentsTail hc hdepth (by omega)]

theorem argumentsTail_step (ih : Settles f) {before : List Expr} (hc : c.Closed)
    (hdepth : c.depth ≤ maxNesting) (hfuel : 8 * c.rest.length + 6 ≤ f + 1) :
    Logged.argumentsTail (f + 1 + 1) before c = Logged.argumentsTail (f + 1) before c := by
  conv_lhs => rw [Logged.argumentsTail]
  conv_rhs => rw [Logged.argumentsTail]
  refine bind_congr_ok (ih.expression hc hdepth (by omega)) ?_
  rintro ⟨x, m⟩ hx
  rw [(agrees f).expression] at hx
  have hm := (advancing f).expression hc hdepth hx
  dsimp only
  cases hk : m.current.kind with
  | comma =>
    have hnext := hm.trans (.advance (hm.closed hc) (by simp [hk]))
    have hless := hnext.rest_lt
    exact ih.argumentsTail (hnext.closed hc) (hnext.depth_le hdepth) (by omega)
  | number | name | operator | leftParen | rightParen | finish => rfl

end Settles

/-- **The fuel is never used up.** -/
theorem settles (fuel : Nat) : Settles fuel := by
  induction fuel with
  | zero => constructor <;> intros <;> omega
  | succ f ih =>
    exact
      { expression := ih.expression_step
        sumTail := fun hc _ => ih.sumTail_step hc
        product := ih.product_step
        productTail := fun hc _ => ih.productTail_step hc
        unary := ih.unary_step
        power := ih.power_step
        primary := fun hc _ => ih.primary_step hc
        arguments := ih.arguments_step
        argumentsTail := ih.argumentsTail_step }

end Logged

end ShapeEstimator.Formula
