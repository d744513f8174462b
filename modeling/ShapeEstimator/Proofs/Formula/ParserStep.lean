/-
  ShapeEstimator.Proofs.Formula.ParserStep
  ────────────────────────────────
  **WHAT ONE STEP OF THE PARSER CAN DO.**

  A cursor that has moved on over some tokens is described from its end: `c.rewind ts`
  is the cursor from which `c` is reached by reading `ts`.  Reading keeps the depth,
  so one equation says both which tokens were read and that all levels are closed:

      start = c.rewind ts

  For each function of the parser there is one statement that says exactly when it
  succeeds, in terms of the functions that it calls.
-/
import ShapeEstimator.Formula.Parser
import ShapeEstimator.Proofs.Formula.Grammar

namespace ShapeEstimator.Formula

/-- A computation in two steps succeeds when both steps do. -/
theorem bind_eq_ok {ε α β : Type} {x : Except ε α} {f : α → Except ε β} {b : β} :
    (x >>= f) = .ok b ↔ ∃ a, x = .ok a ∧ f a = .ok b := by
  constructor
  · intro h
    match x, h with
    | .ok a, h => exact ⟨a, rfl, h⟩
  · rintro ⟨a, rfl, h⟩
    exact h

theorem pure_eq_ok {ε α β : Type} {a x : α} {b y : β} :
    (pure (a, b) : Except ε (α × β)) = .ok (x, y) ↔ x = a ∧ y = b := by
  constructor
  · intro h
    injection h with h
    injection h with ha hb
    exact ⟨ha.symm, hb.symm⟩
  · rintro ⟨rfl, rfl⟩
    rfl

/-! ## §1. Cursors, from their end. -/

namespace Cursor

/-- The tokens from a cursor on. -/
def tokens (c : Cursor) : List Token := c.current :: c.rest

/-- The cursor from which `c` is reached over the given tokens. -/
def rewind (c : Cursor) : List Token → Cursor
  | [] => c
  | t :: ts => ⟨t, ts ++ c.tokens, c.depth⟩

/-- The cursor one level down. -/
def deeper (c : Cursor) : Cursor := { c with depth := c.depth + 1 }

@[simp] theorem rewind_nil (c : Cursor) : c.rewind [] = c := rfl

@[simp] theorem current_rewind_cons (c : Cursor) (t : Token) (ts : List Token) :
    (c.rewind (t :: ts)).current = t := rfl

@[simp] theorem depth_rewind (c : Cursor) (ts : List Token) : (c.rewind ts).depth = c.depth := by
  cases ts <;> rfl

@[simp] theorem depth_deeper (c : Cursor) : c.deeper.depth = c.depth + 1 := rfl

@[simp] theorem tokens_rewind (c : Cursor) (ts : List Token) :
    (c.rewind ts).tokens = ts ++ c.tokens := by
  cases ts <;> rfl

@[simp] theorem advance_rewind_cons (c : Cursor) (t : Token) (ts : List Token) :
    (c.rewind (t :: ts)).advance = c.rewind ts := by
  cases ts <;> rfl

theorem rewind_append (c : Cursor) (ts us : List Token) :
    c.rewind (ts ++ us) = (c.rewind us).rewind ts := by
  cases ts with
  | nil => rfl
  | cons t ts =>
    show Cursor.mk t ((ts ++ us) ++ c.tokens) c.depth
      = Cursor.mk t (ts ++ (c.rewind us).tokens) (c.rewind us).depth
    rw [tokens_rewind, depth_rewind, List.append_assoc]

theorem deeper_rewind (c : Cursor) (ts : List Token) :
    (c.rewind ts).deeper = c.deeper.rewind ts := by
  cases ts <;> rfl

theorem ascend_rewind (c : Cursor) (ts : List Token) (n : Nat) :
    (c.rewind ts).ascend n = (c.ascend n).rewind ts := by
  cases ts <;> rfl

/-- One level down behind the first token, what follows it is read one level down. -/
theorem deeper_advance_rewind_cons (c : Cursor) (t : Token) (ts : List Token) :
    (c.rewind (t :: ts)).advance.deeper = c.deeper.rewind ts := by
  rw [advance_rewind_cons, deeper_rewind]

@[simp] theorem depth_advance (c : Cursor) : c.advance.depth = c.depth := by
  unfold advance
  cases c.rest <;> rfl

theorem deeper_ascend_succ (c : Cursor) (n : Nat) : c.deeper.ascend (n + 1) = c.ascend n := by
  show Cursor.mk c.current c.rest (c.depth + 1 - (n + 1)) = Cursor.mk c.current c.rest (c.depth - n)
  rw [Nat.add_sub_add_right]

@[simp] theorem deeper_ascend (c : Cursor) : c.deeper.ascend 1 = c := deeper_ascend_succ c 0

theorem ascend_ascend (c : Cursor) (m n : Nat) : (c.ascend m).ascend n = c.ascend (n + m) := by
  show Cursor.mk c.current c.rest (c.depth - m - n) = Cursor.mk c.current c.rest (c.depth - (n + m))
  rw [Nat.sub_sub, Nat.add_comm]

/-- A level can be opened while fewer than the greatest number are open. -/
theorem descend_eq_ok {c c' : Cursor} {position : Nat} :
    c.descend position = .ok c' ↔ c.depth < maxNesting ∧ c' = c.deeper := by
  unfold descend
  split
  · rename_i h
    exact ⟨fun h' => (nomatch h'), fun ⟨h', _⟩ => absurd h (by omega)⟩
  · rename_i h
    exact ⟨fun h' => ⟨by omega, by injection h' with h'; exact h'.symm⟩, fun ⟨_, h'⟩ => by rw [h']; rfl⟩

/-! ## §2. Lists that end with the end token. -/

/-- The last token from the cursor on is the end token. -/
def Closed (c : Cursor) : Prop := ∀ t ∈ c.tokens.getLast?, t.kind = .finish

theorem closed_rewind {c : Cursor} {ts : List Token} : (c.rewind ts).Closed ↔ c.Closed := by
  unfold Closed
  rw [tokens_rewind, tokens, List.getLast?_append, List.getLast?_cons]
  rfl

theorem closed_deeper {c : Cursor} : c.deeper.Closed ↔ c.Closed := Iff.rfl

/-- A token other than the end token has a token behind it. -/
theorem eq_rewind_advance {c : Cursor} (hc : c.Closed) (h : c.current.kind ≠ .finish) :
    c = c.advance.rewind [c.current] := by
  obtain ⟨t, ts, n⟩ := c
  cases ts with
  | nil => exact absurd (hc t (by rfl)) h
  | cons u us => rfl

theorem closed_advance {c : Cursor} (hc : c.Closed) (h : c.current.kind ≠ .finish) :
    c.advance.Closed := by
  rw [eq_rewind_advance hc h] at hc
  exact closed_rewind.1 hc

end Cursor

/-! ## §3. The functions of the parser. -/

variable {fuel : Nat} {c c' : Cursor} {x : Expr}

theorem expression_eq_ok {r : Expr × Cursor} :
    expression (fuel + 1) c = .ok r ↔
      ∃ left c₁, product fuel c = .ok (left, c₁) ∧ sumTail fuel left 0 c₁ = .ok r := by
  rw [expression, bind_eq_ok, Prod.exists]

theorem product_eq_ok {r : Expr × Cursor} :
    product (fuel + 1) c = .ok r ↔
      ∃ left c₁, unary fuel c = .ok (left, c₁) ∧ productTail fuel left 0 c₁ = .ok r := by
  rw [product, bind_eq_ok, Prod.exists]

/-- A chain is over where no operator follows. -/
theorem sumTail_of_none {left : Expr} {chained : Nat} (h : additive? c.current.kind = none) :
    sumTail (fuel + 1) left chained c = .ok (left, c.ascend chained) := by
  rw [sumTail]
  simp only [h]

theorem productTail_of_none {left : Expr} {chained : Nat}
    (h : multiplicative? c.current.kind = none) :
    productTail (fuel + 1) left chained c = .ok (left, c.ascend chained) := by
  rw [productTail]
  simp only [h]

/-- A chain goes on behind an operator, one level deeper than before. -/
theorem sumTail_of_some {left : Expr} {chained : Nat} {op : Operator} {r : Expr × Cursor}
    (h : additive? c.current.kind = some op) :
    sumTail (fuel + 1) left chained c = .ok r ↔
      c.depth < maxNesting ∧ ∃ right c₁, product fuel c.advance.deeper = .ok (right, c₁)
        ∧ sumTail fuel (.binary op left right) (chained + 1) c₁ = .ok r := by
  rw [sumTail]
  simp only [h, bind_eq_ok, Prod.exists, Cursor.descend_eq_ok, Cursor.depth_advance, and_assoc,
    exists_and_left, exists_eq_left]

theorem productTail_of_some {left : Expr} {chained : Nat} {op : Operator} {r : Expr × Cursor}
    (h : multiplicative? c.current.kind = some op) :
    productTail (fuel + 1) left chained c = .ok r ↔
      c.depth < maxNesting ∧ ∃ right c₁, unary fuel c.advance.deeper = .ok (right, c₁)
        ∧ productTail fuel (.binary op left right) (chained + 1) c₁ = .ok r := by
  rw [productTail]
  simp only [h, bind_eq_ok, Prod.exists, Cursor.descend_eq_ok, Cursor.depth_advance, and_assoc,
    exists_and_left, exists_eq_left]

theorem unary_of_none (h : sign? c.current.kind = none) : unary (fuel + 1) c = power fuel c := by
  rw [unary]
  simp only [h]

theorem unary_of_some {sign : Sign} (h : sign? c.current.kind = some sign) :
    unary (fuel + 1) c = .ok (x, c') ↔
      c.depth < maxNesting ∧ ∃ operand c₁, unary fuel c.advance.deeper = .ok (operand, c₁)
        ∧ x = .unary sign operand ∧ c' = c₁.ascend 1 := by
  rw [unary]
  simp only [h, bind_eq_ok, Prod.exists, Cursor.descend_eq_ok, Cursor.depth_advance, and_assoc,
    exists_and_left, exists_eq_left, pure_eq_ok]

theorem power_eq_ok :
    power (fuel + 1) c = .ok (x, c') ↔
      ∃ base c₁, primary fuel c = .ok (base, c₁) ∧
        if c₁.current.kind = .operator .pow then
          c₁.depth < maxNesting ∧ ∃ exponent c₂,
            unary fuel c₁.advance.deeper = .ok (exponent, c₂)
              ∧ x = .binary .pow base exponent ∧ c' = c₂.ascend 1
        else x = base ∧ c' = c₁ := by
  rw [power]
  simp only [bind_eq_ok, Prod.exists]
  refine exists_congr fun base => exists_congr fun c₁ => and_congr_right fun _ => ?_
  split
  · simp only [bind_eq_ok, Prod.exists, Cursor.descend_eq_ok, Cursor.depth_advance, and_assoc,
      exists_and_left, exists_eq_left, pure_eq_ok]
  · exact pure_eq_ok

/-- What a primary is read from: a number, a sum in parentheses, a name or a call. -/
theorem primary_eq_ok :
    primary (fuel + 1) c = .ok (x, c') ↔
      match c.current.kind with
      | .number value => x = .number value ∧ c' = c.advance
      | .leftParen =>
        c.depth < maxNesting ∧ ∃ c₁, expression fuel c.advance.deeper = .ok (x, c₁)
          ∧ c₁.current.kind = .rightParen ∧ c' = c₁.advance.ascend 1
      | .name text =>
        if c.advance.current.kind = .leftParen then
          c.depth < maxNesting ∧ ∃ f xs c₁, Function.ofName? text = some f
            ∧ arguments fuel c.advance.advance.deeper = .ok (xs, c₁)
            ∧ f.arity.admits xs.length = true ∧ x = .call f xs ∧ c' = c₁.ascend 1
        else x = Derivation.meaningOfName text ∧ c' = c.advance
      | _ => False := by
  rw [primary]
  cases c.current.kind with
  | number value =>
    exact pure_eq_ok
  | leftParen =>
    simp only [bind_eq_ok, Prod.exists, Cursor.descend_eq_ok, Cursor.depth_advance, and_assoc,
      exists_and_left, exists_eq_left]
    refine and_congr_right fun _ => ⟨?_, ?_⟩
    · rintro ⟨y, c₁, hy, hr⟩
      split at hr
      · rename_i hclose
        cases hr
        exact ⟨c₁, hy, hclose, rfl⟩
      · exact nomatch hr
    · rintro ⟨c₁, hy, hclose, rfl⟩
      refine ⟨x, c₁, hy, ?_⟩
      rw [if_pos hclose]
      rfl
  | name text =>
    by_cases hnext : c.advance.current.kind = .leftParen
    · -- a name that a parenthesis follows is called
      simp only [if_pos hnext]
      cases hf : Function.ofName? text with
      | none => simp
      | some f =>
        simp only [bind_eq_ok, Prod.exists, Cursor.descend_eq_ok, Cursor.depth_advance, and_assoc,
          exists_and_left, exists_eq_left, Option.some.injEq, exists_eq_left']
        refine and_congr_right fun _ => ⟨?_, ?_⟩
        · rintro ⟨xs, c₁, hxs, hr⟩
          split at hr
          · rename_i hfit
            cases hr
            exact ⟨xs, c₁, hxs, hfit, rfl, rfl⟩
          · exact nomatch hr
        · rintro ⟨xs, c₁, hxs, hfit, rfl, rfl⟩
          refine ⟨xs, c₁, hxs, ?_⟩
          rw [if_pos hfit]
          rfl
    · simp only [if_neg hnext, Derivation.meaningOfName]
      cases Constant.ofName? text <;> exact pure_eq_ok
  | operator op => simp
  | rightParen => simp
  | comma => simp
  | finish => simp

theorem primary_of_number {value : Decimal} (h : c.current.kind = .number value) :
    primary (fuel + 1) c = .ok (.number value, c.advance) := by
  rw [primary_eq_ok, h]
  exact ⟨rfl, rfl⟩

theorem primary_of_leftParen (h : c.current.kind = .leftParen) :
    primary (fuel + 1) c = .ok (x, c') ↔
      c.depth < maxNesting ∧ ∃ c₁, expression fuel c.advance.deeper = .ok (x, c₁)
        ∧ c₁.current.kind = .rightParen ∧ c' = c₁.advance.ascend 1 := by
  rw [primary_eq_ok, h]

/-- A name that no parenthesis follows is a constant or a variable. -/
theorem primary_of_name {text : String} (h : c.current.kind = .name text)
    (hnext : c.advance.current.kind ≠ .leftParen) :
    primary (fuel + 1) c = .ok (Derivation.meaningOfName text, c.advance) := by
  rw [primary_eq_ok, h]
  exact (if_neg hnext).mpr ⟨rfl, rfl⟩

/-- A name that a parenthesis follows is called. -/
theorem primary_of_call {text : String} (h : c.current.kind = .name text)
    (hnext : c.advance.current.kind = .leftParen) :
    primary (fuel + 1) c = .ok (x, c') ↔
      c.depth < maxNesting ∧ ∃ f xs c₁, Function.ofName? text = some f
        ∧ arguments fuel c.advance.advance.deeper = .ok (xs, c₁)
        ∧ f.arity.admits xs.length = true ∧ x = .call f xs ∧ c' = c₁.ascend 1 := by
  rw [primary_eq_ok, h]
  exact iff_of_eq (if_pos hnext)

/-- Nothing else starts a primary. -/
theorem primary_starts (h : primary (fuel + 1) c = .ok (x, c')) :
    (∃ value, c.current.kind = .number value) ∨ c.current.kind = .leftParen
      ∨ ∃ text, c.current.kind = .name text := by
  rw [primary_eq_ok] at h
  split at h
  case h_1 value hk => exact .inl ⟨value, hk⟩
  case h_2 hk => exact .inr (.inl hk)
  case h_3 text hk => exact .inr (.inr ⟨text, hk⟩)
  case h_4 => exact h.elim

theorem arguments_of_ne (h : c.current.kind ≠ .rightParen) :
    arguments (fuel + 1) c = argumentsTail fuel [] c := by
  rw [arguments, if_neg h]

theorem arguments_of_rightParen (h : c.current.kind = .rightParen) :
    arguments (fuel + 1) c = .ok ([], c.advance) := by
  rw [arguments, if_pos h]

theorem argumentsTail_eq_ok {before xs : List Expr} :
    argumentsTail (fuel + 1) before c = .ok (xs, c') ↔
      ∃ y c₁, expression fuel c = .ok (y, c₁) ∧
        ((c₁.current.kind = .comma
            ∧ argumentsTail fuel (before ++ [y]) c₁.advance = .ok (xs, c'))
          ∨ (c₁.current.kind = .rightParen ∧ xs = before ++ [y] ∧ c' = c₁.advance)) := by
  rw [argumentsTail]
  simp only [bind_eq_ok, Prod.exists]
  refine exists_congr fun y => exists_congr fun c₁ => and_congr_right fun _ => ?_
  cases hk : c₁.current.kind <;> simp [pure_eq_ok]

end ShapeEstimator.Formula
