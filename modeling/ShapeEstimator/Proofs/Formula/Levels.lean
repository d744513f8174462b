/-
  ShapeEstimator.Proofs.Formula.Levels
  ────────────────────────────────
  **LEVELS THAT ARE OPENED ARE CLOSED AGAIN.**

  A function of the parser opens one level at a time and closes the levels of a chain
  together when the chain is over.  Started with at most 128 levels open,

      whatever it comes to    no more levels are closed than are open,
                              and never are more than 129 open
      where it succeeds       as many are open as at the start,
                              and the cursor is at a later token

  and it reads the same with fewer levels open.  So what was read before takes no levels
  from what is read next.
-/
import ShapeEstimator.Proofs.Formula.Fuel

namespace ShapeEstimator.Formula

namespace Logged

/-! ## §1. Computations that keep the count. -/

/-- From `n` open levels on, a computation keeps the count.  It closes no more levels than are open
and opens one too many at most; and where it has a result, `n'` levels are open, as the steps have
it and as the result shows it. -/
structure Keeps {α : Type} (shown : α → Nat) (n n' : Nat) (x : Logged α) : Prop where
  counts : ∃ k, Counts (maxNesting + 1) n x.steps k
  returns : ∀ a, x.outcome = .ok a → shown a = n' ∧ Counts (maxNesting + 1) n x.steps n'

namespace Keeps

variable {α β : Type} {shown : α → Nat} {shown' : β → Nat} {n m n' : Nat}

theorem result {a : α} (h : shown a = n) : Keeps shown n n (pure a) where
  counts := ⟨n, .done n⟩
  returns := by
    intro b hb
    cases hb
    exact ⟨h, .done n⟩

theorem fault (fault : SyntaxFault) : Keeps shown n n' (fail fault) where
  counts := ⟨n, .done n⟩
  returns := fun _ h => nomatch h

theorem bind {x : Logged α} {f : α → Logged β} (hx : Keeps shown n m x)
    (hf : ∀ a, x.outcome = .ok a → shown a = m → Keeps shown' m n' (f a)) :
    Keeps shown' n n' (x >>= f) := by
  cases hout : x.outcome with
  | error fault =>
    rw [bind_of_error hout]
    exact ⟨hx.counts, fun _ h => nomatch h⟩
  | ok a =>
    rw [bind_of_ok hout]
    obtain ⟨hshown, hsteps⟩ := hx.returns a hout
    have hrest := hf a hout hshown
    obtain ⟨k, hk⟩ := hrest.counts
    exact ⟨⟨k, hsteps.append hk⟩, fun b hb =>
      (hrest.returns b hb).imp_right fun hcounts => hsteps.append hcounts⟩

/-- Where a level is opened there was room for it, or the computation ends. -/
theorem descend_bind {c : Cursor} {position : Nat} {f : Cursor → Logged β} (hc : c.depth = n)
    (hn : n ≤ maxNesting) (hf : n < maxNesting → Keeps shown' (n + 1) n' (f c.deeper)) :
    Keeps shown' n n' (descend c position >>= f) := by
  have hcounts : Counts (maxNesting + 1) n [.opening] (n + 1) :=
    .opening (Nat.lt_succ_of_le hn) (.done _)
  have hdescend : Keeps (·.depth) n (n + 1) (descend c position) := by
    refine ⟨⟨n + 1, hcounts⟩, fun e he => ?_⟩
    obtain ⟨-, rfl⟩ := Cursor.descend_eq_ok.1 he
    exact ⟨congrArg (· + 1) hc, hcounts⟩
  refine hdescend.bind fun e he _ => ?_
  obtain ⟨hlt, rfl⟩ := Cursor.descend_eq_ok.1 he
  exact hf (hc ▸ hlt)

theorem ascend_bind {c : Cursor} {levels : Nat} {f : Cursor → Logged β} (hc : c.depth = n)
    (hn : levels ≤ n) (hf : Keeps shown' (n - levels) n' (f (c.ascend levels))) :
    Keeps shown' n n' (ascend c levels >>= f) := by
  have hcounts : Counts (maxNesting + 1) n [.closing levels] (n - levels) :=
    .closing hn (.done _)
  have hascend : Keeps (·.depth) n (n - levels) (ascend c levels) := by
    refine ⟨⟨n - levels, hcounts⟩, fun e he => ?_⟩
    cases he
    exact ⟨congrArg (· - levels) hc, hcounts⟩
  refine hascend.bind fun e he _ => ?_
  cases he
  exact hf

end Keeps

/-! ## §2. The functions of the parser keep the count. -/

/-- The levels that are open behind what was read. -/
def levelsBehind {α : Type} (r : α × Cursor) : Nat := r.2.depth

/-- With the given fuel, the functions of the parser keep the count and close what they open.  The
rest of a chain closes the levels of the operators before it as well. -/
structure Balanced (fuel : Nat) : Prop where
  expression : ∀ {c : Cursor} {n : Nat}, c.depth = n → n ≤ maxNesting →
    Keeps levelsBehind n n (expression fuel c)
  sumTail : ∀ {left : Expr} {chained : Nat} {c : Cursor} {n : Nat}, c.depth = n → n ≤ maxNesting →
    chained ≤ n → Keeps levelsBehind n (n - chained) (sumTail fuel left chained c)
  product : ∀ {c : Cursor} {n : Nat}, c.depth = n → n ≤ maxNesting →
    Keeps levelsBehind n n (product fuel c)
  productTail : ∀ {left : Expr} {chained : Nat} {c : Cursor} {n : Nat}, c.depth = n →
    n ≤ maxNesting → chained ≤ n →
    Keeps levelsBehind n (n - chained) (productTail fuel left chained c)
  unary : ∀ {c : Cursor} {n : Nat}, c.depth = n → n ≤ maxNesting →
    Keeps levelsBehind n n (unary fuel c)
  power : ∀ {c : Cursor} {n : Nat}, c.depth = n → n ≤ maxNesting →
    Keeps levelsBehind n n (power fuel c)
  primary : ∀ {c : Cursor} {n : Nat}, c.depth = n → n ≤ maxNesting →
    Keeps levelsBehind n n (primary fuel c)
  arguments : ∀ {c : Cursor} {n : Nat}, c.depth = n → n ≤ maxNesting →
    Keeps levelsBehind n n (arguments fuel c)
  argumentsTail : ∀ {before : List Expr} {c : Cursor} {n : Nat}, c.depth = n → n ≤ maxNesting →
    Keeps levelsBehind n n (argumentsTail fuel before c)

namespace Balanced

variable {f : Nat} {c : Cursor} {n : Nat}

/-- Behind the token that opens a level. -/
theorem depth_deeper_advance (hc : c.depth = n) : c.advance.deeper.depth = n + 1 := by
  rw [Cursor.depth_deeper, Cursor.depth_advance, hc]

theorem depth_advance (hc : c.depth = n) : c.advance.depth = n := by
  rw [Cursor.depth_advance, hc]

/-- The level of a pair of parentheses, a sign or a power is closed when its inside was read. -/
theorem close {α : Type} {a : α} (hc : c.depth = n + 1) :
    Keeps levelsBehind (n + 1) n (ascend c 1 >>= fun e => pure (a, e)) := by
  refine .ascend_bind hc (Nat.le_add_left 1 n) ?_
  exact .result (show c.depth - 1 = n + 1 - 1 by rw [hc])

theorem expression_step (ih : Balanced f) (hc : c.depth = n) (hn : n ≤ maxNesting) :
    Keeps levelsBehind n n (Logged.expression (f + 1) c) := by
  rw [Logged.expression]
  refine (ih.product hc hn).bind ?_
  rintro ⟨left, m⟩ - hm
  exact ih.sumTail hm hn (Nat.zero_le n)

theorem product_step (ih : Balanced f) (hc : c.depth = n) (hn : n ≤ maxNesting) :
    Keeps levelsBehind n n (Logged.product (f + 1) c) := by
  rw [Logged.product]
  refine (ih.unary hc hn).bind ?_
  rintro ⟨left, m⟩ - hm
  exact ih.productTail hm hn (Nat.zero_le n)

theorem sumTail_step (ih : Balanced f) {left : Expr} {chained : Nat} (hc : c.depth = n)
    (hn : n ≤ maxNesting) (hchained : chained ≤ n) :
    Keeps levelsBehind n (n - chained) (Logged.sumTail (f + 1) left chained c) := by
  rw [Logged.sumTail]
  cases additive? c.current.kind with
  | none => exact .ascend_bind hc hchained (.result (congrArg (· - chained) hc))
  | some op =>
    refine .descend_bind (depth_advance hc) hn fun hlt => ?_
    refine (ih.product (depth_deeper_advance hc) hlt).bind ?_
    rintro ⟨right, m⟩ - hm
    -- one level more is open, and one more is closed at the end of the chain
    rw [← Nat.add_sub_add_right n 1 chained]
    exact ih.sumTail hm hlt (Nat.succ_le_succ hchained)

theorem productTail_step (ih : Balanced f) {left : Expr} {chained : Nat} (hc : c.depth = n)
    (hn : n ≤ maxNesting) (hchained : chained ≤ n) :
    Keeps levelsBehind n (n - chained) (Logged.productTail (f + 1) left chained c) := by
  rw [Logged.productTail]
  cases multiplicative? c.current.kind with
  | none => exact .ascend_bind hc hchained (.result (congrArg (· - chained) hc))
  | some op =>
    refine .descend_bind (depth_advance hc) hn fun hlt => ?_
    refine (ih.unary (depth_deeper_advance hc) hlt).bind ?_
    rintro ⟨right, m⟩ - hm
    rw [← Nat.add_sub_add_right n 1 chained]
    exact ih.productTail hm hlt (Nat.succ_le_succ hchained)

theorem unary_step (ih : Balanced f) (hc : c.depth = n) (hn : n ≤ maxNesting) :
    Keeps levelsBehind n n (Logged.unary (f + 1) c) := by
  rw [Logged.unary]
  cases sign? c.current.kind with
  | none => exact ih.power hc hn
  | some sign =>
    refine .descend_bind (depth_advance hc) hn fun hlt => ?_
    refine (ih.unary (depth_deeper_advance hc) hlt).bind ?_
    rintro ⟨operand, m⟩ - hm
    exact close hm

theorem power_step (ih : Balanced f) (hc : c.depth = n) (hn : n ≤ maxNesting) :
    Keeps levelsBehind n n (Logged.power (f + 1) c) := by
  rw [Logged.power]
  refine (ih.primary hc hn).bind ?_
  rintro ⟨base, m⟩ - hm
  dsimp only
  split
  · refine .descend_bind (depth_advance hm) hn fun hlt => ?_
    refine (ih.unary (depth_deeper_advance hm) hlt).bind ?_
    rintro ⟨exponent, e⟩ - he
    exact close he
  · exact .result hm

theorem primary_step (ih : Balanced f) (hc : c.depth = n) (hn : n ≤ maxNesting) :
    Keeps levelsBehind n n (Logged.primary (f + 1) c) := by
  have hnext : c.advance.depth = n := depth_advance hc
  rw [Logged.primary]
  cases c.current.kind with
  | number value => exact .result hnext
  | leftParen =>
    refine .descend_bind hnext hn fun hlt => ?_
    refine (ih.expression (depth_deeper_advance hc) hlt).bind ?_
    rintro ⟨x, m⟩ - hm
    dsimp only
    split
    · exact close (depth_advance hm)
    · exact .fault _
  | name text =>
    dsimp only
    split
    · cases Function.ofName? text with
      | none => exact .fault _
      | some g =>
        refine .descend_bind (depth_advance hnext) hn fun hlt => ?_
        refine (ih.arguments (depth_deeper_advance hnext) hlt).bind ?_
        rintro ⟨xs, m⟩ - hm
        refine .ascend_bind hm (Nat.le_add_left 1 n) ?_
        split
        · exact .result (congrArg (· - 1) hm)
        · exact .fault _
    · cases Constant.ofName? text <;> exact .result hnext
  | operator | rightParen | comma | finish => exact .fault _

theorem arguments_step (ih : Balanced f) (hc : c.depth = n) (hn : n ≤ maxNesting) :
    Keeps levelsBehind n n (Logged.arguments (f + 1) c) := by
  rw [Logged.arguments]
  split
  · exact .result (depth_advance hc)
  · exact ih.argumentsTail hc hn

theorem argumentsTail_step (ih : Balanced f) {before : List Expr} (hc : c.depth = n)
    (hn : n ≤ maxNesting) : Keeps levelsBehind n n (Logged.argumentsTail (f + 1) before c) := by
  rw [Logged.argumentsTail]
  refine (ih.expression hc hn).bind ?_
  rintro ⟨x, m⟩ - hm
  dsimp only
  cases m.current.kind with
  | comma => exact ih.argumentsTail (depth_advance hm) hn
  | rightParen => exact .result (depth_advance hm)
  | number | name | operator | leftParen | finish => exact .fault _

end Balanced

/-- **What a function of the parser opens it closes.** -/
theorem balanced (fuel : Nat) : Balanced fuel := by
  induction fuel with
  | zero => constructor <;> intros <;> exact .fault _
  | succ f ih =>
    exact
      { expression := ih.expression_step
        sumTail := ih.sumTail_step
        product := ih.product_step
        productTail := ih.productTail_step
        unary := ih.unary_step
        power := ih.power_step
        primary := ih.primary_step
        arguments := ih.arguments_step
        argumentsTail := ih.argumentsTail_step }

end Logged

/-! ## §3. Runs with fewer levels open. -/

namespace Cursor

theorem advance_ascend (c : Cursor) (k : Nat) : (c.ascend k).advance = c.advance.ascend k := by
  obtain ⟨t, rest, n⟩ := c
  cases rest <;> rfl

theorem ascend_comm (c : Cursor) (j k : Nat) : (c.ascend j).ascend k = (c.ascend k).ascend j := by
  rw [ascend_ascend, ascend_ascend, Nat.add_comm]

/-- With `k` levels fewer open, the level that is opened next is `k` levels less deep. -/
theorem deeper_advance_ascend {c : Cursor} {k : Nat} (hk : k ≤ c.depth) :
    (c.ascend k).advance.deeper = c.advance.deeper.ascend k := by
  have hdepth : c.advance.depth - k + 1 = c.advance.depth + 1 - k := by
    rw [depth_advance, Nat.sub_add_comm hk]
  rw [advance_ascend]
  exact congrArg (Cursor.mk c.advance.current c.advance.rest) hdepth

theorem depth_ascend_lt {c : Cursor} {n : Nat} (h : c.depth < n) (k : Nat) :
    (c.ascend k).depth < n :=
  Nat.lt_of_le_of_lt (Nat.sub_le c.depth k) h

end Cursor

/-- With the given fuel, what the functions of the parser read they also read with `k` levels fewer
open, up to the same token. -/
structure Rises (fuel : Nat) : Prop where
  expression : ∀ {c e : Cursor} {x : Expr} {k : Nat}, k ≤ c.depth → c.depth ≤ maxNesting →
    expression fuel c = .ok (x, e) → expression fuel (c.ascend k) = .ok (x, e.ascend k)
  sumTail : ∀ {left : Expr} {chained : Nat} {c e : Cursor} {x : Expr} {k : Nat}, k ≤ c.depth →
    sumTail fuel left chained c = .ok (x, e) →
    sumTail fuel left chained (c.ascend k) = .ok (x, e.ascend k)
  product : ∀ {c e : Cursor} {x : Expr} {k : Nat}, k ≤ c.depth → c.depth ≤ maxNesting →
    product fuel c = .ok (x, e) → product fuel (c.ascend k) = .ok (x, e.ascend k)
  productTail : ∀ {left : Expr} {chained : Nat} {c e : Cursor} {x : Expr} {k : Nat}, k ≤ c.depth →
    productTail fuel left chained c = .ok (x, e) →
    productTail fuel left chained (c.ascend k) = .ok (x, e.ascend k)
  unary : ∀ {c e : Cursor} {x : Expr} {k : Nat}, k ≤ c.depth → c.depth ≤ maxNesting →
    unary fuel c = .ok (x, e) → unary fuel (c.ascend k) = .ok (x, e.ascend k)
  power : ∀ {c e : Cursor} {x : Expr} {k : Nat}, k ≤ c.depth → c.depth ≤ maxNesting →
    power fuel c = .ok (x, e) → power fuel (c.ascend k) = .ok (x, e.ascend k)
  primary : ∀ {c e : Cursor} {x : Expr} {k : Nat}, k ≤ c.depth → c.depth ≤ maxNesting →
    primary fuel c = .ok (x, e) → primary fuel (c.ascend k) = .ok (x, e.ascend k)
  arguments : ∀ {c e : Cursor} {xs : List Expr} {k : Nat}, k ≤ c.depth → c.depth ≤ maxNesting →
    arguments fuel c = .ok (xs, e) → arguments fuel (c.ascend k) = .ok (xs, e.ascend k)
  argumentsTail : ∀ {before : List Expr} {c e : Cursor} {xs : List Expr} {k : Nat}, k ≤ c.depth →
    c.depth ≤ maxNesting → argumentsTail fuel before c = .ok (xs, e) →
    argumentsTail fuel before (c.ascend k) = .ok (xs, e.ascend k)

namespace Rises

variable {f : Nat} {c e : Cursor} {x : Expr} {k : Nat}

/-- A run that keeps the count ends with as many levels open as it should. -/
theorem depth_eq {α : Type} {logged : Logged (α × Cursor)} {run : Except SyntaxFault (α × Cursor)}
    {a : α} {n n' : Nat} (hkeeps : logged.Keeps Logged.levelsBehind n n')
    (hagrees : logged.outcome = run) (h : run = .ok (a, e)) : e.depth = n' :=
  (hkeeps.returns (a, e) (hagrees.trans h)).1

/-- The level below the first token is open in both runs. -/
theorem le_deeper (hk : k ≤ c.depth) : k ≤ c.advance.deeper.depth := by
  rw [Cursor.depth_deeper, Cursor.depth_advance]
  exact Nat.le_succ_of_le hk

theorem expression_step (ih : Rises f) (hk : k ≤ c.depth) (hc : c.depth ≤ maxNesting)
    (h : Formula.expression (f + 1) c = .ok (x, e)) :
    Formula.expression (f + 1) (c.ascend k) = .ok (x, e.ascend k) := by
  obtain ⟨left, m, hleft, hmore⟩ := expression_eq_ok.1 h
  have hm : m.depth = c.depth :=
    depth_eq ((Logged.balanced f).product rfl hc) ((Logged.agrees f).product c) hleft
  exact expression_eq_ok.2 ⟨left, m.ascend k, ih.product hk hc hleft,
    ih.sumTail (hm ▸ hk) hmore⟩

theorem product_step (ih : Rises f) (hk : k ≤ c.depth) (hc : c.depth ≤ maxNesting)
    (h : Formula.product (f + 1) c = .ok (x, e)) :
    Formula.product (f + 1) (c.ascend k) = .ok (x, e.ascend k) := by
  obtain ⟨left, m, hleft, hmore⟩ := product_eq_ok.1 h
  have hm : m.depth = c.depth :=
    depth_eq ((Logged.balanced f).unary rfl hc) ((Logged.agrees f).unary c) hleft
  exact product_eq_ok.2 ⟨left, m.ascend k, ih.unary hk hc hleft, ih.productTail (hm ▸ hk) hmore⟩

theorem sumTail_step (ih : Rises f) {left : Expr} {chained : Nat} (hk : k ≤ c.depth)
    (h : Formula.sumTail (f + 1) left chained c = .ok (x, e)) :
    Formula.sumTail (f + 1) left chained (c.ascend k) = .ok (x, e.ascend k) := by
  cases hop : additive? c.current.kind with
  | none =>
    rw [sumTail_of_none hop] at h
    cases h
    rw [sumTail_of_none (c := c.ascend k) hop, Cursor.ascend_comm]
  | some op =>
    obtain ⟨hlt, right, m, hright, hmore⟩ := (sumTail_of_some hop).1 h
    have hdeep : c.advance.deeper.depth ≤ maxNesting := Sound.depth_deeper hlt
    have hm : m.depth = c.advance.deeper.depth :=
      depth_eq ((Logged.balanced f).product rfl hdeep) ((Logged.agrees f).product _) hright
    refine (sumTail_of_some (c := c.ascend k) hop).2
      ⟨Cursor.depth_ascend_lt hlt k, right, m.ascend k, ?_, ih.sumTail (hm ▸ le_deeper hk) hmore⟩
    rw [Cursor.deeper_advance_ascend hk]
    exact ih.product (le_deeper hk) hdeep hright

theorem productTail_step (ih : Rises f) {left : Expr} {chained : Nat} (hk : k ≤ c.depth)
    (h : Formula.productTail (f + 1) left chained c = .ok (x, e)) :
    Formula.productTail (f + 1) left chained (c.ascend k) = .ok (x, e.ascend k) := by
  cases hop : multiplicative? c.current.kind with
  | none =>
    rw [productTail_of_none hop] at h
    cases h
    rw [productTail_of_none (c := c.ascend k) hop, Cursor.ascend_comm]
  | some op =>
    obtain ⟨hlt, right, m, hright, hmore⟩ := (productTail_of_some hop).1 h
    have hdeep : c.advance.deeper.depth ≤ maxNesting := Sound.depth_deeper hlt
    have hm : m.depth = c.advance.deeper.depth :=
      depth_eq ((Logged.balanced f).unary rfl hdeep) ((Logged.agrees f).unary _) hright
    refine (productTail_of_some (c := c.ascend k) hop).2
      ⟨Cursor.depth_ascend_lt hlt k, right, m.ascend k, ?_,
        ih.productTail (hm ▸ le_deeper hk) hmore⟩
    rw [Cursor.deeper_advance_ascend hk]
    exact ih.unary (le_deeper hk) hdeep hright

theorem unary_step (ih : Rises f) (hk : k ≤ c.depth) (hc : c.depth ≤ maxNesting)
    (h : Formula.unary (f + 1) c = .ok (x, e)) :
    Formula.unary (f + 1) (c.ascend k) = .ok (x, e.ascend k) := by
  cases hsign : sign? c.current.kind with
  | none =>
    rw [unary_of_none hsign] at h
    rw [unary_of_none (c := c.ascend k) hsign]
    exact ih.power hk hc h
  | some sign =>
    obtain ⟨hlt, operand, m, hoperand, rfl, rfl⟩ := (unary_of_some hsign).1 h
    refine (unary_of_some (c := c.ascend k) hsign).2
      ⟨Cursor.depth_ascend_lt hlt k, operand, m.ascend k, ?_, rfl, Cursor.ascend_comm m 1 k⟩
    rw [Cursor.deeper_advance_ascend hk]
    exact ih.unary (le_deeper hk) (Sound.depth_deeper hlt) hoperand

theorem power_step (ih : Rises f) (hk : k ≤ c.depth) (hc : c.depth ≤ maxNesting)
    (h : Formula.power (f + 1) c = .ok (x, e)) :
    Formula.power (f + 1) (c.ascend k) = .ok (x, e.ascend k) := by
  obtain ⟨base, m, hbase, h⟩ := power_eq_ok.1 h
  have hm : m.depth = c.depth :=
    depth_eq ((Logged.balanced f).primary rfl hc) ((Logged.agrees f).primary c) hbase
  have hkm : k ≤ m.depth := hm ▸ hk
  refine power_eq_ok.2 ⟨base, m.ascend k, ih.primary hk hc hbase, ?_⟩
  show if m.current.kind = .operator .pow then _ else _
  by_cases hpow : m.current.kind = .operator .pow
  · rw [if_pos hpow] at h ⊢
    obtain ⟨hlt, exponent, e', hexponent, rfl, rfl⟩ := h
    refine ⟨Cursor.depth_ascend_lt hlt k, exponent, e'.ascend k, ?_, rfl, Cursor.ascend_comm e' 1 k⟩
    rw [Cursor.deeper_advance_ascend hkm]
    exact ih.unary (le_deeper hkm) (Sound.depth_deeper hlt) hexponent
  · rw [if_neg hpow] at h ⊢
    obtain ⟨rfl, rfl⟩ := h
    exact ⟨rfl, rfl⟩

theorem primary_step (ih : Rises f) (hk : k ≤ c.depth)
    (h : Formula.primary (f + 1) c = .ok (x, e)) :
    Formula.primary (f + 1) (c.ascend k) = .ok (x, e.ascend k) := by
  have hnext : (c.ascend k).advance.current = c.advance.current := by
    rw [Cursor.advance_ascend]
    rfl
  rcases primary_starts h with ⟨value, hkind⟩ | hkind | ⟨text, hkind⟩
  · rw [primary_of_number hkind] at h
    cases h
    rw [primary_of_number (c := c.ascend k) hkind, Cursor.advance_ascend]
  · obtain ⟨hlt, m, hm, hclose, rfl⟩ := (primary_of_leftParen hkind).1 h
    refine (primary_of_leftParen (c := c.ascend k) hkind).2
      ⟨Cursor.depth_ascend_lt hlt k, m.ascend k, ?_, hclose, ?_⟩
    · rw [Cursor.deeper_advance_ascend hk]
      exact ih.expression (le_deeper hk) (Sound.depth_deeper hlt) hm
    · rw [Cursor.advance_ascend, Cursor.ascend_comm]
  · by_cases hopen : c.advance.current.kind = .leftParen
    · obtain ⟨hlt, g, xs, m, hg, hxs, hcount, rfl, rfl⟩ := (primary_of_call hkind hopen).1 h
      have hkn : k ≤ c.advance.depth := by rwa [Cursor.depth_advance]
      have hltn : c.advance.depth < maxNesting := by rwa [Cursor.depth_advance]
      refine (primary_of_call (c := c.ascend k) hkind (hnext ▸ hopen)).2
        ⟨Cursor.depth_ascend_lt hlt k, g, xs, m.ascend k, hg, ?_, hcount, rfl,
          Cursor.ascend_comm m 1 k⟩
      rw [Cursor.advance_ascend, Cursor.deeper_advance_ascend hkn]
      exact ih.arguments (le_deeper hkn) (Sound.depth_deeper hltn) hxs
    · rw [primary_of_name hkind hopen] at h
      cases h
      rw [primary_of_name (c := c.ascend k) hkind (hnext ▸ hopen), Cursor.advance_ascend]

theorem arguments_step (ih : Rises f) {xs : List Expr} (hk : k ≤ c.depth)
    (hc : c.depth ≤ maxNesting) (h : Formula.arguments (f + 1) c = .ok (xs, e)) :
    Formula.arguments (f + 1) (c.ascend k) = .ok (xs, e.ascend k) := by
  by_cases hclose : c.current.kind = .rightParen
  · rw [arguments_of_rightParen hclose] at h
    cases h
    rw [arguments_of_rightParen (c := c.ascend k) hclose, Cursor.advance_ascend]
  · rw [arguments_of_ne hclose] at h
    rw [arguments_of_ne (c := c.ascend k) hclose]
    exact ih.argumentsTail hk hc h

theorem argumentsTail_step (ih : Rises f) {before xs : List Expr} (hk : k ≤ c.depth)
    (hc : c.depth ≤ maxNesting) (h : Formula.argumentsTail (f + 1) before c = .ok (xs, e)) :
    Formula.argumentsTail (f + 1) before (c.ascend k) = .ok (xs, e.ascend k) := by
  obtain ⟨y, m, hy, h⟩ := argumentsTail_eq_ok.1 h
  have hm : m.depth = c.depth :=
    depth_eq ((Logged.balanced f).expression rfl hc) ((Logged.agrees f).expression c) hy
  refine argumentsTail_eq_ok.2 ⟨y, m.ascend k, ih.expression hk hc hy, ?_⟩
  rw [Cursor.advance_ascend]
  refine h.imp (fun ⟨hcomma, hmore⟩ => ⟨hcomma, ?_⟩) fun ⟨hclose, hxs, he⟩ => ⟨hclose, hxs, ?_⟩
  · have hnext : m.advance.depth = c.depth := (Cursor.depth_advance m).trans hm
    exact ih.argumentsTail (hnext ▸ hk) (hnext ▸ hc) hmore
  · rw [he]

end Rises

/-- **What is read is also read with fewer levels open.** -/
theorem rises (fuel : Nat) : Rises fuel := by
  induction fuel with
  | zero => constructor <;> intros <;> contradiction
  | succ f ih =>
    exact
      { expression := ih.expression_step
        sumTail := ih.sumTail_step
        product := ih.product_step
        productTail := ih.productTail_step
        unary := ih.unary_step
        power := ih.power_step
        primary := fun hk _ => ih.primary_step hk
        arguments := ih.arguments_step
        argumentsTail := ih.argumentsTail_step }

/-! ## §4. Places in a list of tokens. -/

/-- The cursor at a token of a list, with so many levels open. -/
def Cursor.place (ts : List Token) (i : Fin ts.length) (depth : Nat) : Cursor :=
  ⟨ts[i], ts.drop (i + 1), depth⟩

namespace Cursor

variable {ts : List Token} {i : Fin ts.length} {d : Nat}

theorem tokens_place : (place ts i d).tokens = ts.drop i :=
  (List.drop_eq_getElem_cons i.isLt).symm

theorem closed_place (h : EndsOnce ts) : (place ts i d).Closed := by
  obtain ⟨init, last, rfl, hlast, -⟩ := h
  intro t ht
  rw [tokens_place, List.getLast?_drop, if_neg (Nat.not_le.2 i.isLt)] at ht
  simp only [List.getLast?_append, List.getLast?_singleton, Option.some_or, Option.mem_some] at ht
  rw [← ht, hlast]

/-- From a place in a list the parser advances to a later one. -/
theorem exists_place {e : Cursor} (h : Advances (place ts i d) e) :
    ∃ j, i < j ∧ e = place ts j d := by
  obtain ⟨us, hus, he⟩ := h
  have htokens : ts.drop i = us ++ e.tokens := by
    rw [← tokens_place (d := d), he, tokens_rewind]
  have hrest : e.tokens = ts.drop (i + us.length) := by
    rw [← List.drop_drop, htokens, List.drop_left]
  have hlength := congrArg List.length hrest
  rw [tokens, List.length_cons, List.length_drop] at hlength
  have hpos : 0 < us.length := List.length_pos_iff.2 hus
  have hlt : i + us.length < ts.length := by omega
  refine ⟨⟨i + us.length, hlt⟩, ?_, ?_⟩
  · show i.val < i + us.length
    omega
  · have hdepth := congrArg depth he
    rw [depth_rewind] at hdepth
    rw [tokens, List.drop_eq_getElem_cons hlt] at hrest
    obtain ⟨hcurrent, hmore⟩ := List.cons.inj hrest
    obtain ⟨t, rest, n⟩ := e
    subst hcurrent hmore
    exact congrArg _ hdepth.symm

end Cursor

/-- What a function of the parser keeps, over a list of tokens, as its runs with a log show. -/
structure KeepsLevels {α : Type} (ts : List Token)
    (run : Nat → Cursor → Except SyntaxFault (α × Cursor))
    (logged : Nat → Cursor → Logged (α × Cursor)) : Prop where
  /-- The log is that of the function. -/
  agrees : ∀ fuel c, (logged fuel c).outcome = run fuel c
  /-- With eight calls for each token the run is the whole one: more fuel does not change it. -/
  whole : ∀ {fuel i d}, d ≤ maxNesting → fuelFor ts.length ≤ fuel →
    logged fuel (.place ts i d) = logged (fuelFor ts.length) (.place ts i d)
  /-- Whatever the run comes to, never more than one level too many is opened, and no more levels
  are closed than are open. -/
  counts : ∀ fuel i {d}, d ≤ maxNesting →
    ∃ n, Counts (maxNesting + 1) d (logged fuel (.place ts i d)).steps n
  /-- Where it succeeds, it has closed what it has opened and stands at a later token. -/
  returns : ∀ {fuel i d a e}, d ≤ maxNesting → run fuel (.place ts i d) = .ok (a, e) →
    Counts (maxNesting + 1) d (logged fuel (.place ts i d)).steps d
      ∧ ∃ j, i < j ∧ e = .place ts j d
  /-- It succeeds in the same way with fewer levels open. -/
  shallower : ∀ {fuel i j d d' a}, d ≤ maxNesting → d' ≤ d →
    run fuel (.place ts i d) = .ok (a, .place ts j d) →
    run fuel (.place ts i d') = .ok (a, .place ts j d')

/-- What a function keeps from cursor to cursor, it keeps from place to place. -/
theorem KeepsLevels.of_cursors {α : Type} {ts : List Token}
    {run : Nat → Cursor → Except SyntaxFault (α × Cursor)}
    {logged : Nat → Cursor → Logged (α × Cursor)} (h : EndsOnce ts)
    (hagrees : ∀ fuel c, (logged fuel c).outcome = run fuel c)
    (hsettles : ∀ fuel c, c.Closed → c.depth ≤ maxNesting → 8 * c.rest.length + 7 ≤ fuel →
      logged (fuel + 1) c = logged fuel c)
    (hkeeps : ∀ fuel c n, c.depth = n → n ≤ maxNesting →
      (logged fuel c).Keeps Logged.levelsBehind n n)
    (hadvances : ∀ fuel c a e, c.Closed → c.depth ≤ maxNesting → run fuel c = .ok (a, e) →
      Advances c e)
    (hrises : ∀ fuel c a e k, k ≤ c.depth → c.depth ≤ maxNesting → run fuel c = .ok (a, e) →
      run fuel (c.ascend k) = .ok (a, e.ascend k)) :
    KeepsLevels ts run logged where
  agrees := hagrees
  whole := by
    intro fuel i d hd hfuel
    induction hfuel with
    | refl => rfl
    | @step fuel hfuel ih =>
      rw [← ih]
      refine hsettles fuel _ (Cursor.closed_place h) hd ?_
      show 8 * (ts.drop (i + 1)).length + 7 ≤ fuel
      have hmore : 8 * ts.length + 8 ≤ fuel := hfuel
      rw [List.length_drop]
      omega
  counts fuel i d hd := (hkeeps fuel _ d rfl hd).counts
  returns := by
    intro fuel i d a e hd hrun
    obtain ⟨-, hcounts⟩ := (hkeeps fuel _ d rfl hd).returns (a, e) ((hagrees fuel _).trans hrun)
    exact ⟨hcounts, Cursor.exists_place (hadvances fuel _ a e (Cursor.closed_place h) hd hrun)⟩
  shallower := by
    intro fuel i j d d' a hd hd' hrun
    have hrise := hrises fuel _ a _ (d - d') (Nat.sub_le d d') hd hrun
    have hplace : ∀ l : Fin ts.length,
        (Cursor.place ts l d).ascend (d - d') = Cursor.place ts l d' := fun l =>
      congrArg (Cursor.mk ts[l] (ts.drop (l + 1))) (Nat.sub_sub_self hd')
    rwa [hplace, hplace] at hrise

/-- **The parser's count of levels.**  Over a list of tokens that ends with its only end token, from
each place and with at most 128 levels open, every function of the parser keeps the levels. -/
theorem parser_keepsLevels {ts : List Token} (h : EndsOnce ts) :
    KeepsLevels ts expression Logged.expression ∧ KeepsLevels ts product Logged.product
      ∧ KeepsLevels ts unary Logged.unary ∧ KeepsLevels ts power Logged.power
      ∧ KeepsLevels ts primary Logged.primary ∧ KeepsLevels ts arguments Logged.arguments := by
  refine ⟨?_, ?_, ?_, ?_, ?_, ?_⟩
  · exact .of_cursors h (fun f => (Logged.agrees f).expression)
      (fun f _ hc hd hf => (Logged.settles f).expression hc hd (by omega))
      (fun f _ _ => (Logged.balanced f).expression)
      (fun f _ _ _ => (advancing f).expression)
      (fun f _ _ _ _ => (rises f).expression)
  · exact .of_cursors h (fun f => (Logged.agrees f).product)
      (fun f _ hc hd hf => (Logged.settles f).product hc hd (by omega))
      (fun f _ _ => (Logged.balanced f).product)
      (fun f _ _ _ => (advancing f).product)
      (fun f _ _ _ _ => (rises f).product)
  · exact .of_cursors h (fun f => (Logged.agrees f).unary)
      (fun f _ hc hd hf => (Logged.settles f).unary hc hd (by omega))
      (fun f _ _ => (Logged.balanced f).unary)
      (fun f _ _ _ => (advancing f).unary)
      (fun f _ _ _ _ => (rises f).unary)
  · exact .of_cursors h (fun f => (Logged.agrees f).power)
      (fun f _ hc hd hf => (Logged.settles f).power hc hd (by omega))
      (fun f _ _ => (Logged.balanced f).power)
      (fun f _ _ _ => (advancing f).power)
      (fun f _ _ _ _ => (rises f).power)
  · exact .of_cursors h (fun f => (Logged.agrees f).primary)
      (fun f _ hc hd hf => (Logged.settles f).primary hc hd (by omega))
      (fun f _ _ => (Logged.balanced f).primary)
      (fun f _ _ _ => (advancing f).primary)
      (fun f _ _ _ _ => (rises f).primary)
  · exact .of_cursors h (fun f => (Logged.agrees f).arguments)
      (fun f _ hc hd hf => (Logged.settles f).arguments hc hd hf)
      (fun f _ _ => (Logged.balanced f).arguments)
      (fun f _ _ _ => (advancing f).arguments)
      (fun f _ _ _ _ => (rises f).arguments)

/-- The tokens of `(x)`. -/
def enclosedName : List Token :=
  [⟨.leftParen, 0, ['(']⟩, ⟨.name "x", 1, ['x']⟩, ⟨.rightParen, 2, [')']⟩, ⟨.finish, 3, []⟩]

/-- A pair of parentheses takes the last level, and the level is free again behind it. -/
theorem parser_keepsLevels_enclosedName :
    EndsOnce enclosedName
    ∧ expression 40 (.place enclosedName ⟨0, by decide⟩ 127)
        = .ok (.variable "x", .place enclosedName ⟨3, by decide⟩ 127)
    ∧ (Logged.expression 40 (.place enclosedName ⟨0, by decide⟩ 127)).steps
        = [.opening, .closing 0, .closing 0, .closing 1, .closing 0, .closing 0]
    ∧ KeepsLevels enclosedName expression Logged.expression
    ∧ KeepsLevels enclosedName product Logged.product
    ∧ KeepsLevels enclosedName unary Logged.unary ∧ KeepsLevels enclosedName power Logged.power
    ∧ KeepsLevels enclosedName primary Logged.primary
    ∧ KeepsLevels enclosedName arguments Logged.arguments := by
  have h : EndsOnce enclosedName := ⟨enclosedName.take 3, ⟨.finish, 3, []⟩, rfl, rfl, by decide⟩
  refine ⟨h, ?_, ?_, parser_keepsLevels h⟩
  · with_unfolding_all rfl
  · with_unfolding_all rfl

end ShapeEstimator.Formula
