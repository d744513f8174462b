/-
  ShapeEstimator.Proofs.Formula.ExactValue
  ────────────────────────────────
  **EXPRESSIONS WHOSE STEPS ARE ALL DECIMALS.**

  Beside the evaluation in decimals stands the exact one, in rationals, for numbers, variables,
  signs, the four basic operators and powers with whole exponents.  The two agree as long as every
  part of the expression has an exact value, and that value is a decimal:

      e.exactValue scope  =  some (value of e in decimals)

  Scales do not matter for this, neither those of literals nor those of variables.
-/
import ShapeEstimator.Proofs.Decimal.Exact
import ShapeEstimator.Proofs.Formula.Power

namespace ShapeEstimator.Formula

open Decimal (IsDecimal)

/-! ## §1. Exact values. -/

/-- The exact value of an operator.  A divisor must not be zero; an exponent is an integer from zero
on, of 63 bits. -/
def exactOperator : Operator → ℚ → ℚ → Option ℚ
  | .add, a, b => some (a + b)
  | .sub, a, b => some (a - b)
  | .mul, a, b => some (a * b)
  | .div, a, b => if b = 0 then none else some (a / b)
  | .pow, a, b =>
    if b.den = 1 ∧ 0 ≤ b.num ∧ b.num < 2 ^ 63 then some (a ^ b.num.toNat) else none
  | .rem, _, _ => none

/-- The exact value of a number with a sign before it. -/
def exactSign : Sign → ℚ → ℚ
  | .negative, a => -a
  | .positive, a => a

namespace Expr

/-- The exact value of an expression, as far as it is made of numbers, variables, signs, basic
operators and powers with whole exponents. -/
def exactValue (scope : Scope) : Expr → Option ℚ
  | .number v => some v.value
  | .constant _ => none
  | .variable name => (scope name).map Decimal.value
  | .unary sign operand => (operand.exactValue scope).map (exactSign sign)
  | .binary op left right =>
    (left.exactValue scope).bind fun a => (right.exactValue scope).bind fun b => exactOperator op a b
  | .call _ _ => none

mutual

/-- All parts of an expression, itself first. -/
def parts : Expr → List Expr
  | .number v => [.number v]
  | .constant c => [.constant c]
  | .variable name => [.variable name]
  | .unary sign operand => .unary sign operand :: operand.parts
  | .binary op left right => .binary op left right :: (left.parts ++ right.parts)
  | .call f arguments => .call f arguments :: partsOfAll arguments

/-- All parts of a list of expressions. -/
def partsOfAll : List Expr → List Expr
  | [] => []
  | x :: xs => x.parts ++ partsOfAll xs

end

theorem mem_parts_self (e : Expr) : e ∈ e.parts := by
  cases e <;> exact List.mem_cons_self

/-- Every part of an expression has an exact value, and it is a decimal. -/
def IsExact (scope : Scope) (e : Expr) : Prop :=
  ∀ x ∈ e.parts, ∃ q, x.exactValue scope = some q ∧ IsDecimal q

section IsExact

variable {scope : Scope} {sign : Sign} {op : Operator} {x l r : Expr}

theorem IsExact.operand (h : (Expr.unary sign x).IsExact scope) : x.IsExact scope :=
  fun y hy => h y (List.mem_cons_of_mem _ hy)

theorem IsExact.left (h : (Expr.binary op l r).IsExact scope) : l.IsExact scope :=
  fun y hy => h y (List.mem_cons_of_mem _ (List.mem_append_left _ hy))

theorem IsExact.right (h : (Expr.binary op l r).IsExact scope) : r.IsExact scope :=
  fun y hy => h y (List.mem_cons_of_mem _ (List.mem_append_right _ hy))

end IsExact

end Expr

/-! ## §2. Operators. -/

section Operators

variable {x y : Decimal} {q : ℚ}

theorem orOverflow_exact (op : Operator) {o : Option Decimal} (h : Decimal.Rounds o q)
    (hq : IsDecimal q) : ∃ v, orOverflow op o = .ok v ∧ v.value = q := by
  obtain ⟨v, rfl, hv⟩ := h.exact hq
  exact ⟨v, rfl, hv⟩

/-- A power with a whole exponent that is a decimal. -/
theorem raise_exact (h : exactOperator .pow x.value y.value = some q) (hq : IsDecimal q) :
    ∃ v, raise x y = .ok v ∧ v.value = q := by
  unfold exactOperator at h
  dsimp only at h
  split at h
  · rename_i hwhole
    obtain ⟨hden, hpos, hbits⟩ := hwhole
    cases h
    have hexponent : y.value = (y.value.num : ℤ) := (Rat.den_eq_one_iff _).1 hden |>.symm
    have hin : InInt64 y.value.num := ⟨by omega, hbits⟩
    obtain ⟨v, hv, hvalue⟩ := Decimal.powNat_exact hq
    refine ⟨v, ?_, hvalue⟩
    rw [raise_of_integer hexponent (fun hneg => absurd hneg (not_lt.2 hpos)), if_pos hin]
    have hnat : y.value.num = (y.value.num.toNat : ℤ) := (Int.toNat_of_nonneg hpos).symm
    rw [hnat, Decimal.powInt_natCast, hv]
    rfl
  · exact nomatch h

/-- **An operator is exact where its exact value is a decimal.** -/
theorem applyOperator_exact {op : Operator} (h : exactOperator op x.value y.value = some q)
    (hq : IsDecimal q) : ∃ v, applyOperator op x y = .ok v ∧ v.value = q := by
  cases op with
  | add =>
    cases h
    exact orOverflow_exact .add (Decimal.add_rounds x y) hq
  | sub =>
    cases h
    exact orOverflow_exact .sub (Decimal.sub_rounds x y) hq
  | mul =>
    cases h
    exact orOverflow_exact .mul (Decimal.mul_rounds x y) hq
  | div =>
    unfold exactOperator at h
    dsimp only at h
    split at h
    · exact nomatch h
    · rename_i hy
      cases h
      have hzero : y.isZero = false := by
        rw [← Bool.not_eq_true, ← Decimal.value_eq_zero_iff]
        exact hy
      obtain ⟨v, hv, hvalue⟩ := orOverflow_exact .div (Decimal.div_rounds x hzero) hq
      refine ⟨v, ?_, hvalue⟩
      unfold applyOperator
      rw [hzero]
      exact hv
  | rem => exact nomatch h
  | pow => exact raise_exact h hq

theorem applySign_value (sign : Sign) (x : Decimal) :
    (applySign sign x).value = exactSign sign x.value := by
  cases sign with
  | negative => exact Decimal.value_neg x
  | positive => rfl

end Operators

/-! ## §3. Expressions. -/

/-- **Exact expressions.**  An expression all of whose parts have an exact value that is a decimal
has this value in decimals. -/
theorem evaluate_exact (lib : DoubleFunctions) {scope : Scope} :
    ∀ e : Expr, e.IsExact scope →
      ∃ v, e.evaluateWith lib scope = .ok v ∧ e.exactValue scope = some v.value
  | .number v, _ => ⟨v, rfl, rfl⟩
  | .constant c, h => by
    obtain ⟨q, hq, -⟩ := h _ (Expr.mem_parts_self _)
    exact nomatch hq
  | .variable name, h => by
    obtain ⟨q, hq, -⟩ := h _ (Expr.mem_parts_self _)
    obtain ⟨v, hv, -⟩ := Option.map_eq_some_iff.1 hq
    exact ⟨v, by rw [Expr.evaluateWith, hv], by rw [Expr.exactValue, hv]; rfl⟩
  | .unary sign operand, h => by
    obtain ⟨v, hv, hexact⟩ := evaluate_exact lib operand h.operand
    refine ⟨applySign sign v, ?_, ?_⟩
    · rw [Expr.evaluateWith, hv]
      rfl
    · rw [Expr.exactValue, hexact, applySign_value]
      rfl
  | .binary op left right, h => by
    obtain ⟨q, hq, hdecimal⟩ := h _ (Expr.mem_parts_self _)
    obtain ⟨x, hx, hleft⟩ := evaluate_exact lib left h.left
    obtain ⟨y, hy, hright⟩ := evaluate_exact lib right h.right
    -- the exact value of the whole is that of the operator at the values of the operands
    have hoperator : exactOperator op x.value y.value = some q := by
      rw [Expr.exactValue, hleft, hright] at hq
      exact hq
    obtain ⟨v, hv, hvalue⟩ := applyOperator_exact hoperator hdecimal
    refine ⟨v, ?_, by rw [hq, hvalue]⟩
    rw [Expr.evaluateWith, hx, hy]
    exact hv
  | .call f arguments, h => by
    obtain ⟨q, hq, -⟩ := h _ (Expr.mem_parts_self _)
    exact nomatch hq

/-- The literal `0.0500`. -/
def twentieth : Decimal := { negative := false, coefficient := 500, scale := 4 }

/-- The number `-1.0`. -/
def minusOne : Decimal where
  negative := true
  coefficient := 10
  scale := 1
  coefficient_lt := Decimal.ten.coefficient_lt
  scale_le := Decimal.one_le_maxScale

/-- A whole exponent that is high enough for wide products. -/
def highExponent : Decimal where
  negative := false
  coefficient := 2049
  scale := 0
  scale_le := Decimal.zero_le_maxScale

/-- The power `x ^ 2049`. -/
def highPower : Expr := .binary .pow (.variable "x") (.number highExponent)

/-- The expression `-x ^ 2049 / 0.0500`. -/
def highQuotient : Expr := .binary .div (.unary .negative highPower) (.number twentieth)

/-- A high power of minus one, which is written with a place, over a twentieth. -/
theorem highQuotient_exact :
    highQuotient.IsExact (fun _ => some minusOne)
      ∧ ∃ v, highQuotient.evaluate (fun _ => some minusOne) = .ok v ∧ v.value = 20 := by
  have hbase : minusOne.value = -1 := by
    norm_num [minusOne, Decimal.value, Decimal.size, Decimal.signed]
  have hdivisor : twentieth.value = 1 / 20 := by
    norm_num [twentieth, Decimal.value, Decimal.size, Decimal.signed]
  have hexponent : highExponent.value = 2049 := by
    norm_num [highExponent, Decimal.value, Decimal.size, Decimal.signed]
  have hodd : (-1 : ℚ) ^ Int.toNat 2049 = -1 := Odd.neg_one_pow ⟨1024, rfl⟩
  have hpower : highPower.exactValue (fun _ => some minusOne) = some (-1) := by
    norm_num [highPower, Expr.exactValue, exactOperator, hbase, hexponent, hodd]
  have hquotient : highQuotient.exactValue (fun _ => some minusOne) = some 20 := by
    norm_num [highQuotient, Expr.exactValue, hpower, exactSign, exactOperator, hdivisor]
  have hone : IsDecimal 1 := Decimal.value_one ▸ Decimal.isDecimal_value Decimal.one
  have hexact : highQuotient.IsExact (fun _ => some minusOne) := by
    intro part hpart
    simp only [highQuotient, highPower, Expr.parts, List.mem_cons, List.cons_append, List.nil_append,
      List.not_mem_nil, or_false] at hpart
    rcases hpart with rfl | rfl | rfl | rfl | rfl | rfl
    · exact ⟨20, hquotient, 20, 0, by norm_num, by norm_num, by norm_num⟩
    · exact ⟨1, by rw [Expr.exactValue, ← highPower, hpower]; norm_num [exactSign], hone⟩
    · exact ⟨-1, hpower, hbase ▸ Decimal.isDecimal_value minusOne⟩
    · exact ⟨_, rfl, Decimal.isDecimal_value minusOne⟩
    · exact ⟨_, rfl, Decimal.isDecimal_value highExponent⟩
    · exact ⟨_, rfl, Decimal.isDecimal_value twentieth⟩
  obtain ⟨v, hv, hvalue⟩ := evaluate_exact .system highQuotient hexact
  refine ⟨hexact, v, hv, ?_⟩
  rw [hquotient] at hvalue
  exact (Option.some_inj.1 hvalue).symm

end ShapeEstimator.Formula
