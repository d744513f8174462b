/-
  ShapeEstimator.Proofs.Formula.Ranges
  ────────────────────────────────
  **EXPRESSIONS THAT HAVE A VALUE, AND WHERE IT IS.**

  From ranges of the variables, expressions that are known to be positive, and roots
  that are known to exist, an analysis finds an integer range for an expression.
  Ranges alone do not show that a difference is not negative, or a quotient not more
  than one; for that the analysis asks a comparison of expressions.

  The analysis is sound if the comparison is: what it finds a range for has a value,
  and in that range.
-/
import Mathlib.Analysis.SpecialFunctions.Trigonometric.Basic
import ShapeEstimator.Formula.Value
import ShapeEstimator.Proofs.Decimal.Double
import ShapeEstimator.Proofs.Decimal.Range
import ShapeEstimator.Proofs.Formula.ParserStep

namespace ShapeEstimator.Formula

open Decimal (Range rounded)

/-! ## §1. Equal expressions. -/

namespace Expr

mutual

/-- Whether two expressions are the same tree. -/
def same : Expr → Expr → Bool
  | .number v, .number w => decide (v = w)
  | .constant c, .constant d => decide (c = d)
  | .variable a, .variable b => decide (a = b)
  | .unary s x, .unary t y => decide (s = t) && x.same y
  | .binary o l r, .binary p m s => decide (o = p) && l.same m && r.same s
  | .call f xs, .call g ys => decide (f = g) && sameAll xs ys
  | _, _ => false

/-- Whether two lists of expressions are the same, tree by tree. -/
def sameAll : List Expr → List Expr → Bool
  | [], [] => true
  | x :: xs, y :: ys => x.same y && sameAll xs ys
  | _, _ => false

end

mutual

theorem eq_of_same : ∀ {x y : Expr}, x.same y = true → x = y
  | .number v, .number w, h => by
    rw [of_decide_eq_true h]
  | .constant c, .constant d, h => by
    rw [of_decide_eq_true h]
  | .variable a, .variable b, h => by
    rw [of_decide_eq_true h]
  | .unary s x, .unary t y, h => by
    obtain ⟨hs, hx⟩ := Bool.and_eq_true_iff.1 h
    rw [of_decide_eq_true hs, eq_of_same hx]
  | .binary o l r, .binary p m s, h => by
    obtain ⟨hol, hr⟩ := Bool.and_eq_true_iff.1 h
    obtain ⟨ho, hl⟩ := Bool.and_eq_true_iff.1 hol
    rw [of_decide_eq_true ho, eq_of_same hl, eq_of_same hr]
  | .call f xs, .call g ys, h => by
    obtain ⟨hf, hxs⟩ := Bool.and_eq_true_iff.1 h
    rw [of_decide_eq_true hf, eq_of_sameAll hxs]

theorem eq_of_sameAll : ∀ {xs ys : List Expr}, sameAll xs ys = true → xs = ys
  | [], [], _ => rfl
  | x :: xs, y :: ys, h => by
    obtain ⟨hx, hxs⟩ := Bool.and_eq_true_iff.1 h
    rw [eq_of_same hx, eq_of_sameAll hxs]

end

end Expr

/-- A text whose tree is that of an expression is read as the expression. -/
theorem parse_eq_ok {text : String} {e : Expr}
    (h : (parse text).toOption.any (fun tree => tree.same e) = true) : parse text = .ok e := by
  cases hread : parse text with
  | ok tree =>
    rw [hread] at h
    rw [Expr.eq_of_same h]
  | error fault =>
    rw [hread] at h
    cases h

/-! ## §2. Values of operators. -/

section Values

variable {lib : DoubleFunctions} {scope : Scope} {op : Operator} {l r : Expr} {x y v : Decimal}

theorem evaluateWith_binary_eq_ok :
    (Expr.binary op l r).evaluateWith lib scope = .ok v ↔
      ∃ x, l.evaluateWith lib scope = .ok x ∧ ∃ y, r.evaluateWith lib scope = .ok y
        ∧ applyOperator op x y = .ok v := by
  rw [Expr.evaluateWith, bind_eq_ok]
  simp only [bind_eq_ok]

theorem orOverflow_eq_ok {o : Option Decimal} (h : orOverflow op o = .ok v) : o = some v := by
  unfold orOverflow at h
  split at h
  · cases h
    rfl
  · exact nomatch h

theorem add_value (h : applyOperator .add x y = .ok v) : v.value = rounded (x.value + y.value) :=
  (Decimal.add_rounds x y).value_eq v (orOverflow_eq_ok h)

theorem sub_value (h : applyOperator .sub x y = .ok v) : v.value = rounded (x.value - y.value) :=
  (Decimal.sub_rounds x y).value_eq v (orOverflow_eq_ok h)

theorem mul_value (h : applyOperator .mul x y = .ok v) : v.value = rounded (x.value * y.value) :=
  (Decimal.mul_rounds x y).value_eq v (orOverflow_eq_ok h)

theorem div_value (h : applyOperator .div x y = .ok v) : v.value = rounded (x.value / y.value) := by
  unfold applyOperator at h
  dsimp only at h
  split at h
  · exact nomatch h
  · rename_i hy
    exact (Decimal.div_rounds x (Bool.eq_false_iff.2 hy)).value_eq v (orOverflow_eq_ok h)

end Values

/-- The exponent of a square or a cube. -/
def Expr.exponent? : Expr → Option ℕ
  | .number v => if v = Decimal.two then some 2 else if v = Decimal.three then some 3 else none
  | _ => none

theorem raise_two (x : Decimal) {z : Decimal} (h : x.powNat 2 = some z) :
    raise x Decimal.two = .ok z := by
  have hexponent : Decimal.two.toInt64? = some 2 := by decide
  have hfraction : Decimal.two.hasFraction = false := by decide
  simp [raise, hexponent, hfraction, show Decimal.two.negative = false from rfl, Decimal.powInt, h]

theorem raise_three (x : Decimal) {z : Decimal} (h : x.powNat 3 = some z) :
    raise x Decimal.three = .ok z := by
  have hexponent : Decimal.three.toInt64? = some 3 := by decide
  have hfraction : Decimal.three.hasFraction = false := by decide
  simp [raise, hexponent, hfraction, show Decimal.three.negative = false from rfl, Decimal.powInt,
    h]

theorem raise_exponent {lib : DoubleFunctions} {scope : Scope} {e : Expr} {n : ℕ}
    {x y z : Decimal} (he : e.exponent? = some n) (hy : e.evaluateWith lib scope = .ok y)
    (h : x.powNat n = some z) : raise x y = .ok z := by
  unfold Expr.exponent? at he
  split at he
  · rename_i v
    rw [Expr.evaluateWith] at hy
    cases hy
    split at he
    · rename_i hv
      cases he
      exact hv ▸ raise_two x h
    · split at he
      · rename_i hv
        cases he
        exact hv ▸ raise_three x h
      · exact nomatch he
  · exact nomatch he

/-! ## §3. What is known. -/

/-- What is known about the values of expressions. -/
structure Knowledge where
  /-- The ranges of variables. -/
  ranges : List (String × Range)
  /-- Expressions that are positive. -/
  positive : List Expr
  /-- Square roots that exist. -/
  roots : List Expr

/-- The inverse tangent of a finite double is finite, and at most a quarter turn either way. -/
def DoubleFunctions.AtanWithin (lib : DoubleFunctions) : Prop :=
  ∀ x : Float, x.isFinite = true → (lib.atan x).isFinite = true
    ∧ ∀ q, Binary64.value? (lib.atan x) = some q → |(q : ℝ)| ≤ Real.pi / 2

/-- What is known is true. -/
structure Knowledge.Holds (k : Knowledge) (lib : DoubleFunctions) (scope : Scope) : Prop where
  /-- The variables are in their ranges. -/
  ranges : ∀ name r, k.ranges.lookup name = some r →
    ∃ x, scope name = some x ∧ r.Contains x.value
  /-- The positive expressions are positive. -/
  positive : ∀ e ∈ k.positive, ∃ v, e.evaluateWith lib scope = .ok v ∧ 0 < v.value
  /-- The roots have a value. -/
  roots : ∀ e ∈ k.roots, ∃ v, e.evaluateWith lib scope = .ok v

/-! ## §4. Ranges. -/

namespace Knowledge

/-- Whether one expression is found to be at most the other. -/
abbrev Order : Type := Expr → Expr → Bool

/-- The range of an operator between operands in given ranges. -/
def rangeOfOperator (le : Order) (op : Operator) (l r : Expr) (a b : Range) : Option Range :=
  match op with
  | .add => a.add b
  | .sub => a.sub (le r l) b
  | .mul => a.mul b
  | .div => a.div (le l r) b
  | .rem => none
  | .pow => r.exponent?.bind fun n => a.pow n

/-- The range of a function of arguments in given ranges. -/
def rangeOfFunction (k : Knowledge) (f : Function) (arguments : List Expr) (as : List Range) :
    Option Range :=
  match f, as with
  | .sqrt, [a] => if k.roots.any (Expr.same (.call .sqrt arguments)) then a.root else none
  | .atan, [_] => some ⟨-2, 2⟩
  | .rad2deg, [a] => a.degrees
  | _, _ => none

mutual

/-- The range of an expression, where one is found. -/
def range (k : Knowledge) (le : Order) : Expr → Option Range
  | .number v => some (.ofDecimal v)
  | .constant c => some (.ofDecimal c.value)
  | .variable name => k.ranges.lookup name
  | .unary _ _ => none
  | .binary op l r =>
    (k.range le l).bind fun a => (k.range le r).bind fun b => rangeOfOperator le op l r a b
  | .call f arguments => (k.rangeOfAll le arguments).bind (k.rangeOfFunction f arguments)

/-- The ranges of a list of expressions, where they all are found. -/
def rangeOfAll (k : Knowledge) (le : Order) : List Expr → Option (List Range)
  | [] => some []
  | x :: xs => (k.range le x).bind fun a => (k.rangeOfAll le xs).map fun as => a :: as

end

/-- One expression is at most the other, where both have a value. -/
def Below (lib : DoubleFunctions) (scope : Scope) (x y : Expr) : Prop :=
  ∀ a b, x.evaluateWith lib scope = .ok a → y.evaluateWith lib scope = .ok b → a.value ≤ b.value

/-- A comparison finds only what is so. -/
def Sound (lib : DoubleFunctions) (scope : Scope) (le : Order) : Prop :=
  ∀ x y, le x y = true → Below lib scope x y

section Soundness

variable {k : Knowledge} {lib : DoubleFunctions} {scope : Scope} {le : Order}

/-- An operator between operands in their ranges has a value in its range. -/
theorem rangeOfOperator_sound (hle : Sound lib scope le) {op : Operator} {l r : Expr}
    {a b t : Range} {x y : Decimal} (ht : rangeOfOperator le op l r a b = some t)
    (hl : l.evaluateWith lib scope = .ok x) (ha : a.Contains x.value)
    (hr : r.evaluateWith lib scope = .ok y) (hb : b.Contains y.value) :
    ∃ v, applyOperator op x y = .ok v ∧ t.Contains v.value := by
  cases op with
  | add =>
    obtain ⟨z, hz, hcontains⟩ := Range.add_contains ht ha hb
    exact ⟨z, by rw [applyOperator, hz]; rfl, hcontains⟩
  | sub =>
    obtain ⟨z, hz, hcontains⟩ := Range.sub_contains ht ha hb fun h => hle r l h y x hr hl
    exact ⟨z, by rw [applyOperator, hz]; rfl, hcontains⟩
  | mul =>
    obtain ⟨z, hz, hcontains⟩ := Range.mul_contains ht ha hb
    exact ⟨z, by rw [applyOperator, hz]; rfl, hcontains⟩
  | div =>
    obtain ⟨hzero, z, hz, hcontains⟩ := Range.div_contains ht ha hb fun h => hle l r h x y hl hr
    refine ⟨z, ?_, hcontains⟩
    rw [applyOperator, hzero, hz]
    rfl
  | rem => exact nomatch ht
  | pow =>
    obtain ⟨n, hn, ht⟩ := Option.bind_eq_some_iff.1 ht
    obtain ⟨z, hz, _, hcontains⟩ := Range.pow_contains ht ha
    exact ⟨z, raise_exponent hn hr hz, hcontains⟩

/-- The inverse tangent of a decimal is a decimal, and at most two in size. -/
theorem atan_bounds (hatan : lib.AtanWithin) (x : Decimal) :
    ∃ v, throughDouble .atan lib.atan x = .ok v ∧ |v.value| ≤ 2 := by
  obtain ⟨hfinite, hwithin⟩ := hatan x.lower x.isFinite_lower
  obtain ⟨m, hm⟩ := Binary64.exists_magnitude? hfinite
  obtain ⟨q, hq⟩ : ∃ q, Binary64.value? (lib.atan x.lower) = some q :=
    ⟨_, by rw [Binary64.value?, hm]; rfl⟩
  have hsize : |q| ≤ (2 : ℕ) := by
    have hreal : |(q : ℝ)| ≤ 2 := by linarith [hwithin q hq, Real.pi_le_four]
    exact_mod_cast hreal
  obtain ⟨v, hv, hbound⟩ := Decimal.lift?_bounds (by norm_num) hq hsize
  refine ⟨v, ?_, by exact_mod_cast hbound⟩
  unfold throughDouble
  dsimp only
  rw [if_pos hfinite, hv]
  rfl

/-- A function of arguments in their ranges has a value in its range. -/
theorem rangeOfFunction_sound (hk : k.Holds lib scope) (hatan : lib.AtanWithin) {f : Function}
    {arguments : List Expr} {as : List Range} {xs : List Decimal} {t : Range}
    (ht : k.rangeOfFunction f arguments as = some t)
    (hxs : Expr.evaluateAllWith lib scope arguments = .ok xs)
    (has : List.Forall₂ (fun (a : Range) (x : Decimal) => a.Contains x.value) as xs) :
    ∃ v, applyFunction lib f xs = .ok v ∧ t.Contains v.value := by
  unfold rangeOfFunction at ht
  split at ht
  · obtain ⟨x, _, ha, hnil, rfl⟩ := List.forall₂_cons_left_iff.1 has
    obtain rfl := List.forall₂_nil_left_iff.1 hnil
    split at ht
    · rename_i hknown
      obtain ⟨root, hmem, hsame⟩ := List.any_eq_true.1 hknown
      obtain ⟨v, hv⟩ := hk.roots root hmem
      rw [← Expr.eq_of_same hsame, Expr.evaluateWith, hxs] at hv
      refine ⟨v, hv, Range.root_contains ht ha ?_⟩
      change squareRoot x = .ok v at hv
      unfold squareRoot at hv
      split at hv
      · rename_i hroot
        cases hv
        exact hroot
      · exact nomatch hv
      · exact nomatch hv
    · exact nomatch ht
  · cases ht
    obtain ⟨x, _, -, hnil, rfl⟩ := List.forall₂_cons_left_iff.1 has
    obtain rfl := List.forall₂_nil_left_iff.1 hnil
    obtain ⟨v, hv, hbound⟩ := atan_bounds hatan x
    obtain ⟨hlow, hhigh⟩ := abs_le.1 hbound
    exact ⟨v, hv, ⟨by exact_mod_cast hlow, by exact_mod_cast hhigh⟩⟩
  · obtain ⟨x, _, ha, hnil, rfl⟩ := List.forall₂_cons_left_iff.1 has
    obtain rfl := List.forall₂_nil_left_iff.1 hnil
    obtain ⟨z, hz, hcontains⟩ := Range.degrees_contains ht ha
    refine ⟨z, ?_, hcontains⟩
    show orOverflow .mul _ = _
    rw [hz]
    rfl
  · exact nomatch ht

mutual

/-- **What a range is found for has a value in that range.** -/
theorem range_sound (hk : k.Holds lib scope) (hatan : lib.AtanWithin) (hle : Sound lib scope le) :
    ∀ (e : Expr) {t : Range}, k.range le e = some t →
      ∃ v, e.evaluateWith lib scope = .ok v ∧ t.Contains v.value
  | .number v, t, ht => by
    cases ht
    exact ⟨v, by rw [Expr.evaluateWith], Range.ofDecimal_contains v⟩
  | .constant c, t, ht => by
    cases ht
    exact ⟨c.value, by rw [Expr.evaluateWith], Range.ofDecimal_contains _⟩
  | .variable name, t, ht => by
    obtain ⟨x, hx, hcontains⟩ := hk.ranges name t ht
    exact ⟨x, by rw [Expr.evaluateWith, hx], hcontains⟩
  | .binary op l r, t, ht => by
    -- the analysis reads the operands in the order in which they are evaluated
    obtain ⟨a, ha, ht⟩ := Option.bind_eq_some_iff.1 ht
    obtain ⟨b, hb, ht⟩ := Option.bind_eq_some_iff.1 ht
    obtain ⟨x, hx, hxa⟩ := range_sound hk hatan hle l ha
    obtain ⟨y, hy, hyb⟩ := range_sound hk hatan hle r hb
    obtain ⟨v, hv, hcontains⟩ := rangeOfOperator_sound hle ht hx hxa hy hyb
    exact ⟨v, evaluateWith_binary_eq_ok.2 ⟨x, hx, y, hy, hv⟩, hcontains⟩
  | .call f arguments, t, ht => by
    obtain ⟨as, has, ht⟩ := Option.bind_eq_some_iff.1 ht
    obtain ⟨xs, hxs, hall⟩ := rangeOfAll_sound hk hatan hle arguments has
    obtain ⟨v, hv, hcontains⟩ := rangeOfFunction_sound hk hatan ht hxs hall
    exact ⟨v, by rw [Expr.evaluateWith, hxs]; exact hv, hcontains⟩

theorem rangeOfAll_sound (hk : k.Holds lib scope) (hatan : lib.AtanWithin)
    (hle : Sound lib scope le) :
    ∀ (es : List Expr) {ts : List Range}, k.rangeOfAll le es = some ts →
      ∃ vs, Expr.evaluateAllWith lib scope es = .ok vs
        ∧ List.Forall₂ (fun (a : Range) (x : Decimal) => a.Contains x.value) ts vs
  | [], ts, hts => by
    cases hts
    exact ⟨[], by rw [Expr.evaluateAllWith], .nil⟩
  | e :: es, ts, hts => by
    obtain ⟨a, ha, hts⟩ := Option.bind_eq_some_iff.1 hts
    obtain ⟨as, has, rfl⟩ := Option.map_eq_some_iff.1 hts
    obtain ⟨v, hv, hcontains⟩ := range_sound hk hatan hle e ha
    obtain ⟨vs, hvs, hall⟩ := rangeOfAll_sound hk hatan hle es has
    exact ⟨v :: vs, by rw [Expr.evaluateAllWith, hv, hvs]; rfl, .cons hcontains hall⟩

end

end Soundness

end Knowledge

end ShapeEstimator.Formula
