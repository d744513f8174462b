/-
  ShapeEstimator.Proofs.Formula.RoundTrip
  ────────────────────────────────
  **A VARIABLE HAS THE VALUE IT IS BOUND TO, ALMOST.**

  A formula that is a single variable computes nothing.  What it returns is the double
  that the variable is bound to, once through decimal and back:

      "x" with x = v   →   lower (lift v)

  For doubles of moderate size there is always a result.  It is the double itself where
  its digits survive both ways, and elsewhere it is off by four parts in `10 ^ 15` at
  most.
-/
import ShapeEstimator.Proofs.Decimal.RoundTrip
import ShapeEstimator.Proofs.Formula.Ranges
import ShapeEstimator.Proofs.Formula.Variables

namespace ShapeEstimator.Formula

open Binary64 (Magnitude magnitude? signBit value?)
open Decimal (ComesBack signed)

/-! ## §1. Formulas of a single variable. -/

namespace Compiled

variable {source name : String} {values : Bindings} {v : Float} {w : Decimal}

/-- Nothing is wrong with a finite double that has a decimal. -/
theorem bindingFailure?_eq_none (hv : values name = some v) (hfinite : v.isFinite = true)
    (hlift : Decimal.lift? v = some w) : bindingFailure? values name = none := by
  unfold bindingFailure?
  rw [hv]
  dsimp only
  rw [hfinite, hlift]
  rfl

/-- **A variable alone** is lifted and lowered. -/
theorem evaluate_of_lift? (hv : values name = some v) (hfinite : v.isFinite = true)
    (hlift : Decimal.lift? v = some w) :
    (⟨source, .variable name⟩ : Compiled).evaluate values = .ok w.lower := by
  have hfree : (⟨source, .variable name⟩ : Compiled).freeVariables = [name] := rfl
  have hscope : scope values name = some w := by
    unfold scope
    rw [hv, Option.bind_some, hlift]
  have hvalue : (Expr.variable name).evaluate (scope values) = .ok w := by
    unfold Expr.evaluate Expr.evaluateWith
    rw [hscope]
  unfold evaluate
  rw [hfree, List.findSome?_cons, bindingFailure?_eq_none hv hfinite hlift, List.findSome?_nil]
  dsimp only
  rw [hvalue]

end Compiled

/-! ## §2. The value of a variable. -/

theorem abs_signed_sub (negative : Bool) (p q : ℚ) :
    |signed negative p - signed negative q| = |p - q| := by
  cases negative with
  | false => rfl
  | true =>
    show |-p - -q| = |p - q|
    rw [neg_sub_neg, abs_sub_comm]

/-- **A variable alone has its value.**  A formula that is one variable, bound to a double of moderate
size, has a result.  The result is off by little, and doubles that come back from decimal are returned
as they are. -/
theorem evaluate_variable {source name : String} {values : Bindings} {v : Float} {q : ℚ}
    (hread : parse source = .ok (.variable name)) (hv : values name = some v)
    (hq : value? v = some q) (hlow : 1 / 10 ^ 10 ≤ |q|) (hhigh : |q| < 7 * 10 ^ 28) :
    ∃ c r, Compiled.ofSource source = .ok c ∧ c.evaluate values = .ok r
      ∧ (∃ p, value? r = some p ∧ |p - q| ≤ 4 / 10 ^ 15 * |q|)
      ∧ (ComesBack v → r = v) := by
  obtain ⟨m, hm, -⟩ := Option.map_eq_some_iff.1 hq
  have hsize : |q| = m.value := Magnitude.abs_value?_of_magnitude? hm hq
  have hsigned : q = signed (signBit v) m.value :=
    Option.some.inj (hq.symm.trans (Magnitude.value?_of_magnitude? hm))
  rw [hsize] at hlow hhigh
  have hroom : m.value < 2 ^ 96 - 1 := hhigh.trans (by norm_num)
  obtain ⟨w, hlift, ⟨p, hp, herror⟩, hback⟩ := Decimal.exists_lift_lower hm hlow hroom
  refine ⟨_, w.lower, Compiled.ofSource_eq_ok hread,
    Compiled.evaluate_of_lift? hv (Binary64.isFinite_of_magnitude? hm) hlift,
    ⟨_, hp, ?_⟩, hback⟩
  rw [hsize, hsigned, abs_signed_sub]
  exact herror

/-- The value of a double of moderate size. -/
theorem exists_value?_of_magnitude? {v : Float} {m : Magnitude} (hm : magnitude? v = some m)
    (hlow : 1 / 10 ^ 10 ≤ m.value) (hhigh : m.value < 7 * 10 ^ 28) :
    ∃ q, value? v = some q ∧ 1 / 10 ^ 10 ≤ |q| ∧ |q| < 7 * 10 ^ 28 := by
  have hq := Magnitude.value?_of_magnitude? hm
  have hsize := Magnitude.abs_value?_of_magnitude? hm hq
  exact ⟨_, hq, hsize.symm ▸ hlow, hsize.symm ▸ hhigh⟩

/-- A tenth, which no double is exactly, is returned as it is bound. -/
theorem evaluate_variable_tenth :
    parse "x" = .ok (.variable "x")
      ∧ ∃ c, Compiled.ofSource "x" = .ok c ∧ c.evaluate (fun _ => some 0.1) = .ok 0.1 := by
  have hread : parse "x" = .ok (.variable "x") := parse_eq_ok (by decide +kernel)
  have hm : magnitude? 0.1 = some ⟨7205759403792794, -56⟩ := by decide +kernel
  obtain ⟨q, hq, hlow, hhigh⟩ := exists_value?_of_magnitude? hm
    (by norm_num [Magnitude.value]) (by norm_num [Magnitude.value])
  obtain ⟨c, r, hc, hr, -, hback⟩ :=
    @evaluate_variable "x" "x" (fun _ => some 0.1) 0.1 q hread rfl hq hlow hhigh
  have hnearest : (0.1 : Float) = Binary64.ofDecimal false 1 (-1) := by decide +kernel
  rw [hback (.sixDigits (by norm_num) hnearest)] at hr
  exact ⟨hread, c, hc, hr⟩

/-- Seven digits can be too many: for `4096.029` the result is `4096.029000000002`. -/
theorem not_evaluate_variable_exact :
    ¬ ∀ (source name : String) (values : Bindings) (v : Float) (q : ℚ),
      parse source = .ok (.variable name) → values name = some v → value? v = some q →
      1 / 10 ^ 10 ≤ |q| → |q| < 7 * 10 ^ 28 →
      ∃ c, Compiled.ofSource source = .ok c ∧ c.evaluate values = .ok v := by
  intro h
  have hread : parse "x" = .ok (.variable "x") := parse_eq_ok (by decide +kernel)
  have hm : magnitude? 4096.029 = some ⟨4503631513207702, -40⟩ := by decide +kernel
  obtain ⟨q, hq, hlow, hhigh⟩ := exists_value?_of_magnitude? hm
    (by norm_num [Magnitude.value]) (by norm_num [Magnitude.value])
  obtain ⟨c, hc, hsame⟩ := h "x" "x" (fun _ => some 4096.029) 4096.029 q hread rfl hq hlow hhigh
  have hfar : (Decimal.lift? 4096.029).map Decimal.lower = some 4096.029000000002 := by
    decide +kernel
  obtain ⟨w, hlift, hlower⟩ := Option.map_eq_some_iff.1 hfar
  rw [Compiled.ofSource_eq_ok hread] at hc
  cases hc
  rw [Compiled.evaluate_of_lift? rfl (Binary64.isFinite_of_magnitude? hm) hlift, hlower] at hsame
  exact absurd (Except.ok.inj hsame) (by decide)

end ShapeEstimator.Formula
