/-
  ShapeEstimator.Proofs.Formula.Comparisons
  ────────────────────────────────
  **EXPRESSIONS IN ORDER.**

  One expression is found to be at most another by rules that rounding respects:

      l - r ≤ y            for  0 ≤ r  and  l ≤ y
      a * b ≤ c * d        for  0 ≤ a ≤ c  and  0 ≤ b ≤ d
      pi * z / 4 ≤ y       for  2 ≤ z ≤ y

  Comparisons need ranges, and ranges need comparisons.  So there are levels: the
  rules of a level compare parts, and find ranges, with the level below.
-/
import ShapeEstimator.Proofs.Formula.Ranges

namespace ShapeEstimator.Formula

open Decimal (Range rounded)

namespace Knowledge

/-! ## §1. Rules. -/

/-- The number four. -/
def four : Decimal :=
  { negative := false, coefficient := 4, scale := 0, scale_le := Decimal.zero_le_maxScale }

section Rules

variable (k : Knowledge) (le : Order) (x y : Expr)

/-- The range of `x` starts at `n` or above. -/
def isFrom (n : ℤ) (x : Expr) : Bool := (k.range le x).any fun a => decide (n ≤ a.lower)

/-- The range of `x` ends where that of `y` starts, or before. -/
def apart : Bool :=
  (k.range le x).any fun a => (k.range le y).any fun b => decide (a.upper ≤ b.lower)

/-- A difference `l - r` is known to be positive, where `r` is `x` and `l` is `y`; or `r` is `2 * x`,
and `y` is the half of `l`, or `l` itself where `x` is not negative. -/
def impliedBy : Expr → Bool
  | .binary .sub l r =>
    (r.same x && l.same y)
      || (r.same (.binary .mul (.number .two) x)
        && (y.same (.binary .div l (.number .two)) || (y.same l && k.isFrom le 0 x)))
  | _ => false

/-- `x` is `l - r`, where `l` is at most `y`. -/
def differenceBelow : Bool :=
  match x with
  | .binary .sub l r => k.isFrom le 0 r && le l y
  | _ => false

/-- `y` is `l + r`, where `l` is at least `x`. -/
def belowSum : Bool :=
  match y with
  | .binary .add l r => k.isFrom le 0 r && le x l
  | _ => false

/-- `x` is a share of something that is at most `y`. -/
def shareBelow : Bool :=
  match x with
  | .binary .mul c z => le c (.number .one) && k.isFrom le 0 z && le z y
  | _ => false

/-- `x` and `y` are products with factors in order. -/
def products : Bool :=
  match x, y with
  | .binary .mul a b, .binary .mul c d =>
    k.isFrom le 0 a && k.isFrom le 0 b && le a c && le b d
  | _, _ => false

/-- `x` and `y` are squares or cubes of numbers in order. -/
def powers : Bool :=
  match x, y with
  | .binary .pow a e, .binary .pow b f =>
    e.same f && le a b && (k.range le x).isSome && (k.range le y).isSome
  | _, _ => false

/-- `x` is the area of a disc within a square that is at most `y`. -/
def discBelow : Bool :=
  match x with
  | .binary .div (.binary .mul (.constant .pi) z) (.number v) =>
    decide (v = four) && k.isFrom le 2 z && le z y
  | _ => false

/-- Whether one of the rules shows that `x` is at most `y`. -/
def compareStep : Bool :=
  x.same y || k.apart le x y || k.positive.any (k.impliedBy le x y) || k.differenceBelow le x y
    || k.belowSum le x y || k.shareBelow le x y || k.products le x y || k.powers le x y
    || k.discBelow le x y

end Rules

/-- The comparison of a level. -/
def atMost (k : Knowledge) : ℕ → Order
  | 0 => fun _ _ => false
  | n + 1 => k.compareStep (k.atMost n)

/-! ## §2. Soundness. -/

section Soundness

variable {k : Knowledge} {lib : DoubleFunctions} {scope : Scope} {le : Order} {x y : Expr}

theorem value_four : four.value = 4 := by
  simp [Decimal.value, Decimal.size, Decimal.signed, four]

theorem value_pi_le : Decimal.pi.value ≤ 3.2 := by
  norm_num [Decimal.value, Decimal.size, Decimal.signed, Decimal.pi]

/-- The value of an expression that has one. -/
theorem value_unique {e : Expr} {v w : Decimal} (h : e.evaluateWith lib scope = .ok v)
    (h' : e.evaluateWith lib scope = .ok w) : v = w :=
  Except.ok.inj (h.symm.trans h')

/-- Operands of a positive difference are in order: rounding does not make it positive. -/
theorem lt_of_difference_pos {a b v : Decimal} (h : applyOperator .sub a b = .ok v)
    (hv : 0 < v.value) : b.value < a.value := by
  by_contra hge
  have hzero : a.value - b.value ≤ ((0 : ℤ) : ℚ) := by
    push_cast
    linarith
  have hround := Decimal.rounded_le hzero
  rw [← sub_value h, Int.cast_zero] at hround
  linarith

/-- Where a double is less than a number, it is at most that before it is rounded, too. -/
theorem double_le {a b v : Decimal} (h : applyOperator .mul .two a = .ok v)
    (hlt : v.value < b.value) : 2 * a.value ≤ b.value := by
  by_contra hgt
  have hround := Decimal.rounded_mono (not_le.1 hgt).le
  rw [← Decimal.value_two, ← mul_value h, Decimal.rounded_value] at hround
  linarith

section

variable (hk : k.Holds lib scope) (hatan : lib.AtanWithin) (hle : Sound lib scope le)

include hk hatan hle

theorem range_contains {e : Expr} {r : Range} {v : Decimal} (hr : k.range le e = some r)
    (h : e.evaluateWith lib scope = .ok v) : r.Contains v.value := by
  obtain ⟨w, hw, hcontains⟩ := range_sound hk hatan hle e hr
  exact value_unique h hw ▸ hcontains

theorem isFrom_sound {n : ℤ} {v : Decimal} (h : k.isFrom le n x = true)
    (hx : x.evaluateWith lib scope = .ok v) : (n : ℚ) ≤ v.value := by
  obtain ⟨r, hr, hn⟩ := (Option.any_eq_true _ _).1 h
  have hlow : (n : ℚ) ≤ r.lower := by exact_mod_cast of_decide_eq_true hn
  exact hlow.trans (range_contains hk hatan hle hr hx).lower_le

theorem nonneg_of_isFrom {v : Decimal} (h : k.isFrom le 0 x = true)
    (hx : x.evaluateWith lib scope = .ok v) : 0 ≤ v.value := by
  exact_mod_cast isFrom_sound hk hatan hle h hx

theorem apart_sound (h : k.apart le x y = true) : Below lib scope x y := by
  intro a b ha hb
  obtain ⟨r, hr, h⟩ := (Option.any_eq_true _ _).1 h
  obtain ⟨s, hs, h⟩ := (Option.any_eq_true _ _).1 h
  have hends : (r.upper : ℚ) ≤ s.lower := by exact_mod_cast of_decide_eq_true h
  exact ((range_contains hk hatan hle hr ha).le_upper.trans hends).trans
    (range_contains hk hatan hle hs hb).lower_le

/-- A positive difference orders its operands, and a double on the right orders the halves. -/
theorem impliedBy_sound {e : Expr} {v : Decimal} (h : k.impliedBy le x y e = true)
    (he : e.evaluateWith lib scope = .ok v) (hv : 0 < v.value) : Below lib scope x y := by
  intro a b ha hb
  unfold impliedBy at h
  split at h
  · rename_i l r
    obtain ⟨vl, hl, vr, hr, happly⟩ := evaluateWith_binary_eq_ok.1 he
    have hlt := lt_of_difference_pos happly hv
    -- first the operands themselves, then a double on the right against a half or a whole
    rcases Bool.or_eq_true_iff.1 h with h | h
    · obtain ⟨hrx, hly⟩ := Bool.and_eq_true_iff.1 h
      rw [Expr.eq_of_same hrx] at hr
      rw [Expr.eq_of_same hly] at hl
      rw [value_unique ha hr, value_unique hb hl]
      exact hlt.le
    · obtain ⟨hrx, hy⟩ := Bool.and_eq_true_iff.1 h
      rw [Expr.eq_of_same hrx] at hr
      obtain ⟨vt, ht, vx, hx, happly⟩ := evaluateWith_binary_eq_ok.1 hr
      rw [Expr.evaluateWith] at ht
      cases ht
      rw [value_unique ha hx]
      have hdouble := double_le happly hlt
      rcases Bool.or_eq_true_iff.1 hy with hhalf | hwhole
      · rw [Expr.eq_of_same hhalf] at hb
        obtain ⟨vl', hl', vt, ht, happly⟩ := evaluateWith_binary_eq_ok.1 hb
        rw [Expr.evaluateWith] at ht
        cases ht
        rw [value_unique hl' hl] at happly
        rw [div_value happly, Decimal.value_two, ← Decimal.rounded_value vx]
        exact Decimal.rounded_mono (by linarith)
      · obtain ⟨hyl, hnonneg⟩ := Bool.and_eq_true_iff.1 hwhole
        rw [Expr.eq_of_same hyl] at hb
        rw [value_unique hb hl]
        have := nonneg_of_isFrom hk hatan hle hnonneg hx
        linarith
  · exact nomatch h

theorem differenceBelow_sound (h : k.differenceBelow le x y = true) : Below lib scope x y := by
  intro a b ha hb
  unfold differenceBelow at h
  split at h
  · obtain ⟨hr, hl⟩ := Bool.and_eq_true_iff.1 h
    obtain ⟨vl, hvl, vr, hvr, happly⟩ := evaluateWith_binary_eq_ok.1 ha
    have hnonneg := nonneg_of_isFrom hk hatan hle hr hvr
    have hbelow := hle _ _ hl vl b hvl hb
    rw [sub_value happly, ← Decimal.rounded_value b]
    exact Decimal.rounded_mono (by linarith)
  · exact nomatch h

theorem belowSum_sound (h : k.belowSum le x y = true) : Below lib scope x y := by
  intro a b ha hb
  unfold belowSum at h
  split at h
  · obtain ⟨hr, hl⟩ := Bool.and_eq_true_iff.1 h
    obtain ⟨vl, hvl, vr, hvr, happly⟩ := evaluateWith_binary_eq_ok.1 hb
    have hnonneg := nonneg_of_isFrom hk hatan hle hr hvr
    have hbelow := hle _ _ hl a vl ha hvl
    rw [add_value happly, ← Decimal.rounded_value a]
    exact Decimal.rounded_mono (by linarith)
  · exact nomatch h

theorem shareBelow_sound (h : k.shareBelow le x y = true) : Below lib scope x y := by
  intro a b ha hb
  unfold shareBelow at h
  split at h
  · obtain ⟨hcz, hy⟩ := Bool.and_eq_true_iff.1 h
    obtain ⟨hc, hz⟩ := Bool.and_eq_true_iff.1 hcz
    obtain ⟨vc, hvc, vz, hvz, happly⟩ := evaluateWith_binary_eq_ok.1 ha
    have hone := hle _ _ hc vc .one hvc (by rw [Expr.evaluateWith])
    have hnonneg := nonneg_of_isFrom hk hatan hle hz hvz
    have hbelow := hle _ _ hy vz b hvz hb
    rw [Decimal.value_one] at hone
    rw [mul_value happly, ← Decimal.rounded_value b]
    exact Decimal.rounded_mono ((mul_le_of_le_one_left hnonneg hone).trans hbelow)
  · exact nomatch h

theorem products_sound (h : k.products le x y = true) : Below lib scope x y := by
  intro v w hv hw
  unfold products at h
  split at h
  · obtain ⟨hrest, hbd⟩ := Bool.and_eq_true_iff.1 h
    obtain ⟨hfrom, hac⟩ := Bool.and_eq_true_iff.1 hrest
    obtain ⟨ha, hb⟩ := Bool.and_eq_true_iff.1 hfrom
    obtain ⟨va, hva, vb, hvb, happly⟩ := evaluateWith_binary_eq_ok.1 hv
    obtain ⟨vc, hvc, vd, hvd, happly'⟩ := evaluateWith_binary_eq_ok.1 hw
    have hna := nonneg_of_isFrom hk hatan hle ha hva
    have hnb := nonneg_of_isFrom hk hatan hle hb hvb
    have hfirst := hle _ _ hac va vc hva hvc
    have hsecond := hle _ _ hbd vb vd hvb hvd
    rw [mul_value happly, mul_value happly']
    exact Decimal.rounded_mono (mul_le_mul hfirst hsecond hnb (hna.trans hfirst))
  · exact nomatch h

/-- The value of a square or cube that a range is found for. -/
theorem power_value {l e : Expr} {t : Range} {v : Decimal}
    (ht : k.range le (.binary .pow l e) = some t)
    (hv : (Expr.binary .pow l e).evaluateWith lib scope = .ok v) :
    ∃ n x, e.exponent? = some n ∧ l.evaluateWith lib scope = .ok x ∧ 0 ≤ x.value
      ∧ v.value = Decimal.roundedPower x.value n := by
  obtain ⟨r, hr, ht⟩ := Option.bind_eq_some_iff.1 ht
  obtain ⟨s, _, ht⟩ := Option.bind_eq_some_iff.1 ht
  obtain ⟨n, hn, ht⟩ := Option.bind_eq_some_iff.1 ht
  obtain ⟨x, hx, y, hy, happly⟩ := evaluateWith_binary_eq_ok.1 hv
  have hcontains := range_contains hk hatan hle hr hx
  obtain ⟨z, hz, hvalue, _⟩ := Range.pow_contains ht hcontains
  have hraise := raise_exponent hn hy hz
  have hlower : 0 ≤ r.lower := by
    unfold Range.pow at ht
    split at ht
    · rename_i hsign
      exact hsign.1
    · exact nomatch ht
  refine ⟨n, x, hn, hx, le_trans (by exact_mod_cast hlower) hcontains.lower_le, ?_⟩
  rw [Except.ok.inj (happly.symm.trans hraise), hvalue]

theorem powers_sound (h : k.powers le x y = true) : Below lib scope x y := by
  intro v w hv hw
  unfold powers at h
  split at h
  · obtain ⟨hrest, hry⟩ := Bool.and_eq_true_iff.1 h
    obtain ⟨hsame, hrx⟩ := Bool.and_eq_true_iff.1 hrest
    obtain ⟨hef, hab⟩ := Bool.and_eq_true_iff.1 hsame
    obtain ⟨_, hrx⟩ := Option.isSome_iff_exists.1 hrx
    obtain ⟨_, hry⟩ := Option.isSome_iff_exists.1 hry
    obtain ⟨n, va, hn, hva, hnonneg, hvalue⟩ := power_value hk hatan hle hrx hv
    obtain ⟨m, vb, hm, hvb, _, hvalue'⟩ := power_value hk hatan hle hry hw
    rw [← Expr.eq_of_same hef, hn] at hm
    cases hm
    rw [hvalue, hvalue']
    exact Decimal.roundedPower_mono hnonneg (hle _ _ hab va vb hva hvb) n
  · exact nomatch h

/-- A disc is smaller than its square by more than what is lost to rounding. -/
theorem discBelow_sound (h : k.discBelow le x y = true) : Below lib scope x y := by
  intro a b ha hb
  unfold discBelow at h
  split at h
  · obtain ⟨hfour, hy⟩ := Bool.and_eq_true_iff.1 h
    obtain ⟨hfour, hz⟩ := Bool.and_eq_true_iff.1 hfour
    obtain ⟨vw, hvw, vf, hvf, happly⟩ := evaluateWith_binary_eq_ok.1 ha
    obtain ⟨vp, hvp, vz, hvz, happly'⟩ := evaluateWith_binary_eq_ok.1 hvw
    rw [Expr.evaluateWith] at hvf
    cases hvf
    rw [Expr.evaluateWith] at hvp
    cases hvp
    rw [of_decide_eq_true hfour] at happly
    have htwo : 2 ≤ vz.value := by exact_mod_cast isFrom_sound hk hatan hle hz hvz
    have hbelow := hle _ _ hy vz b hvz hb
    -- rounding adds less than one to the product, and from two on there is that much room below four
    have hwhole : vw.value ≤ 4 * vz.value := by
      have hproduct : Decimal.pi.value * vz.value ≤ 3.2 * vz.value :=
        mul_le_mul_of_nonneg_right value_pi_le (by linarith)
      have hround := Decimal.rounded_le (Int.le_ceil (Decimal.pi.value * vz.value))
      have hceil := Int.ceil_lt_add_one (Decimal.pi.value * vz.value)
      rw [mul_value happly']
      show rounded (Decimal.pi.value * vz.value) ≤ _
      linarith
    rw [div_value happly, value_four, ← Decimal.rounded_value b]
    exact Decimal.rounded_mono (by linarith)
  · exact nomatch h

/-- **A step of the comparison is sound** if the level below is. -/
theorem compareStep_sound : Sound lib scope (k.compareStep le) := by
  intro x y h
  unfold compareStep at h
  simp only [Bool.or_eq_true] at h
  rcases h with (((((((h | h) | h) | h) | h) | h) | h) | h) | h
  · intro a b ha hb
    rw [Expr.eq_of_same h] at ha
    exact le_of_eq (congrArg Decimal.value (value_unique ha hb))
  · exact apart_sound hk hatan hle h
  · obtain ⟨e, he, himplied⟩ := List.any_eq_true.1 h
    obtain ⟨v, hv, hpos⟩ := hk.positive e he
    exact impliedBy_sound hk hatan hle himplied hv hpos
  · exact differenceBelow_sound hk hatan hle h
  · exact belowSum_sound hk hatan hle h
  · exact shareBelow_sound hk hatan hle h
  · exact products_sound hk hatan hle h
  · exact powers_sound hk hatan hle h
  · exact discBelow_sound hk hatan hle h

end

/-- **The comparison is sound at every level.** -/
theorem atMost_sound (hk : k.Holds lib scope) (hatan : lib.AtanWithin) (n : ℕ) :
    Sound lib scope (k.atMost n) := by
  induction n with
  | zero => exact fun _ _ h => (nomatch h)
  | succ n ih => exact compareStep_sound hk hatan ih

end Soundness

end Knowledge

end ShapeEstimator.Formula
