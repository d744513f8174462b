/-
  ShapeEstimator.Proofs.Formula.ZeroSign
  ────────────────────────────────
  **WHO READS THE SIGN OF A ZERO.**

  A zero may carry a minus sign.  Two evaluations whose variables differ in the signs of zeros only
  go the same way, step by step, and their values differ in the sign of a zero only:

      x.clean = y.clean   →   (f x).map clean = (f y).map clean

  Two functions are an exception.  A square root takes a zero with a minus sign for a negative
  number, and the angle of a point with a zero as ordinate is read off the sign of this zero,
  unless the abscissa is positive.
-/
import ShapeEstimator.Formula.Value
import ShapeEstimator.Proofs.Binary64.Nearest
import ShapeEstimator.Proofs.Decimal.ZeroSign
import ShapeEstimator.Proofs.Formula.ParserStep

namespace ShapeEstimator

open Binary64 (IsZero zeroOf)

/-! ## §1. What functions read of a zero. -/

/-- Whether a function tells two lists of arguments apart by the sign of a zero: a square root that
of its argument, and an angle those of the ordinate and the abscissa, where the point is not on the
positive axis. -/
def Function.TellsApart : Function → List Decimal → List Decimal → Prop
  | .sqrt, x :: _, x' :: _ => x.isZero = true ∧ x'.isZero = true ∧ x.negative ≠ x'.negative
  | .atan2, y :: x :: _, y' :: x' :: _ => IsZero y.lower ∧ ¬ 0 < x.lower ∧ (y ≠ y' ∨ x ≠ x')
  | _, _, _ => False

namespace Formula

/-- What inverse sines, cosines and tangents make of zeros.  They are odd at zero, and the angle of a
point off the horizontal axis does not depend on the sign of a zero as abscissa. -/
structure DoubleFunctions.RespectsZeros (lib : DoubleFunctions) : Prop where
  /-- The inverse sine of a zero is a zero. -/
  asin : ∀ negative, IsZero (lib.asin (zeroOf negative))
  /-- Both zeros have the same inverse cosine. -/
  acos : lib.acos (zeroOf true) = lib.acos (zeroOf false)
  /-- The inverse tangent of a zero is a zero. -/
  atan : ∀ negative, IsZero (lib.atan (zeroOf negative))
  /-- The angle of a point on the positive axis is a zero. -/
  atan2_axis : ∀ negative x, 0 < x → IsZero (lib.atan2 (zeroOf negative) x)
  /-- Both zeros as abscissa give the same angle off the axis. -/
  atan2_abscissa : ∀ y, y.isFinite = true → ¬ IsZero y →
    lib.atan2 y (zeroOf true) = lib.atan2 y (zeroOf false)

/-! ## §2. Operators and functions. -/

/-- An outcome, with no sign on a zero. -/
def Outcome.clean (o : Outcome) : Outcome := o.map Decimal.clean

section Operators

open Decimal

variable {x y x' y' : Decimal}

theorem Outcome.clean_ok (h : x.clean = y.clean) :
    Outcome.clean (.ok x) = Outcome.clean (.ok y) := congrArg Except.ok h

/-- What depends on a number but not on the sign of a zero. -/
theorem Outcome.clean_congr {f : Decimal → Outcome} (h : x.clean = y.clean)
    (hf : x.isZero = true → (f x.neg).clean = (f x).clean) : (f x).clean = (f y).clean := by
  rcases eq_or_neg_of_clean h with rfl | ⟨hx, rfl⟩
  · rfl
  · exact (hf hx).symm

/-- What depends on two numbers, and does not see the sign of a zero in either. -/
theorem Outcome.clean_congr₂ {f : Decimal → Decimal → Outcome} (hx : x.clean = x'.clean)
    (hy : y.clean = y'.clean) (hleft : ∀ y, x.isZero = true → (f x.neg y).clean = (f x y).clean)
    (hright : ∀ x, y.isZero = true → (f x y.neg).clean = (f x y).clean) :
    (f x y).clean = (f x' y').clean :=
  (clean_congr (f := fun x => f x y) hx (hleft y)).trans (clean_congr hy (hright x'))

theorem powInt_neg_of_isZero (h : x.isZero = true) (n : ℤ) : x.neg.powInt n = x.powInt n := by
  have hnat : ∀ m, x.neg.powNat m = x.powNat m := by
    intro m
    unfold powNat
    rw [isZero_neg, h]
    rfl
  unfold powInt
  rw [hnat, hnat]

theorem toInt64?_of_isZero (h : x.isZero = true) : x.toInt64? = some 0 :=
  toInt64?_of_integer (n := 0) (by rw [value_of_isZero h]; rfl)

/-- The sign of a zero as base does not count. -/
theorem raise_neg_left (h : x.isZero = true) (y : Decimal) : raise x.neg y = raise x y := by
  have hint : x.neg.powInt = x.powInt := funext (powInt_neg_of_isZero h)
  unfold raise
  rw [hint, isZero_neg, h]
  simp [powerOutOfRange, shrinks]

/-- The sign of a zero as exponent does not count: the power is one. -/
theorem raise_of_isZero (x : Decimal) (h : y.isZero = true) : raise x y = .ok one := by
  unfold raise
  rw [hasFraction_of_isZero h, toInt64?_of_isZero h, h]
  simp [powInt, powNat]

/-- **Operators do not see the sign of a zero.** -/
theorem applyOperator_clean (op : Operator) (hx : x.clean = x'.clean) (hy : y.clean = y'.clean) :
    (applyOperator op x y).clean = (applyOperator op x' y').clean := by
  apply Outcome.clean_congr₂ hx hy
  · intro y h
    cases op with
    | add | sub | mul | div | rem =>
      simp [applyOperator, Decimal.add, Decimal.sub, Decimal.mul, Decimal.div, Decimal.rem, h]
    | pow => exact congrArg Outcome.clean (raise_neg_left h y)
  · intro x h
    cases op with
    | add | sub =>
      by_cases hx : x.isZero = true
      · simpa [applyOperator, Decimal.add, Decimal.sub, orOverflow, h, hx] using
          Outcome.clean_ok (clean_neg_of_isZero h)
      · simp [applyOperator, Decimal.add, Decimal.sub, h, hx]
    | mul | div | rem => simp [applyOperator, Decimal.mul, h]
    | pow =>
      show (raise x y.neg).clean = (raise x y).clean
      rw [raise_of_isZero x h, raise_of_isZero (y := y.neg) x h]

theorem applySign_clean (sign : Sign) (h : x.clean = y.clean) :
    (applySign sign x).clean = (applySign sign y).clean := by
  cases sign with
  | negative => exact clean_neg_congr h
  | positive => exact h

end Operators

section Functions

open Decimal

variable {lib : DoubleFunctions} {x y x' y' : Decimal}

/-- The outcome of a function of doubles, from the double that it gives. -/
def fromDouble (f : Function) (y : Float) : Outcome :=
  if y.isFinite then orDomain f .resultOutOfRange (lift? y)
  else .error (.failure (.domain f .outsideDomain))

/-- Zeros as results are the same number. -/
theorem clean_fromDouble_of_isZero (f : Function) {y : Float} (h : IsZero y) :
    (fromDouble f y).clean = .ok zero := by
  obtain ⟨negative, rfl⟩ := h
  unfold fromDouble
  rw [if_pos (Binary64.isFinite_zeroOf negative), Binary64.lift?_zeroOf]
  rfl

/-- A function of doubles does not see the sign of a zero if both zeros go to the same number, or to
zeros. -/
theorem throughDouble_clean (f : Function) {g : Float → Float} (h : x.clean = x'.clean)
    (hg : g (zeroOf true) = g (zeroOf false) ∨ ∀ negative, IsZero (g (zeroOf negative))) :
    (throughDouble f g x).clean = (throughDouble f g x').clean := by
  refine Outcome.clean_congr h fun hx => ?_
  show (fromDouble f (g x.neg.lower)).clean = (fromDouble f (g x.lower)).clean
  obtain ⟨s, hs⟩ := isZero_lower hx
  obtain ⟨t, ht⟩ := isZero_lower (x := x.neg) hx
  rw [hs, ht]
  rcases hg with hsame | hzero
  · cases s <;> cases t <;> simp only [hsame]
  · rw [clean_fromDouble_of_isZero f (hzero s), clean_fromDouble_of_isZero f (hzero t)]

theorem le_zero_of_isZero (h : x.isZero = true) : x.le zero = true := by
  simp [le, unitsAt_of_isZero h, unitsAt_of_isZero (x := zero) rfl]

theorem naturalLog_of_isZero (f : Function) (h : x.isZero = true) :
    naturalLog f x = .error (.failure (.domain f .nonPositiveLogarithm)) :=
  if_pos (le_zero_of_isZero h)

theorem naturalLog_clean (f : Function) (h : x.clean = y.clean) :
    (naturalLog f x).clean = (naturalLog f y).clean :=
  Outcome.clean_congr h fun hx => by
    rw [naturalLog_of_isZero f hx, naturalLog_of_isZero (x := x.neg) f hx]

theorem logToBase_clean (hx : x.clean = x'.clean) (hy : y.clean = y'.clean) :
    (logToBase x y).clean = (logToBase x' y').clean := by
  apply Outcome.clean_congr₂ hx hy
  · intro y h
    unfold logToBase
    rw [naturalLog_of_isZero .log h, naturalLog_of_isZero (x := x.neg) .log h]
  · intro x h
    unfold logToBase
    rw [naturalLog_of_isZero .log h, naturalLog_of_isZero (x := y.neg) .log h]

/-- The angle of a point, unless it is told apart. -/
theorem angle_clean (hlib : lib.RespectsZeros) {more more' : List Decimal} (hy : y.clean = y'.clean)
    (hx : x.clean = x'.clean) (h : ¬ Function.atan2.TellsApart (y :: x :: more) (y' :: x' :: more')) :
    (throughDouble .atan2 (fun ordinate => lib.atan2 ordinate x.lower) y).clean
      = (throughDouble .atan2 (fun ordinate => lib.atan2 ordinate x'.lower) y').clean := by
  by_cases hzero : IsZero y.lower
  · by_cases hpos : 0 < x.lower
    · -- the abscissa is positive, so it is the same, and the angle of a zero is a zero
      obtain rfl : x = x' := by
        rcases eq_or_neg_of_clean hx with hsame | ⟨hx, -⟩
        · exact hsame
        · obtain ⟨s, hs⟩ := isZero_lower hx
          exact absurd (hs ▸ hpos) (Binary64.not_pos_zeroOf s)
      exact throughDouble_clean .atan2 hy (Or.inr fun negative => hlib.atan2_axis negative _ hpos)
    · have hsame : y = y' ∧ x = x' := by
        by_contra hne
        rw [Classical.not_and_iff_not_or_not] at hne
        exact h ⟨hzero, hpos, hne⟩
      rw [hsame.1, hsame.2]
  · -- off the axis, so the ordinate is the same
    obtain rfl : y = y' := by
      rcases eq_or_neg_of_clean hy with hsame | ⟨hy, -⟩
      · exact hsame
      · exact absurd (isZero_lower hy) hzero
    have habscissa := hlib.atan2_abscissa y.lower (isFinite_lower y) hzero
    rcases eq_or_neg_of_clean hx with rfl | ⟨hzero', rfl⟩
    · rfl
    · obtain ⟨s, hs⟩ := isZero_lower hzero'
      obtain ⟨t, ht⟩ := isZero_lower (x := x.neg) hzero'
      unfold throughDouble
      rw [hs, ht]
      cases s <;> cases t <;> simp only [habscissa]

/-- Two lists of the same numbers, but for the signs of zeros. -/
theorem map_clean_cases {xs xs' : List Decimal} (h : xs.map clean = xs'.map clean) :
    (xs = [] ∧ xs' = [])
      ∨ ∃ x x' more more', xs = x :: more ∧ xs' = x' :: more' ∧ x.clean = x'.clean
        ∧ more.map clean = more'.map clean := by
  cases xs with
  | nil => exact Or.inl ⟨rfl, List.map_eq_nil_iff.1 h.symm⟩
  | cons x more =>
    cases xs' with
    | nil => exact absurd h (List.cons_ne_nil _ _)
    | cons x' more' =>
      obtain ⟨hx, hmore⟩ := List.cons.inj h
      exact Or.inr ⟨x, x', more, more', rfl, rfl, hx, hmore⟩

/-- **Functions do not see the sign of a zero**, unless they tell their arguments apart. -/
theorem applyTo_clean (hlib : lib.RespectsZeros) (f : Function) {more more' : List Decimal}
    (hx : x.clean = x'.clean) (hmore : more.map clean = more'.map clean)
    (h : ¬ f.TellsApart (x :: more) (x' :: more')) :
    (applyTo lib f x more).clean = (applyTo lib f x' more').clean := by
  cases f with
  | sqrt =>
    rcases eq_or_neg_of_clean hx with rfl | ⟨hzero, rfl⟩
    · rfl
    · exact absurd ⟨hzero, hzero, (Bool.not_ne_self x.negative).symm⟩ h
  | cbrt => exact Outcome.clean_congr (f := cubeRoot) hx fun hx => by simp [cubeRoot, cbrt, hx]
  | abs => exact Outcome.clean_congr (f := fun x => .ok x.abs) hx fun _ => rfl
  | sin =>
    exact Outcome.clean_congr (f := fun x => orDomain .sin .valueOutOfRange x.sin) hx fun hx => by
      simp [Decimal.sin, hx]
  | cos =>
    exact Outcome.clean_congr (f := fun x => orDomain .cos .valueOutOfRange x.cos) hx fun _ => rfl
  | tan =>
    exact Outcome.clean_congr (f := fun x => orDomain .tan .undefinedAngle x.tan) hx fun hx => by
      simp [Decimal.tan, hx]
  | asin => exact throughDouble_clean .asin hx (Or.inr hlib.asin)
  | acos => exact throughDouble_clean .acos hx (Or.inl hlib.acos)
  | atan => exact throughDouble_clean .atan hx (Or.inr hlib.atan)
  | atan2 =>
    rcases map_clean_cases hmore with ⟨rfl, rfl⟩ | ⟨y, y', rest, rest', rfl, rfl, hy, -⟩
    · rfl
    · exact angle_clean hlib hx hy h
  | exp =>
    exact Outcome.clean_congr (f := fun x => applyTo lib .exp x []) hx fun hx => by
      simp [applyTo, Decimal.exp, hx]
  | ln => exact naturalLog_clean .ln hx
  | log =>
    rcases map_clean_cases hmore with ⟨rfl, rfl⟩ | ⟨y, y', rest, rest', rfl, rfl, hy, -⟩
    · exact naturalLog_clean .log hx
    · exact logToBase_clean hx hy
  | log10 =>
    refine Outcome.clean_congr (f := fun x => applyTo lib .log10 x []) hx fun hx => ?_
    simp only [applyTo, le_zero_of_isZero hx, le_zero_of_isZero (x := x.neg) hx, if_true]
  | pow =>
    rcases map_clean_cases hmore with ⟨rfl, rfl⟩ | ⟨y, y', rest, rest', rfl, rfl, hy, -⟩
    · rfl
    · exact applyOperator_clean .pow hx hy
  | min => exact Outcome.clean_ok (clean_foldl_congr clean_min_congr hmore hx)
  | max => exact Outcome.clean_ok (clean_foldl_congr clean_max_congr hmore hx)
  | floor =>
    exact Outcome.clean_congr (f := fun x => .ok x.floor) hx fun hx =>
      Outcome.clean_ok (clean_floor_neg hx)
  | ceil =>
    exact Outcome.clean_congr (f := fun x => .ok x.ceil) hx fun hx =>
      Outcome.clean_ok (clean_ceil_neg hx)
  | round =>
    exact Outcome.clean_congr (f := fun x => .ok x.round) hx fun hx =>
      Outcome.clean_ok (clean_round_neg hx)
  | deg2rad =>
    exact Outcome.clean_congr (f := fun x => applyTo lib .deg2rad x []) hx fun hx => by
      simp [applyTo, Decimal.mul, hx]
  | rad2deg =>
    exact Outcome.clean_congr (f := fun x => applyTo lib .rad2deg x []) hx fun hx => by
      simp [applyTo, Decimal.mul, hx]

theorem applyFunction_clean (hlib : lib.RespectsZeros) (f : Function) {xs xs' : List Decimal}
    (hxs : xs.map clean = xs'.map clean) (h : ¬ f.TellsApart xs xs') :
    (applyFunction lib f xs).clean = (applyFunction lib f xs').clean := by
  rcases map_clean_cases hxs with ⟨rfl, rfl⟩ | ⟨x, x', more, more', rfl, rfl, hx, hmore⟩
  · rfl
  · exact applyTo_clean hlib f hx hmore h

/-- A square root of two zeros that it tells apart has a value for one of them only. -/
theorem squareRoot_tellsApart {xs xs' : List Decimal} (h : Function.sqrt.TellsApart xs xs') :
    (applyFunction lib .sqrt xs).isOk ≠ (applyFunction lib .sqrt xs').isOk := by
  cases xs with
  | nil => exact h.elim
  | cons x more =>
    cases xs' with
    | nil => exact h.elim
    | cons x' more' =>
      obtain ⟨hx, hx', hsign⟩ := h
      have hroot : ∀ z : Decimal, z.isZero = true → (squareRoot z).isOk = !z.negative := by
        intro z hz
        unfold squareRoot sqrt
        rw [hz]
        cases z.negative <;> rfl
      show (squareRoot x).isOk ≠ (squareRoot x').isOk
      rw [hroot x hx, hroot x' hx']
      simpa using hsign

end Functions

/-! ## §3. Expressions. -/

/-- Two scopes that bind the same names to the same numbers, but for the signs of zeros. -/
def SameNumbers (scope scope' : Scope) : Prop :=
  ∀ name, (scope name).map Decimal.clean = (scope' name).map Decimal.clean

/-- A list of values, or a failure, with no sign on a zero. -/
def cleanAll (o : Except (Stop EvalFailure) (List Decimal)) :
    Except (Stop EvalFailure) (List Decimal) :=
  o.map (List.map Decimal.clean)

namespace Expr

section Calls

variable (lib : DoubleFunctions) (scope scope' : Scope)
  (P : Function → List Decimal → List Decimal → Prop)

mutual

/-- Whether some call in an expression has a property, at the arguments that it is given in either
of two evaluations. -/
def SomeCall : Expr → Prop
  | .number _ | .constant _ | .variable _ => False
  | .unary _ operand => operand.SomeCall
  | .binary _ left right => left.SomeCall ∨ right.SomeCall
  | .call f arguments =>
    SomeCallInAny arguments
      ∨ ∃ xs xs', evaluateAllWith lib scope arguments = .ok xs
        ∧ evaluateAllWith lib scope' arguments = .ok xs' ∧ P f xs xs'

/-- Whether some call in a list of expressions has a property. -/
def SomeCallInAny : List Expr → Prop
  | [] => False
  | x :: xs => x.SomeCall ∨ SomeCallInAny xs

end

end Calls

/-- Whether the signs of zeros are read somewhere in an expression, and they differ. -/
def TellsApart (lib : DoubleFunctions) (scope scope' : Scope) (e : Expr) : Prop :=
  e.SomeCall lib scope scope' Function.TellsApart

/-- Whether a square root is taken of two zeros with different signs. -/
def RootApart (lib : DoubleFunctions) (scope scope' : Scope) (e : Expr) : Prop :=
  e.SomeCall lib scope scope' fun f xs xs' => f = .sqrt ∧ f.TellsApart xs xs'

end Expr

section Expressions

variable {lib : DoubleFunctions} {scope scope' : Scope}

/-- Results that are the same after a function, or the same failure. -/
theorem map_eq_cases {α β : Type} {f : α → β} {o o' : Except (Stop EvalFailure) α}
    (h : o.map f = o'.map f) :
    (∃ x x', o = .ok x ∧ o' = .ok x' ∧ f x = f x')
      ∨ ∃ failure, o = .error failure ∧ o' = .error failure := by
  cases o with
  | ok x =>
    cases o' with
    | ok x' => exact Or.inl ⟨x, x', rfl, rfl, Except.ok.inj h⟩
    | error failure => exact nomatch h
  | error failure =>
    cases o' with
    | ok x' => exact nomatch h
    | error failure' =>
      cases h
      exact Or.inr ⟨failure, rfl, rfl⟩

mutual

/-- Evaluations go the same way unless a call tells them apart. -/
theorem evaluateWith_clean (hlib : lib.RespectsZeros) (hscope : SameNumbers scope scope') :
    ∀ e : Expr, ¬ e.TellsApart lib scope scope' →
      Outcome.clean (e.evaluateWith lib scope) = Outcome.clean (e.evaluateWith lib scope')
  | .number _, _ => rfl
  | .constant _, _ => rfl
  | .variable name, _ => by
    have hname := hscope name
    rw [Expr.evaluateWith, Expr.evaluateWith]
    cases hx : scope name with
    | none =>
      rw [hx, Option.map_none, eq_comm, Option.map_eq_none_iff] at hname
      rw [hname]
    | some x =>
      rw [hx, Option.map_some, eq_comm, Option.map_eq_some_iff] at hname
      obtain ⟨x', hx', hclean⟩ := hname
      rw [hx']
      exact Outcome.clean_ok hclean.symm
  | .unary sign operand, h => by
    rw [Expr.evaluateWith, Expr.evaluateWith]
    rcases map_eq_cases (evaluateWith_clean hlib hscope operand h) with
      ⟨x, x', hx, hx', hclean⟩ | ⟨failure, hx, hx'⟩
    · rw [hx, hx']
      exact Outcome.clean_ok (applySign_clean sign hclean)
    · rw [hx, hx']
  | .binary op left right, h => by
    have hleft := evaluateWith_clean hlib hscope left fun hl => h (Or.inl hl)
    have hright := evaluateWith_clean hlib hscope right fun hr => h (Or.inr hr)
    rw [Expr.evaluateWith, Expr.evaluateWith]
    rcases map_eq_cases hleft with ⟨x, x', hx, hx', hcleanx⟩ | ⟨failure, hx, hx'⟩
    · rcases map_eq_cases hright with ⟨y, y', hy, hy', hcleany⟩ | ⟨failure, hy, hy'⟩
      · rw [hx, hx', hy, hy']
        exact applyOperator_clean op hcleanx hcleany
      · rw [hx, hx', hy, hy']
        rfl
    · rw [hx, hx']
      rfl
  | .call f arguments, h => by
    have harguments := evaluateAllWith_clean hlib hscope arguments fun ha => h (Or.inl ha)
    rw [Expr.evaluateWith, Expr.evaluateWith]
    rcases map_eq_cases harguments with ⟨xs, xs', hxs, hxs', hclean⟩ | ⟨failure, hxs, hxs'⟩
    · -- the arguments are the same numbers, and the call does not tell them apart
      have hcall : ¬ f.TellsApart xs xs' := fun hf => h (Or.inr ⟨xs, xs', hxs, hxs', hf⟩)
      rw [hxs, hxs']
      exact applyFunction_clean hlib f hclean hcall
    · rw [hxs, hxs']

theorem evaluateAllWith_clean (hlib : lib.RespectsZeros) (hscope : SameNumbers scope scope') :
    ∀ es : List Expr, ¬ Expr.SomeCallInAny lib scope scope' Function.TellsApart es →
      cleanAll (Expr.evaluateAllWith lib scope es) = cleanAll (Expr.evaluateAllWith lib scope' es)
  | [], _ => rfl
  | e :: es, h => by
    have he := evaluateWith_clean hlib hscope e fun he => h (Or.inl he)
    have hes := evaluateAllWith_clean hlib hscope es fun hes => h (Or.inr hes)
    rw [Expr.evaluateAllWith, Expr.evaluateAllWith]
    rcases map_eq_cases he with ⟨x, x', hx, hx', hclean⟩ | ⟨failure, hx, hx'⟩
    · rcases map_eq_cases hes with ⟨xs, xs', hxs, hxs', hcleans⟩ | ⟨failure, hxs, hxs'⟩
      · rw [hx, hx', hxs, hxs']
        exact congrArg Except.ok (congrArg₂ List.cons hclean hcleans)
      · rw [hx, hx', hxs, hxs']
        rfl
    · rw [hx, hx']
      rfl

end

mutual

/-- Where both evaluations have a value, no square root told two zeros apart. -/
theorem not_rootApart_of_ok :
    ∀ (e : Expr) {v v' : Decimal}, e.evaluateWith lib scope = .ok v →
      e.evaluateWith lib scope' = .ok v' → ¬ e.RootApart lib scope scope'
  | .number _, _, _, _, _ => id
  | .constant _, _, _, _, _ => id
  | .variable _, _, _, _, _ => id
  | .unary _ operand, v, v', hv, hv' => by
    rw [Expr.evaluateWith, bind_eq_ok] at hv hv'
    obtain ⟨x, hx, -⟩ := hv
    obtain ⟨x', hx', -⟩ := hv'
    exact not_rootApart_of_ok operand hx hx'
  | .binary _ left right, v, v', hv, hv' => by
    rw [Expr.evaluateWith, bind_eq_ok] at hv hv'
    obtain ⟨x, hx, hv⟩ := hv
    obtain ⟨x', hx', hv'⟩ := hv'
    obtain ⟨y, hy, -⟩ := bind_eq_ok.1 hv
    obtain ⟨y', hy', -⟩ := bind_eq_ok.1 hv'
    rintro (hleft | hright)
    · exact not_rootApart_of_ok left hx hx' hleft
    · exact not_rootApart_of_ok right hy hy' hright
  | .call f arguments, v, v', hv, hv' => by
    rw [Expr.evaluateWith, bind_eq_ok] at hv hv'
    obtain ⟨xs, hxs, hv⟩ := hv
    obtain ⟨xs', hxs', hv'⟩ := hv'
    rintro (harguments | ⟨ys, ys', hys, hys', rfl, hroot⟩)
    · exact not_rootApart_of_all_ok arguments hxs hxs' harguments
    · -- the arguments of the root are the values that both evaluations have
      cases hxs.symm.trans hys
      cases hxs'.symm.trans hys'
      have happart : (applyFunction lib .sqrt _).isOk ≠ (applyFunction lib .sqrt _).isOk :=
        squareRoot_tellsApart hroot
      rw [hv, hv'] at happart
      exact happart rfl

theorem not_rootApart_of_all_ok :
    ∀ (es : List Expr) {vs vs' : List Decimal}, Expr.evaluateAllWith lib scope es = .ok vs →
      Expr.evaluateAllWith lib scope' es = .ok vs' →
        ¬ Expr.SomeCallInAny lib scope scope' (fun f xs xs' => f = .sqrt ∧ f.TellsApart xs xs') es
  | [], _, _, _, _ => id
  | e :: es, vs, vs', hvs, hvs' => by
    rw [Expr.evaluateAllWith, bind_eq_ok] at hvs hvs'
    obtain ⟨x, hx, hvs⟩ := hvs
    obtain ⟨x', hx', hvs'⟩ := hvs'
    obtain ⟨xs, hxs, -⟩ := bind_eq_ok.1 hvs
    obtain ⟨xs', hxs', -⟩ := bind_eq_ok.1 hvs'
    rintro (he | hes)
    · exact not_rootApart_of_ok e hx hx' he
    · exact not_rootApart_of_all_ok es hxs hxs' hes

end

/-- **The sign of a zero.**  Values of variables that differ in the signs of zeros give the same
failure or the same number, but for the sign of a zero, unless a square root or an angle tells zeros
apart.  Where a square root does, one of the two evaluations fails. -/
theorem evaluate_zeroSign (hlib : lib.RespectsZeros) (hscope : SameNumbers scope scope') (e : Expr) :
    (¬ e.TellsApart lib scope scope' →
        Outcome.clean (e.evaluateWith lib scope) = Outcome.clean (e.evaluateWith lib scope'))
      ∧ (e.RootApart lib scope scope' →
        ¬ ∃ v v', e.evaluateWith lib scope = .ok v ∧ e.evaluateWith lib scope' = .ok v') :=
  ⟨evaluateWith_clean hlib hscope e,
    fun hroot ⟨_, _, hv, hv'⟩ => not_rootApart_of_ok e hv hv' hroot⟩

end Expressions

/-! ## §4. Both sides of the condition. -/

/-- The functions of the system, with their values at zeros spelled out. -/
def withZeros : DoubleFunctions where
  asin x := if Binary64.magnitude? x = some .zero then x else Float.asin x
  acos x := if Binary64.magnitude? x = some .zero then 1.5707963267948966 else Float.acos x
  atan x := if Binary64.magnitude? x = some .zero then x else Float.atan x
  atan2 y x :=
    if Binary64.magnitude? y = some .zero then if 0 < x then y else Float.atan2 y x
    else if Binary64.magnitude? x = some .zero then
      if 0 < y then 1.5707963267948966 else -1.5707963267948966
    else Float.atan2 y x

theorem withZeros_respectsZeros : withZeros.RespectsZeros := by
  have hmagnitude : ∀ s, Binary64.magnitude? (zeroOf s) = some .zero := by
    intro s
    cases s <;> decide +kernel
  have hzero : ∀ y, Binary64.magnitude? y = some .zero → IsZero y := fun y hy =>
    ⟨Binary64.signBit y, (Binary64.toFloat_magnitude? hy).symm⟩
  constructor
  · intro s
    simpa [withZeros, hmagnitude s] using Binary64.isZero_zeroOf s
  · simp [withZeros, hmagnitude]
  · intro s
    simpa [withZeros, hmagnitude s] using Binary64.isZero_zeroOf s
  · intro s x hx
    simpa [withZeros, hmagnitude s, hx] using Binary64.isZero_zeroOf s
  · intro y _ hy
    have hne : Binary64.magnitude? y ≠ some .zero := fun h => hy (hzero y h)
    simp [withZeros, hmagnitude, hne]

/-- The zero `0.0`. -/
def scaledZero : Decimal where
  negative := false
  coefficient := 0
  scale := 1
  coefficient_lt := Decimal.zero.coefficient_lt
  scale_le := Decimal.one_le_maxScale

/-- The expression `atan2(x, 1) + 2`. -/
def raisedAngle : Expr :=
  .binary .add (.call .atan2 [.variable "x", .number .one]) (.number .two)

/-- The angle of a point on the positive axis does not depend on the sign of its ordinate. -/
theorem raisedAngle_same :
    SameNumbers (fun _ => some scaledZero) (fun _ => some scaledZero.neg)
      ∧ raisedAngle.evaluateWith withZeros (fun _ => some scaledZero) = .ok .two
      ∧ Outcome.clean (raisedAngle.evaluateWith withZeros fun _ => some scaledZero.neg)
        = .ok .two := by
  have hscope : SameNumbers (fun _ => some scaledZero) (fun _ => some scaledZero.neg) :=
    fun _ => rfl
  have happly : ¬ raisedAngle.TellsApart withZeros (fun _ => some scaledZero)
      (fun _ => some scaledZero.neg) := by
    rintro ((harguments | ⟨xs, xs', hxs, -, hcall⟩) | hnumber)
    · rcases harguments with h | h | h <;> exact h
    · cases hxs
      have hpos : 0 < Decimal.one.lower := by decide +kernel
      cases xs' with
      | nil => exact hcall
      | cons y' rest =>
        cases rest with
        | nil => exact hcall
        | cons x' rest => exact hcall.2.1 hpos
    · exact hnumber
  have hvalue : raisedAngle.evaluateWith withZeros (fun _ => some scaledZero) = .ok .two := by
    decide +kernel
  have hsame := (evaluate_zeroSign withZeros_respectsZeros hscope raisedAngle).1 happly
  refine ⟨hscope, hvalue, ?_⟩
  rw [← hsame, hvalue]
  rfl

/-- The expression `sqrt(x)`. -/
def plainRoot : Expr := .call .sqrt [.variable "x"]

/-- **The square root reads the sign of a zero**: there is one of zero, and none of the same number
with a minus sign. -/
theorem plainRoot_tellsApart :
    SameNumbers (fun _ => some .zero) (fun _ => some Decimal.zero.neg)
      ∧ plainRoot.evaluate (fun _ => some .zero) = .ok .zero
      ∧ plainRoot.evaluate (fun _ => some Decimal.zero.neg)
        = .error (.failure (.domain .sqrt .negativeRoot)) :=
  ⟨fun _ => rfl, rfl, rfl⟩

end Formula

end ShapeEstimator
