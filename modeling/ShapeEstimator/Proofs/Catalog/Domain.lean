/-
  ShapeEstimator.Proofs.Catalog.Domain
  ────────────────────────────────
  **SHAPES THAT ARE SANE ON THEIR DOMAIN.**

  A shape states bounds for its parameters and rules for its dimensions.  Within
  those it should be sane: every formula has a value, volumes, weights and shares
  are what such numbers can be, and a blank is not smaller than what is cut from it.

  The check reads the formulas once and analyses them from the bounds and the rules
  alone.  A shape that passes is sane in every scope of its domain.
-/
import ShapeEstimator.Catalog.Shape
import ShapeEstimator.Proofs.Formula.Comparisons

namespace ShapeEstimator

open Decimal (Range)
open Formula (DoubleFunctions Expr Knowledge Scope densityVariable parse)

/-! ## §1. Domains. -/

namespace ParameterDomain

/-- The lower bound. -/
def least? : ParameterDomain → Option Float
  | .numeric min _ _ => min
  | .enumerated _ _ => none

/-- The upper bound. -/
def greatest? : ParameterDomain → Option Float
  | .numeric _ max _ => max
  | .enumerated _ _ => none

/-- Whether a number is within the bounds, as exact numbers. -/
def Admits (d : ParameterDomain) (q : ℚ) : Prop :=
  (∀ m ∈ d.least?, ∀ b ∈ Binary64.value? m, b ≤ q)
    ∧ ∀ m ∈ d.greatest?, ∀ b ∈ Binary64.value? m, q ≤ b

instance (d : ParameterDomain) (q : ℚ) : Decidable (d.Admits q) :=
  inferInstanceAs (Decidable (_ ∧ _))

end ParameterDomain

/-- The formula has this value. -/
def Formula.Definition.HasValue (f : Formula.Definition) (lib : DoubleFunctions) (scope : Scope)
    (v : Decimal) : Prop :=
  ∃ e, parse f.expression = .ok e ∧ e.evaluateWith lib scope = .ok v

namespace Shape

variable (s : Shape) (lib : DoubleFunctions) (scope : Scope)

/-- The values are in the domain of a shape. -/
structure InDomain : Prop where
  /-- Every parameter has a value within its bounds. -/
  parameters : ∀ p ∈ s.parameters, ∃ x, scope p.name = some x ∧ p.domain.Admits x.value
  /-- Every rule has a positive value. -/
  rules : ∀ r ∈ s.validationRules, ∃ e, parse r.expression = .ok e
    ∧ ∃ v, e.evaluateWith lib scope = .ok v ∧ 0 < v.value
  /-- The density is one of a material. -/
  density : ∃ x, scope densityVariable = some x ∧ 1 ≤ x.value ∧ x.value ≤ 30000

/-- The plain formula of a name has this value. -/
def Measures (name : String) (v : Decimal) : Prop :=
  ∃ f, (name, f) ∈ s.plainFormulas ∧ f.HasValue lib scope v

/-- The formulas of a shape are total and make sense together. -/
structure Sane : Prop where
  /-- Every plain formula has a value. -/
  plain : ∀ f ∈ s.plainFormulas, ∃ v, f.2.HasValue lib scope v
  /-- Every formula of a composite entry has a value. -/
  composite : ∀ e ∈ s.compositeEntries, ∀ f ∈ e.2.subFormulas, ∃ v, f.2.HasValue lib scope v
  /-- There is a volume, and it is not negative. -/
  volume : ∃ v, s.Measures lib scope "volume" v ∧ 0 ≤ v.value
  /-- There is a weight, and it is not negative. -/
  weight : ∃ v, s.Measures lib scope "weight" v ∧ 0 ≤ v.value
  /-- A blank is not smaller than the finished part. -/
  areas : ∀ blank finished, s.Measures lib scope "blankArea" blank →
    s.Measures lib scope "finishedArea" finished → finished.value ≤ blank.value
  /-- A share of scrap is a percentage. -/
  scrap : ∀ v, s.Measures lib scope "scrapPercentage" v → 0 ≤ v.value ∧ v.value ≤ 100

end Shape

/-! ## §2. What a domain tells. -/

namespace Binary64

/-- A natural number that is at most a double. -/
def floor? (x : Float) : Option ℕ :=
  if signBit x then none else (magnitude? x).map fun m => m.numerator / m.denominator

/-- A natural number that is at least a double. -/
def ceil? (x : Float) : Option ℕ :=
  if signBit x then none
  else (magnitude? x).map fun m => (m.numerator + m.denominator - 1) / m.denominator

theorem floor?_le {x : Float} {n : ℕ} (h : floor? x = some n) :
    ∃ b, value? x = some b ∧ (n : ℚ) ≤ b := by
  unfold floor? at h
  split at h
  · exact nomatch h
  · rename_i hsign
    obtain ⟨m, hm, rfl⟩ := Option.map_eq_some_iff.1 h
    refine ⟨_, by rw [value?, hm, Option.map_some, if_neg hsign], ?_⟩
    have hpos : (0 : ℚ) < m.denominator := by exact_mod_cast m.denominator_pos
    rw [le_div_iff₀ hpos]
    exact_mod_cast Nat.div_mul_le_self m.numerator m.denominator

theorem le_ceil? {x : Float} {n : ℕ} (h : ceil? x = some n) :
    ∃ b, value? x = some b ∧ b ≤ n := by
  unfold ceil? at h
  split at h
  · exact nomatch h
  · rename_i hsign
    obtain ⟨m, hm, rfl⟩ := Option.map_eq_some_iff.1 h
    refine ⟨_, by rw [value?, hm, Option.map_some, if_neg hsign], ?_⟩
    have hpos : (0 : ℚ) < m.denominator := by exact_mod_cast m.denominator_pos
    have hle : m.numerator ≤ (m.numerator + m.denominator - 1) / m.denominator * m.denominator := by
      have hsplit := Nat.div_add_mod' (m.numerator + m.denominator - 1) m.denominator
      have hrest := Nat.mod_lt (m.numerator + m.denominator - 1) m.denominator_pos
      omega
    rw [div_le_iff₀ hpos]
    exact_mod_cast hle

end Binary64

/-- The integer range of a domain with two bounds. -/
def ParameterDomain.range? : ParameterDomain → Option Range
  | .numeric (some lower) (some upper) _ =>
    (Binary64.floor? lower).bind fun (a : ℕ) =>
      (Binary64.ceil? upper).map fun (b : ℕ) => ⟨(a : ℤ), (b : ℤ)⟩
  | _ => none

theorem ParameterDomain.contains_of_admits {d : ParameterDomain} {r : Range} {q : ℚ}
    (h : d.range? = some r) (hq : d.Admits q) : r.Contains q := by
  unfold range? at h
  split at h
  · obtain ⟨a, ha, h⟩ := Option.bind_eq_some_iff.1 h
    obtain ⟨b, hb, rfl⟩ := Option.map_eq_some_iff.1 h
    obtain ⟨lower, hlower, hfloor⟩ := Binary64.floor?_le ha
    obtain ⟨upper, hupper, hceil⟩ := Binary64.le_ceil? hb
    exact ⟨hfloor.trans (hq.1 _ rfl lower hlower), (hq.2 _ rfl upper hupper).trans hceil⟩
  · exact nomatch h

namespace Shape

/-- What the domain of a shape tells about expressions, beside roots that are known to exist. -/
def knowledge (s : Shape) (roots : List Expr) : Knowledge where
  ranges :=
    (densityVariable, ⟨1, 30000⟩)
      :: s.parameters.filterMap fun p => p.domain.range?.map fun r => (p.name, r)
  positive := s.validationRules.filterMap fun r => (parse r.expression).toOption
  roots

section

variable {s : Shape} {lib : DoubleFunctions} {scope : Scope} {roots : List Expr}

theorem toOption_eq_some {ε α : Type} {x : Except ε α} {a : α} (h : x.toOption = some a) :
    x = .ok a := by
  cases x with
  | error => exact nomatch h
  | ok b =>
    cases h
    rfl

/-- In the domain of a shape all of that is true. -/
theorem InDomain.knowledge_holds (h : s.InDomain lib scope) (roots : List Expr)
    (hroots : ∀ e ∈ roots, ∃ v, e.evaluateWith lib scope = .ok v) :
    (s.knowledge roots).Holds lib scope := by
  refine ⟨?_, ?_, hroots⟩
  · intro name r hr
    rw [knowledge, NameMap.lookup_cons_ite] at hr
    split at hr
    · rename_i hname
      cases hr
      obtain ⟨x, hx, hlow, hhigh⟩ := h.density
      exact ⟨x, hname ▸ hx, ⟨by exact_mod_cast hlow, by exact_mod_cast hhigh⟩⟩
    · obtain ⟨before, behind, hsplit, _⟩ := List.lookup_eq_some_iff.1 hr
      have hmem : (name, r) ∈ before ++ (name, r) :: behind :=
        List.mem_append_right _ List.mem_cons_self
      rw [← hsplit] at hmem
      obtain ⟨p, hp, hpair⟩ := List.mem_filterMap.1 hmem
      obtain ⟨range, hrange, heq⟩ := Option.map_eq_some_iff.1 hpair
      cases heq
      obtain ⟨x, hx, hadmits⟩ := h.parameters p hp
      exact ⟨x, hx, ParameterDomain.contains_of_admits hrange hadmits⟩
  · intro e he
    obtain ⟨r, hr, hparse⟩ := List.mem_filterMap.1 he
    obtain ⟨e', hparse', hpositive⟩ := h.rules r hr
    rw [toOption_eq_some hparse] at hparse'
    cases hparse'
    exact hpositive

end

/-! ## §3. The check. -/

section

variable (s : Shape) (roots : List Expr)

/-- The number of levels that expressions are compared on. -/
def levels : ℕ := 5

/-- The range of a formula over the domain of a shape, where one is found. -/
def rangeOf? (f : Formula.Definition) : Option Range :=
  (parse f.expression).toOption.bind
    ((s.knowledge roots).range ((s.knowledge roots).atMost levels))

/-- One formula is found to be at most the other. -/
def findsAtMost (f g : Formula.Definition) : Bool :=
  ((parse f.expression).toOption.bind fun x =>
    (parse g.expression).toOption.map ((s.knowledge roots).atMost levels x)).getD false

/-- Of every plain formula of a name, or of none, the range is in given bounds. -/
def findsWithin (name : String) (test : Range → Bool) : Bool :=
  s.plainFormulas.all fun f => decide (f.1 ≠ name) || (s.rangeOf? roots f.2).any test

/-- There is a plain formula of a name. -/
def hasPlain (name : String) : Bool := s.plainFormulas.any fun f => decide (f.1 = name)

/-- Whether the analysis shows that a shape is sane. -/
def checks : Bool :=
  (s.plainFormulas.all fun f => (s.rangeOf? roots f.2).isSome)
    && (s.compositeEntries.all fun e =>
      e.2.subFormulas.all fun f => (s.rangeOf? roots f.2).isSome)
    && (s.hasPlain "volume" && s.findsWithin roots "volume" fun r => decide (0 ≤ r.lower))
    && (s.hasPlain "weight" && s.findsWithin roots "weight" fun r => decide (0 ≤ r.lower))
    && (s.plainFormulas.all fun blank => decide (blank.1 ≠ "blankArea")
      || s.plainFormulas.all fun finished => decide (finished.1 ≠ "finishedArea")
        || s.findsAtMost roots finished.2 blank.2)
    && s.findsWithin roots "scrapPercentage" fun r => decide (0 ≤ r.lower ∧ r.upper ≤ 100)

end

section Soundness

variable {s : Shape} {lib : DoubleFunctions} {scope : Scope} {roots : List Expr}
  {f g : Formula.Definition} {r : Range} {v w : Decimal}

theorem hasValue_unique (h : f.HasValue lib scope v) (h' : f.HasValue lib scope w) : v = w := by
  obtain ⟨e, he, hv⟩ := h
  obtain ⟨e', he', hw⟩ := h'
  rw [he] at he'
  cases he'
  exact Knowledge.value_unique hv hw

variable (hk : (s.knowledge roots).Holds lib scope) (hatan : lib.AtanWithin)

include hk hatan

/-- A formula with a range has a value in it. -/
theorem hasValue_of_rangeOf? (h : s.rangeOf? roots f = some r) :
    ∃ v, f.HasValue lib scope v ∧ r.Contains v.value := by
  obtain ⟨e, he, hr⟩ := Option.bind_eq_some_iff.1 h
  obtain ⟨v, hv, hcontains⟩ :=
    Knowledge.range_sound hk hatan (Knowledge.atMost_sound hk hatan levels) e hr
  exact ⟨v, ⟨e, toOption_eq_some he, hv⟩, hcontains⟩

theorem le_of_findsAtMost (h : s.findsAtMost roots f g = true) (hv : f.HasValue lib scope v)
    (hw : g.HasValue lib scope w) : v.value ≤ w.value := by
  obtain ⟨x, hx, hv⟩ := hv
  obtain ⟨y, hy, hw⟩ := hw
  unfold findsAtMost at h
  rw [hx, hy] at h
  exact Knowledge.atMost_sound hk hatan levels x y h v w hv hw

theorem measures_within {name : String} {test : Range → Bool}
    (h : s.findsWithin roots name test = true) (hv : s.Measures lib scope name v) :
    ∃ r : Range, test r = true ∧ r.Contains v.value := by
  obtain ⟨f, hf, hv⟩ := hv
  have hfound := List.all_eq_true.1 h (name, f) hf
  rw [decide_eq_false (not_not.2 rfl), Bool.false_or] at hfound
  obtain ⟨r, hr, htest⟩ := (Option.any_eq_true _ _).1 hfound
  obtain ⟨w, hw, hcontains⟩ := hasValue_of_rangeOf? hk hatan hr
  exact ⟨r, htest, hasValue_unique hv hw ▸ hcontains⟩

theorem exists_measures_nonneg {name : String}
    (h : (s.hasPlain name && s.findsWithin roots name fun r => decide (0 ≤ r.lower)) = true)
    (hplain : ∀ f ∈ s.plainFormulas, ∃ v, f.2.HasValue lib scope v) :
    ∃ v, s.Measures lib scope name v ∧ 0 ≤ v.value := by
  obtain ⟨hhas, hwithin⟩ := Bool.and_eq_true_iff.1 h
  obtain ⟨⟨n, f⟩, hf, hname⟩ := List.any_eq_true.1 hhas
  obtain rfl : n = name := of_decide_eq_true hname
  obtain ⟨v, hv⟩ := hplain (n, f) hf
  obtain ⟨r, hlow, hcontains⟩ := measures_within hk hatan hwithin ⟨f, hf, hv⟩
  have hnonneg : (0 : ℚ) ≤ r.lower := by exact_mod_cast of_decide_eq_true hlow
  exact ⟨v, ⟨f, hf, hv⟩, hnonneg.trans hcontains.lower_le⟩

/-- **A shape that passes the check is sane** where its roots exist. -/
theorem sane_of_checks (h : s.checks roots = true) : s.Sane lib scope := by
  unfold checks at h
  obtain ⟨h, hscrap⟩ := Bool.and_eq_true_iff.1 h
  obtain ⟨h, hareas⟩ := Bool.and_eq_true_iff.1 h
  obtain ⟨h, hweight⟩ := Bool.and_eq_true_iff.1 h
  obtain ⟨h, hvolume⟩ := Bool.and_eq_true_iff.1 h
  obtain ⟨hplain, hcomposite⟩ := Bool.and_eq_true_iff.1 h
  have hvalues : ∀ f ∈ s.plainFormulas, ∃ v, f.2.HasValue lib scope v := by
    intro f hf
    obtain ⟨r, hr⟩ := Option.isSome_iff_exists.1 (List.all_eq_true.1 hplain f hf)
    obtain ⟨v, hv, _⟩ := hasValue_of_rangeOf? hk hatan hr
    exact ⟨v, hv⟩
  refine ⟨hvalues, ?_, exists_measures_nonneg hk hatan hvolume hvalues,
    exists_measures_nonneg hk hatan hweight hvalues, ?_, ?_⟩
  · intro e he f hf
    have hall := List.all_eq_true.1 hcomposite e he
    obtain ⟨r, hr⟩ := Option.isSome_iff_exists.1 (List.all_eq_true.1 hall f hf)
    obtain ⟨v, hv, _⟩ := hasValue_of_rangeOf? hk hatan hr
    exact ⟨v, hv⟩
  · rintro blank finished ⟨b, hb, hblank⟩ ⟨f, hf, hfinished⟩
    have hblanks := List.all_eq_true.1 hareas ("blankArea", b) hb
    rw [decide_eq_false (not_not.2 rfl), Bool.false_or] at hblanks
    have hatMost := List.all_eq_true.1 hblanks ("finishedArea", f) hf
    rw [decide_eq_false (not_not.2 rfl), Bool.false_or] at hatMost
    exact le_of_findsAtMost hk hatan hatMost hfinished hblank
  · intro v hv
    obtain ⟨r, htest, hcontains⟩ := measures_within hk hatan hscrap hv
    obtain ⟨hlow, hhigh⟩ := of_decide_eq_true htest
    have hlow' : (0 : ℚ) ≤ r.lower := by exact_mod_cast hlow
    have hhigh' : (r.upper : ℚ) ≤ 100 := by exact_mod_cast hhigh
    exact ⟨hlow'.trans hcontains.lower_le, hcontains.le_upper.trans hhigh'⟩

end Soundness

end Shape

end ShapeEstimator
