/-
  ShapeEstimator.Proofs.Estimate.Collisions
  ────────────────────────────────
  **WHICH COMPOSITE RESULT STANDS UNDER A KEY.**

  All blanks of a shape share one map, keyed by the names of dimensions, and all
  groups of formulas share another, keyed by the names of group and formula.  Entries
  take turns in name order, so of several formulas that are reported under one key
  the one of the last entry stands there:

      m.get? key = some v   ↔   the last formula reported under the key has value v

  No key is lost, and a value is overwritten only by a different one for its key.
-/
import ShapeEstimator.Proofs.Estimate.RangeWarnings

namespace ShapeEstimator

open Formula (Compiled Definition EvaluationResult Expr Kept Outcomes)

/-! ## §1. The last value for a key. -/

namespace Geometry

variable {key : String} {v : Float}

/-- Of values that agree on a key, any one stands there when all are put. -/
theorem get?_putAll_iff {es : List (String × Float)}
    (hes : ∀ v w, (key, v) ∈ es → (key, w) ∈ es → v = w) :
    ∀ m : NameMap Float, (putAll m es).get? key = some v ↔
      (key, v) ∈ es ∨ (m.get? key = some v ∧ ∀ w, (key, w) ∉ es) := by
  induction es with
  | nil =>
    intro m
    constructor
    · exact fun h => Or.inr ⟨h, fun _ => List.not_mem_nil⟩
    · rintro (h | ⟨h, _⟩)
      · exact absurd h List.not_mem_nil
      · exact h
  | cons head rest ih =>
    obtain ⟨k, w⟩ := head
    intro m
    have hrest : ∀ v w, (key, v) ∈ rest → (key, w) ∈ rest → v = w := fun v w hv hw =>
      hes v w (List.mem_cons_of_mem _ hv) (List.mem_cons_of_mem _ hw)
    show (putAll (m.insert k w) rest).get? key = some v ↔ _
    rw [ih hrest, NameMap.get?_insert]
    by_cases hk : key = k
    · subst hk
      rw [if_pos rfl]
      constructor
      · rintro (h | ⟨h, _⟩)
        · exact Or.inl (List.mem_cons_of_mem _ h)
        · cases h
          exact Or.inl List.mem_cons_self
      · rintro (h | ⟨_, h⟩)
        · -- the head has this value, and so has whatever the rest puts under the key
          have hvw : v = w := hes v w h List.mem_cons_self
          by_cases hlater : ∃ u, (key, u) ∈ rest
          · obtain ⟨u, hu⟩ := hlater
            have huv : u = v := hes u v (List.mem_cons_of_mem _ hu) h
            exact Or.inl (huv ▸ hu)
          · exact Or.inr ⟨congrArg some hvw.symm, fun u hu => hlater ⟨u, hu⟩⟩
        · exact absurd List.mem_cons_self (h w)
    · rw [if_neg hk]
      have hmem : ∀ u, (key, u) ∈ (k, w) :: rest ↔ (key, u) ∈ rest := by
        intro u
        rw [List.mem_cons, or_iff_right fun h => hk (Prod.mk.inj h).1]
      simp only [hmem]

/-- Entries with increasing names put values that agree within an entry: under a key stands the
value of the last entry that puts one there. -/
theorem get?_putAll_flatMap {α : Type} {F : String × α → List (String × Float)}
    {entries : List (String × α)} (hsorted : entries.Pairwise fun a b => a.1 < b.1)
    (hF : ∀ e ∈ entries, ∀ v w, (key, v) ∈ F e → (key, w) ∈ F e → v = w) :
    ∀ m : NameMap Float, (putAll m (entries.flatMap F)).get? key = some v ↔
      (∃ e ∈ entries, (key, v) ∈ F e ∧ ∀ later ∈ entries, e.1 < later.1 → ∀ w, (key, w) ∉ F later)
        ∨ (m.get? key = some v ∧ ∀ e ∈ entries, ∀ w, (key, w) ∉ F e) := by
  induction entries with
  | nil =>
    intro m
    constructor
    · exact fun h => Or.inr ⟨h, fun e he => absurd he List.not_mem_nil⟩
    · rintro (⟨e, he, _⟩ | ⟨h, _⟩)
      · exact absurd he List.not_mem_nil
      · exact h
  | cons head rest ih =>
    obtain ⟨hhead, hrest⟩ := List.pairwise_cons.1 hsorted
    intro m
    rw [List.flatMap_cons, putAll_append,
      ih hrest (fun e he => hF e (List.mem_cons_of_mem _ he)),
      get?_putAll_iff (hF head List.mem_cons_self)]
    constructor
    · rintro (⟨e, he, hv, hlast⟩ | ⟨hv | ⟨hm, hnot⟩, hnone⟩)
      · -- an entry of the rest decides, and the head comes before it
        refine Or.inl ⟨e, List.mem_cons_of_mem _ he, hv, ?_⟩
        intro later hlater hlt
        rcases List.mem_cons.1 hlater with rfl | hlater
        · exact absurd (String.lt_trans hlt (hhead e he)) (String.lt_irrefl _)
        · exact hlast later hlater hlt
      · refine Or.inl ⟨head, List.mem_cons_self, hv, ?_⟩
        intro later hlater hlt
        rcases List.mem_cons.1 hlater with rfl | hlater
        · exact absurd hlt (String.lt_irrefl _)
        · exact hnone later hlater
      · refine Or.inr ⟨hm, ?_⟩
        intro e he
        rcases List.mem_cons.1 he with rfl | he
        · exact hnot
        · exact hnone e he
    · rintro (⟨e, he, hv, hlast⟩ | ⟨hm, hnone⟩)
      · rcases List.mem_cons.1 he with rfl | he
        · exact Or.inr ⟨Or.inl hv, fun later hlater =>
            hlast later (List.mem_cons_of_mem _ hlater) (hhead later hlater)⟩
        · exact Or.inl ⟨e, he, hv, fun later hlater =>
            hlast later (List.mem_cons_of_mem _ hlater)⟩
      · exact Or.inr ⟨Or.inr ⟨hm, hnone head List.mem_cons_self⟩,
          fun e he => hnone e (List.mem_cons_of_mem _ he)⟩

end Geometry

/-! ## §2. Reports by entry. -/

/-- What the entry of a name reports under a key: a formula and its result. -/
abbrev Reporter : Type := String → String → Definition → EvaluationResult → Prop

/-- A formula reported under a key by an entry behind which no other entry reports one there. -/
def Reporter.Last (reports : Reporter) (key : String) (f : Definition) (r : EvaluationResult) :
    Prop :=
  ∃ name, reports name key f r ∧ ∀ later, name < later → ∀ g q, ¬ reports later key g q

namespace Shape

variable {s : Shape} {context : NameMap Float} {density : Float} {name key : String} {v : Float}
variable {f g : Definition} {r q : EvaluationResult}

/-- A formula with a result that stands in the group of a name, under the key of the two names. -/
def GroupOffers (s : Shape) (context : NameMap Float) (density : Float) (name key : String)
    (f : Definition) (r : EvaluationResult) : Prop :=
  ∃ formulas n, s.formulas.get? name = some (.customFormulas formulas) ∧ n ∈ formulas
    ∧ n.formula = f ∧ f.evaluate context (some density) = .ok r ∧ key = name ++ "." ++ n.name

theorem BlankReports.result_eq (hf : s.BlankReports context density name key f r)
    (hg : s.BlankReports context density name key g q) : r.result = q.result := by
  obtain ⟨spec, hspec, _, hmem, hr⟩ := hf
  obtain ⟨spec', hspec', _, hmem', hq⟩ := hg
  cases hspec.symm.trans hspec'
  cases hmem.symm.trans hmem'
  cases hr.symm.trans hq
  rfl

/-- The names of entry and formula make the key, so within a group it stands for one name. -/
theorem GroupReports.result_eq (hf : s.GroupReports context density name key f r)
    (hg : s.GroupReports context density name key g q) : r.result = q.result := by
  obtain ⟨formulas, sub, hformulas, hkept, hkey⟩ := hf
  obtain ⟨formulas', sub', hformulas', hkept', hkey'⟩ := hg
  cases hformulas.symm.trans hformulas'
  have hsub : sub = sub' := by
    have h := congrArg String.toList (hkey.symm.trans hkey')
    simp only [String.toList_append] at h
    exact String.toList_injective (List.append_cancel_left h)
  subst hsub
  rw [hkept.unique hkept']

theorem GroupReports.offers (h : s.GroupReports context density name key f r) :
    s.GroupOffers context density name key f r := by
  obtain ⟨formulas, sub, hformulas, hkept, hkey⟩ := h
  obtain ⟨n, hn, hpair⟩ := List.mem_map.1 hkept.mem
  cases hpair
  exact ⟨formulas, n, hformulas, hn, rfl, hkept.evaluate_eq, hkey⟩

/-- Where a formula of a group has a result, one of its name is reported. -/
theorem GroupOffers.exists_reports (h : s.GroupOffers context density name key f r) :
    ∃ g q, s.GroupReports context density name key g q := by
  obtain ⟨formulas, n, hformulas, hn, hf, hr, hkey⟩ := h
  subst hf
  obtain ⟨g, q, hkept⟩ := Kept.exists_of_mem
    (List.mem_map.2 ⟨n, hn, rfl⟩ :
      (n.name, n.formula) ∈ formulas.map fun n => (n.name, n.formula)) hr
  exact ⟨g, q, formulas, n.name, hformulas, hkept, hkey⟩

theorem compositeEntries_sorted (s : Shape) :
    s.compositeEntries.Pairwise fun a b => a.1 < b.1 :=
  s.formulas.sorted.filter _

/-- What the composite entries put leaves under each key what is reported last, where an entry has
at most one report for a key. -/
theorem get?_putAll_compositeEntries {F : String × FormulaEntry → List (String × Float)}
    {reports : Reporter}
    (hF : ∀ name entry v, (name, entry) ∈ s.compositeEntries →
      ((key, v) ∈ F (name, entry) ↔ ∃ f r, reports name key f r ∧ r.result = v))
    (hcomposite : ∀ name f r, reports name key f r →
      ∃ entry, s.formulas.get? name = some entry ∧ entry.isComposite = true)
    (hsame : ∀ name f r g q, reports name key f r → reports name key g q → r.result = q.result) :
    (Geometry.putAll .empty (s.compositeEntries.flatMap F)).get? key = some v ↔
      ∃ f r, reports.Last key f r ∧ r.result = v := by
  have hagree : ∀ e ∈ s.compositeEntries, ∀ v w, (key, v) ∈ F e → (key, w) ∈ F e → v = w := by
    rintro ⟨name, entry⟩ he v w hv hw
    obtain ⟨f, r, hf, rfl⟩ := (hF name entry v he).1 hv
    obtain ⟨g, q, hg, rfl⟩ := (hF name entry w he).1 hw
    exact hsame name f r g q hf hg
  rw [Geometry.get?_putAll_flatMap s.compositeEntries_sorted hagree,
    or_iff_left fun h => nomatch h.1]
  constructor
  · rintro ⟨⟨name, entry⟩, he, hv, hlast⟩
    obtain ⟨f, r, hf, hr⟩ := (hF name entry v he).1 hv
    refine ⟨f, r, ⟨name, hf, ?_⟩, hr⟩
    intro later hlt g q hg
    obtain ⟨entry', hget', hcomp'⟩ := hcomposite later g q hg
    have hlater : (later, entry') ∈ s.compositeEntries := mem_compositeEntries.2 ⟨hget', hcomp'⟩
    exact hlast (later, entry') hlater hlt q.result
      ((hF later entry' q.result hlater).2 ⟨g, q, hg, rfl⟩)
  · rintro ⟨f, r, ⟨name, hf, hlast⟩, hr⟩
    obtain ⟨entry, hget, hcomp⟩ := hcomposite name f r hf
    have he : (name, entry) ∈ s.compositeEntries := mem_compositeEntries.2 ⟨hget, hcomp⟩
    refine ⟨(name, entry), he, (hF name entry v he).2 ⟨f, r, hf, hr⟩, ?_⟩
    rintro ⟨later, entry'⟩ hlater hlt w hw
    obtain ⟨g, q, hg, _⟩ := (hF later entry' w hlater).1 hw
    exact hlast later hlt g q hg

end Shape

/-! ## §3. The two maps. -/

/-- A map holds what is reported last under each key.  Every key of an offered result is there, and
all results offered for a key are found exactly when they are equal. -/
structure KeepsLast (m : NameMap Float) (offers reports : Reporter) : Prop where
  /-- Under a key stands the value of the formula that is reported last. -/
  get?_eq : ∀ key v, m.get? key = some v ↔ ∃ f r, reports.Last key f r ∧ r.result = v
  /-- No key is lost. -/
  present : ∀ name key f r, offers name key f r → ∃ v, m.get? key = some v
  /-- A value is overwritten only where another value is offered for its key. -/
  found_iff : ∀ key, (∀ name f r, offers name key f r → m.get? key = some r.result) ↔
    ∀ name f r other g q, offers name key f r → offers other key g q → q.result = r.result

theorem KeepsLast.of_get? {m : NameMap Float} {offers reports : Reporter}
    (hget : ∀ key v, m.get? key = some v ↔ ∃ f r, reports.Last key f r ∧ r.result = v)
    (hpresent : ∀ key, m.contains key = true ↔ ∃ name f r, reports name key f r)
    (hoffers : ∀ name key f r, offers name key f r → ∃ g q, reports name key g q)
    (hreports : ∀ name key f r, reports name key f r → offers name key f r) :
    KeepsLast m offers reports := by
  have hfound : ∀ name key f r, offers name key f r → ∃ v, m.get? key = some v := by
    intro name key f r hf
    obtain ⟨g, q, hg⟩ := hoffers name key f r hf
    exact NameMap.contains_iff.1 ((hpresent key).2 ⟨name, g, q, hg⟩)
  refine ⟨hget, hfound, ?_⟩
  intro key
  constructor
  · intro hall name f r other g q hf hg
    have hboth := (hall other g q hg).symm.trans (hall name f r hf)
    exact Option.some.inj hboth
  · intro hsame name f r hf
    obtain ⟨v, hv⟩ := hfound name key f r hf
    obtain ⟨g, q, ⟨other, hg, _⟩, hq⟩ := (hget key v).1 hv
    rw [hv, ← hq, hsame name f r other g q hf (hreports other key g q hg)]

namespace Geometry

variable {o : Outcomes} {s : Shape} {context : NameMap Float} {density : Float} {g : Geometry}

theorem blankDimensions_keepsLast
    (h : (ofOutcomes o).addComposites s context density = .ok g) :
    KeepsLast g.blankDimensions (s.BlankReports context density)
      (s.BlankReports context density) := by
  refine .of_get? ?_ ?_ (fun _ _ f r h => ⟨f, r, h⟩) (fun _ _ _ _ h => h)
  · intro key v
    rw [eq_of_addComposites h]
    refine Shape.get?_putAll_compositeEntries (fun name entry _ hentry => ?_) ?_
      fun _ _ _ _ _ hf hg => hf.result_eq hg
    · obtain ⟨_, hrun⟩ := Shape.exists_outcomes_of_addComposites h hentry
      exact Shape.mem_dimensionsOf_iff (Shape.mem_compositeEntries.1 hentry).1 hrun
    · rintro name f r ⟨spec, hget, _⟩
      exact ⟨_, hget, rfl⟩
  · intro key
    rw [(blankDimensions_addComposites h).1]
    exact ⟨fun ⟨f, r, name, h⟩ => ⟨name, f, r, h⟩, fun ⟨name, f, r, h⟩ => ⟨f, r, name, h⟩⟩

theorem customValues_keepsLast
    (h : (ofOutcomes o).addComposites s context density = .ok g) :
    KeepsLast g.customValues (s.GroupOffers context density) (s.GroupReports context density) := by
  refine .of_get? ?_ ?_ (fun _ _ _ _ h => h.exists_reports) (fun _ _ _ _ h => h.offers)
  · intro key v
    rw [eq_of_addComposites h]
    refine Shape.get?_putAll_compositeEntries (fun name entry _ hentry => ?_) ?_
      fun _ _ _ _ _ hf hg => hf.result_eq hg
    · obtain ⟨_, hrun⟩ := Shape.exists_outcomes_of_addComposites h hentry
      exact Shape.mem_reportsOf_iff (Shape.mem_compositeEntries.1 hentry).1 hrun
    · rintro name f r ⟨formulas, sub, hget, _⟩
      exact ⟨_, hget, rfl⟩
  · intro key
    rw [(customValues_addComposites h).1]
    exact ⟨fun ⟨f, r, name, h⟩ => ⟨name, f, r, h⟩, fun ⟨name, f, r, h⟩ => ⟨f, r, name, h⟩⟩

end Geometry

/-! ## §4. Estimates. -/

namespace EstimateInput

variable {input : EstimateInput} {rates : Rates} {settings : Settings} {e : Estimate}

/-- **Which composite result stands under a key.**  An estimate has every dimension of a blank whose
dimensions all have values, and every value of a formula of a group, each under its key.  Where
several are reported under one key it has the one of the last entry by name, and within a group that
of the last formula. -/
theorem estimateAt_composites_last (h : input.estimateAt rates settings = .ok e) :
    KeepsLast e.calculatedValues.blankDimensions
        (input.shape.BlankReports input.parameterValues (input.resolvedDensity settings))
        (input.shape.BlankReports input.parameterValues (input.resolvedDensity settings))
      ∧ KeepsLast e.calculatedValues.customValues
        (input.shape.GroupOffers input.parameterValues (input.resolvedDensity settings))
        (input.shape.GroupReports input.parameterValues (input.resolvedDensity settings)) := by
  obtain ⟨-, found, hfound, rfl⟩ := exists_found_of_estimateAt h
  -- the weight of the scrap, which is added later, leaves both maps alone
  show KeepsLast found.geometry.blankDimensions _ _ ∧ KeepsLast found.geometry.customValues _ _
  exact ⟨Geometry.blankDimensions_keepsLast hfound.geometry,
    Geometry.customValues_keepsLast hfound.geometry⟩

/-- A length that is a number. -/
def fixedLength (expression : String) : Definition :=
  { expression, declared := [], unit := "mm" }

/-- A blank with one dimension, a fixed length. -/
def fixedBlank (expression : String) : BlankSpec where
  blankShape := .rectangular
  dimensions := .ofList [("length", fixedLength expression)]

/-- A shape with two blanks, of length 1 and of length 2. -/
def twoBlanks : EstimateInput where
  shape :=
    ((Shape.new "blanks" "Blanks" .rectangularPlate).withBlank "a" (fixedBlank "1")).withBlank "b"
      (fixedBlank "2")
  material := { id := "M", name := "M", category := .carbonSteel, density := some 7850 }

theorem twoBlanks_computable : twoBlanks.Computable where
  quantity := by decide
  parameters := by decide
  density := by
    intro d hd
    cases hd
    decide
  structure_ok := rfl

/-- The result of a fixed length of 1. -/
def lengthOne : EvaluationResult where
  result := 1
  unit := "mm"
  expression := "1"
  boundValues := .empty
  rangeWarning := none

theorem evaluate_fixedLength_one :
    (fixedLength "1").evaluate twoBlanks.parameterValues (some 7850) = .ok lengthOne := by
  with_unfolding_all rfl

/-- What the formulas of the two blanks come to. -/
def twoFindings : Findings where
  advice := []
  outcomes := .empty
  geometry := { Geometry.ofOutcomes .empty with blankDimensions := .ofList [("length", 2)] }

theorem twoBlanks_found : twoBlanks.Found 7850 twoFindings where
  advice := rfl
  outcomes := rfl
  required := rfl
  geometry := by with_unfolding_all rfl

theorem estimateAt_twoBlanks :
    twoBlanks.estimateAt {} {} = .ok (twoBlanks.assemble {} {} 7850 twoFindings) :=
  estimateAt_of_found twoBlanks_computable twoBlanks_found

theorem twoBlanks_length :
    (twoBlanks.assemble {} {} 7850 twoFindings).calculatedValues.blankDimensions
      = .ofList [("length", 2)] := rfl

/-- The length that stands in the map is what some blank reports last. -/
theorem twoBlanks_last :
    ∃ e, twoBlanks.estimateAt {} {} = .ok e
      ∧ e.calculatedValues.blankDimensions.get? "length" = some 2
      ∧ ∃ f r, Reporter.Last (twoBlanks.shape.BlankReports twoBlanks.parameterValues
          (twoBlanks.resolvedDensity {})) "length" f r ∧ r.result = 2 := by
  have hlength : (twoBlanks.assemble {} {} 7850
      twoFindings).calculatedValues.blankDimensions.get? "length" = some 2 := by
    rw [twoBlanks_length]
    decide
  exact ⟨_, estimateAt_twoBlanks, hlength,
    ((estimateAt_composites_last estimateAt_twoBlanks).1.get?_eq "length" 2).1 hlength⟩

/-- The map of the two blanks has the length of the second one only. -/
theorem twoBlanks_overwritten :
    ∃ e, twoBlanks.estimateAt {} {} = .ok e
      ∧ twoBlanks.shape.BlankReports twoBlanks.parameterValues 7850 "a" "length"
          (fixedLength "1") lengthOne
      ∧ e.calculatedValues.blankDimensions.get? "length" ≠ some lengthOne.result := by
  refine ⟨_, estimateAt_twoBlanks, ⟨fixedBlank "1", rfl, ?_, rfl, evaluate_fixedLength_one⟩, ?_⟩
  · intro d hd
    cases List.mem_singleton.1 hd
    exact ⟨lengthOne, evaluate_fixedLength_one⟩
  · rw [twoBlanks_length]
    decide

end EstimateInput

end ShapeEstimator
