/-
  ShapeEstimator.Proofs.Estimate.Composites
  ────────────────────────────────
  **WHAT COMPOSITE ENTRIES REPORT.**

  The composite entries of a shape put values into two maps of the geometry: the
  dimensions of a blank under their names, and formulas for reports under the names
  of entry and formula.  What stands in these maps is what the entries put there,
  entry by entry in name order:

      addComposites  =  putAll ∘ (concatenation of what each entry puts)
-/
import ShapeEstimator.Estimate.Run
import ShapeEstimator.Proofs.Formula.Batch

namespace ShapeEstimator

open Formula (Definition EvaluationResult Kept Outcomes)

/-! ## §1. Putting values into a map. -/

namespace Geometry

theorem putAll_append (m : NameMap Float) (es fs : List (String × Float)) :
    putAll m (es ++ fs) = putAll (putAll m es) fs :=
  List.foldl_append

theorem contains_putAll {es : List (String × Float)} {n : String} :
    ∀ m : NameMap Float, (putAll m es).contains n = true ↔
      m.contains n = true ∨ ∃ v, (n, v) ∈ es := by
  induction es with
  | nil => exact fun m => (or_iff_left fun ⟨_, h⟩ => nomatch h).symm
  | cons head rest ih =>
    obtain ⟨k, w⟩ := head
    intro m
    show (putAll (m.insert k w) rest).contains n = true ↔ _
    rw [ih, NameMap.contains_insert, Bool.or_eq_true, decide_eq_true_iff]
    constructor
    · rintro ((rfl | hm) | ⟨v, hv⟩)
      · exact Or.inr ⟨w, List.mem_cons_self⟩
      · exact Or.inl hm
      · exact Or.inr ⟨v, List.mem_cons_of_mem _ hv⟩
    · rintro (hm | ⟨v, hv⟩)
      · exact Or.inl (Or.inr hm)
      · rcases List.mem_cons.1 hv with hv | hv
        · exact Or.inl (Or.inl (Prod.mk.inj hv).1)
        · exact Or.inr ⟨v, hv⟩

theorem get?_putAll {es : List (String × Float)} {n : String} {v : Float} :
    ∀ m : NameMap Float, (putAll m es).get? n = some v → m.get? n = some v ∨ (n, v) ∈ es := by
  induction es with
  | nil => exact fun m h => Or.inl h
  | cons head rest ih =>
    obtain ⟨k, w⟩ := head
    intro m h
    -- what is found was put last, or stood there before
    rcases ih (m.insert k w) h with hm | hrest
    · rw [NameMap.get?_insert] at hm
      split at hm
      · rename_i hn
        cases hm
        exact Or.inr (hn ▸ List.mem_cons_self)
      · exact Or.inl hm
    · exact Or.inr (List.mem_cons_of_mem _ hrest)

/-! ## §2. What an entry puts. -/

/-- The outcomes of the formulas of an entry, and none where they are aborted. -/
def outcomesOf (context : NameMap Float) (density : Float) (entry : FormulaEntry) : Outcomes :=
  (entry.outcomes context (some density)).toOption.getD .empty

/-- The dimensions that an entry puts. -/
def dimensionsOf (context : NameMap Float) (density : Float) (entry : String × FormulaEntry) :
    List (String × Float) :=
  let o := outcomesOf context density entry.2
  match entry.2 with
  | .blankDimensions _ => if o.failures.entries.isEmpty then values o else []
  | _ => []

/-- The values for reports that an entry puts. -/
def reportsOf (context : NameMap Float) (density : Float) (entry : String × FormulaEntry) :
    List (String × Float) :=
  match entry.2 with
  | .customFormulas _ =>
    (values (outcomesOf context density entry.2)).map fun e => (entry.1 ++ "." ++ e.1, e.2)
  | _ => []

variable {context : NameMap Float} {density : Float}

theorem outcomesOf_eq {entry : FormulaEntry} {o : Outcomes}
    (h : entry.outcomes context (some density) = .ok o) : outcomesOf context density entry = o := by
  unfold outcomesOf
  rw [h]
  rfl

theorem addOutcomes_eq (g : Geometry) (entry : String × FormulaEntry) :
    g.addOutcomes entry (outcomesOf context density entry.2) =
      { g with
        blankDimensions := putAll g.blankDimensions (dimensionsOf context density entry)
        customValues := putAll g.customValues (reportsOf context density entry) } := by
  obtain ⟨name, entry⟩ := entry
  cases entry with
  | formula f => rfl
  | blankDimensions spec =>
    unfold addOutcomes dimensionsOf
    dsimp only
    split <;> rfl
  | customFormulas formulas => rfl

/-- A geometry takes the entries one by one, and none of them is aborted. -/
theorem foldlM_addComposite_eq {entries : List (String × FormulaEntry)} {g g' : Geometry}
    (h : entries.foldlM (addComposite context density) g = .ok g') :
    g' = { g with
      blankDimensions :=
        putAll g.blankDimensions (entries.flatMap (dimensionsOf context density))
      customValues := putAll g.customValues (entries.flatMap (reportsOf context density)) } := by
  induction entries generalizing g with
  | nil =>
    cases h
    rfl
  | cons entry rest ih =>
    obtain ⟨o, ho, h⟩ := foldlM_map_cons_eq_ok_iff.1 h
    rw [ih h, ← outcomesOf_eq ho, addOutcomes_eq, List.flatMap_cons, List.flatMap_cons,
      putAll_append, putAll_append]

/-- The composite entries go through exactly when no formula of one of them is aborted. -/
theorem exists_addComposites_iff {g : Geometry} {s : Shape} :
    (∃ g', g.addComposites s context density = .ok g') ↔
      ∀ e ∈ s.compositeEntries, ∀ f ∈ e.2.subFormulas,
        ¬ Aborts (f.2.evaluate context (some density)) := by
  simp only [← Outcomes.exists_ofFormulas_iff]
  exact exists_foldlM_map_iff

theorem mem_values_iff {formulas : List (String × Definition)} {density : Option Float}
    {o : Outcomes} {name : String} {v : Float}
    (h : Outcomes.ofFormulas formulas context density = .ok o) :
    (name, v) ∈ values o ↔ ∃ f r, Kept context density formulas name f r ∧ r.result = v := by
  unfold values
  rw [List.mem_map]
  constructor
  · rintro ⟨⟨n, r⟩, hmem, hv⟩
    cases hv
    obtain ⟨f, hkept⟩ := (Outcomes.mem_results_ofFormulas h).1 hmem
    exact ⟨f, r, hkept, rfl⟩
  · rintro ⟨f, r, hkept, rfl⟩
    exact ⟨(name, r), (Outcomes.mem_results_ofFormulas h).2 ⟨f, hkept⟩, rfl⟩

end Geometry

/-! ## §3. Reported formulas. -/

namespace Shape

variable {s : Shape} {context : NameMap Float} {density : Float} {key : String} {v : Float}

/-- A formula whose result a blank of the shape puts among the dimensions, under a key.  All
dimensions of this blank have a result. -/
def ReportsDimension (s : Shape) (context : NameMap Float) (density : Float) (key : String)
    (f : Definition) (r : EvaluationResult) : Prop :=
  ∃ name spec, s.formulas.get? name = some (.blankDimensions spec)
    ∧ (∀ d ∈ spec.dimensions.entries, ∃ q, d.2.evaluate context (some density) = .ok q)
    ∧ spec.dimensions.get? key = some f ∧ f.evaluate context (some density) = .ok r

/-- A formula whose result an entry of the shape puts among the values for reports, under a key.  Of
several formulas with one name the last that has a result is put there. -/
def ReportsCustom (s : Shape) (context : NameMap Float) (density : Float) (key : String)
    (f : Definition) (r : EvaluationResult) : Prop :=
  ∃ name formulas sub, s.formulas.get? name = some (.customFormulas formulas)
    ∧ Kept context (some density) (formulas.map fun n => (n.name, n.formula)) sub f r
    ∧ key = name ++ "." ++ sub

/-- A formula whose result the blank of a name puts among the dimensions, under a key. -/
def BlankReports (s : Shape) (context : NameMap Float) (density : Float) (name key : String)
    (f : Definition) (r : EvaluationResult) : Prop :=
  ∃ spec, s.formulas.get? name = some (.blankDimensions spec)
    ∧ (∀ d ∈ spec.dimensions.entries, ∃ q, d.2.evaluate context (some density) = .ok q)
    ∧ spec.dimensions.get? key = some f ∧ f.evaluate context (some density) = .ok r

/-- A formula whose result the entry of a name puts among the values for reports, under a key. -/
def GroupReports (s : Shape) (context : NameMap Float) (density : Float) (name key : String)
    (f : Definition) (r : EvaluationResult) : Prop :=
  ∃ formulas sub, s.formulas.get? name = some (.customFormulas formulas)
    ∧ Kept context (some density) (formulas.map fun n => (n.name, n.formula)) sub f r
    ∧ key = name ++ "." ++ sub

theorem mem_compositeEntries {name : String} {entry : FormulaEntry} :
    (name, entry) ∈ s.compositeEntries ↔
      s.formulas.get? name = some entry ∧ entry.isComposite = true := by
  unfold compositeEntries
  rw [List.mem_filter, NameMap.mem_entries_iff]

theorem mem_dimensionsOf_iff {name : String} {entry : FormulaEntry} {o : Outcomes}
    (hget : s.formulas.get? name = some entry)
    (hrun : entry.outcomes context (some density) = .ok o) :
    (key, v) ∈ Geometry.dimensionsOf context density (name, entry) ↔
      ∃ f r, s.BlankReports context density name key f r ∧ r.result = v := by
  constructor
  · intro hv
    cases entry with
    | formula f => exact absurd hv List.not_mem_nil
    | customFormulas formulas => exact absurd hv List.not_mem_nil
    | blankDimensions spec =>
      unfold Geometry.dimensionsOf at hv
      dsimp only at hv
      rw [Geometry.outcomesOf_eq hrun] at hv
      split at hv
      · -- nothing failed, so all dimensions of this blank have a result
        rename_i hempty
        obtain ⟨f, r, hkept, hr⟩ := (Geometry.mem_values_iff hrun).1 hv
        exact ⟨f, r, ⟨spec, hget, (Outcomes.failures_isEmpty_ofFormulas hrun).1 hempty,
          NameMap.mem_entries_iff.1 hkept.mem, hkept.evaluate_eq⟩, hr⟩
      · exact absurd hv List.not_mem_nil
  · rintro ⟨f, r, ⟨spec, hspec, hresolved, hf, hr⟩, hv⟩
    cases hget.symm.trans hspec
    unfold Geometry.dimensionsOf
    dsimp only
    rw [Geometry.outcomesOf_eq hrun,
      if_pos ((Outcomes.failures_isEmpty_ofFormulas hrun).2 hresolved)]
    -- the dimensions of a blank have different names
    have hkept : Kept context (some density) spec.dimensions.entries key f r :=
      .of_mem spec.dimensions.names_distinct (NameMap.mem_entries_iff.2 hf) hr
    exact (Geometry.mem_values_iff hrun).2 ⟨f, r, hkept, hv⟩

theorem mem_reportsOf_iff {name : String} {entry : FormulaEntry} {o : Outcomes}
    (hget : s.formulas.get? name = some entry)
    (hrun : entry.outcomes context (some density) = .ok o) :
    (key, v) ∈ Geometry.reportsOf context density (name, entry) ↔
      ∃ f r, s.GroupReports context density name key f r ∧ r.result = v := by
  constructor
  · intro hv
    cases entry with
    | formula f => exact absurd hv List.not_mem_nil
    | blankDimensions spec => exact absurd hv List.not_mem_nil
    | customFormulas formulas =>
      unfold Geometry.reportsOf at hv
      dsimp only at hv
      rw [Geometry.outcomesOf_eq hrun] at hv
      obtain ⟨⟨sub, w⟩, hw, h⟩ := List.mem_map.1 hv
      cases h
      obtain ⟨f, r, hkept, hr⟩ := (Geometry.mem_values_iff hrun).1 hw
      exact ⟨f, r, ⟨formulas, sub, hget, hkept, rfl⟩, hr⟩
  · rintro ⟨f, r, ⟨formulas, sub, hformulas, hkept, rfl⟩, hv⟩
    cases hget.symm.trans hformulas
    unfold Geometry.reportsOf
    dsimp only
    rw [Geometry.outcomesOf_eq hrun]
    exact List.mem_map.2 ⟨(sub, v), (Geometry.mem_values_iff hrun).2 ⟨f, r, hkept, hv⟩, rfl⟩

/-- The outcomes of each composite entry that a geometry has taken. -/
theorem exists_outcomes_of_addComposites {g g' : Geometry} {name : String} {entry : FormulaEntry}
    (hrun : g.addComposites s context density = .ok g')
    (hentry : (name, entry) ∈ s.compositeEntries) :
    ∃ o, entry.outcomes context (some density) = .ok o :=
  exists_foldlM_map_iff.1 ⟨g', hrun⟩ _ hentry

theorem mem_dimensions_iff {g g' : Geometry} (hrun : g.addComposites s context density = .ok g') :
    (key, v) ∈ s.compositeEntries.flatMap (Geometry.dimensionsOf context density) ↔
      ∃ f r, s.ReportsDimension context density key f r ∧ r.result = v := by
  rw [List.mem_flatMap]
  constructor
  · rintro ⟨⟨name, entry⟩, hentry, hv⟩
    obtain ⟨o, ho⟩ := exists_outcomes_of_addComposites hrun hentry
    obtain ⟨f, r, hf, hr⟩ := (mem_dimensionsOf_iff (mem_compositeEntries.1 hentry).1 ho).1 hv
    exact ⟨f, r, ⟨name, hf⟩, hr⟩
  · rintro ⟨f, r, ⟨name, spec, hf⟩, hv⟩
    have hentry : (name, .blankDimensions spec) ∈ s.compositeEntries :=
      mem_compositeEntries.2 ⟨hf.1, rfl⟩
    obtain ⟨o, ho⟩ := exists_outcomes_of_addComposites hrun hentry
    exact ⟨_, hentry, (mem_dimensionsOf_iff hf.1 ho).2 ⟨f, r, ⟨spec, hf⟩, hv⟩⟩

theorem mem_reports_iff {g g' : Geometry} (hrun : g.addComposites s context density = .ok g') :
    (key, v) ∈ s.compositeEntries.flatMap (Geometry.reportsOf context density) ↔
      ∃ f r, s.ReportsCustom context density key f r ∧ r.result = v := by
  rw [List.mem_flatMap]
  constructor
  · rintro ⟨⟨name, entry⟩, hentry, hv⟩
    obtain ⟨o, ho⟩ := exists_outcomes_of_addComposites hrun hentry
    obtain ⟨f, r, hf, hr⟩ := (mem_reportsOf_iff (mem_compositeEntries.1 hentry).1 ho).1 hv
    exact ⟨f, r, ⟨name, hf⟩, hr⟩
  · rintro ⟨f, r, ⟨name, formulas, sub, hf⟩, hv⟩
    have hentry : (name, .customFormulas formulas) ∈ s.compositeEntries :=
      mem_compositeEntries.2 ⟨hf.1, rfl⟩
    obtain ⟨o, ho⟩ := exists_outcomes_of_addComposites hrun hentry
    exact ⟨_, hentry, (mem_reportsOf_iff hf.1 ho).2 ⟨f, r, ⟨formulas, sub, hf⟩, hv⟩⟩

end Shape

/-! ## §4. The two maps. -/

namespace Geometry

variable {s : Shape} {context : NameMap Float} {density : Float} {o : Outcomes} {key : String}

/-- A map into which the results of formulas are put, each under a key, has these keys, and under
each key the result of one of its formulas. -/
theorem putAll_results {es : List (String × Float)}
    {R : String → Definition → EvaluationResult → Prop}
    (hes : ∀ key v, (key, v) ∈ es ↔ ∃ f r, R key f r ∧ r.result = v) :
    ((putAll .empty es).contains key = true ↔ ∃ f r, R key f r)
      ∧ ∀ v, (putAll .empty es).get? key = some v → ∃ f r, R key f r ∧ r.result = v := by
  constructor
  · rw [contains_putAll]
    constructor
    · rintro (h | ⟨v, hv⟩)
      · exact nomatch h
      · obtain ⟨f, r, hf, _⟩ := (hes key v).1 hv
        exact ⟨f, r, hf⟩
    · rintro ⟨f, r, hf⟩
      exact Or.inr ⟨r.result, (hes key r.result).2 ⟨f, r, hf, rfl⟩⟩
  · intro v h
    rcases get?_putAll _ h with h | h
    · exact nomatch h
    · exact (hes key v).1 h

/-- What stands in the two maps is what the composite entries put there. -/
theorem eq_of_addComposites {g' : Geometry}
    (h : (ofOutcomes o).addComposites s context density = .ok g') :
    g' = { ofOutcomes o with
      blankDimensions :=
        putAll .empty (s.compositeEntries.flatMap (dimensionsOf context density))
      customValues := putAll .empty (s.compositeEntries.flatMap (reportsOf context density)) } :=
  foldlM_addComposite_eq h

/-- **What the dimensions of the blank are.**  Under the keys of the formulas that blanks report
stands the result of one of these. -/
theorem blankDimensions_addComposites {g' : Geometry}
    (h : (ofOutcomes o).addComposites s context density = .ok g') :
    (g'.blankDimensions.contains key = true ↔
      ∃ f r, s.ReportsDimension context density key f r)
    ∧ ∀ v, g'.blankDimensions.get? key = some v →
      ∃ f r, s.ReportsDimension context density key f r ∧ r.result = v := by
  rw [eq_of_addComposites h]
  exact putAll_results fun _ _ => Shape.mem_dimensions_iff h

/-- **What the values for reports are.**  Under the keys of the formulas that entries report stands
the result of one of these. -/
theorem customValues_addComposites {g' : Geometry}
    (h : (ofOutcomes o).addComposites s context density = .ok g') :
    (g'.customValues.contains key = true ↔
      ∃ f r, s.ReportsCustom context density key f r)
    ∧ ∀ v, g'.customValues.get? key = some v →
      ∃ f r, s.ReportsCustom context density key f r ∧ r.result = v := by
  rw [eq_of_addComposites h]
  exact putAll_results fun _ _ => Shape.mem_reports_iff h

end Geometry

end ShapeEstimator
