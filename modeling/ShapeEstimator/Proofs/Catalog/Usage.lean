/-
  ShapeEstimator.Proofs.Catalog.Usage
  ────────────────────────────────
  **WHAT THE CHECK OF USAGE LISTS PROMISES.**

  A parameter may list the entries that use it.  The check of a shape compares such a
  list with the formulas twice: each entry that uses the parameter is looked up in the
  list, and each entry of the list is looked up in the shape.  So for a list in a shape
  without findings

      entries that use the parameter  ⊆  listed entries  ⊆  entries of the shape

  and no more: an entry that is listed need not use the parameter.  The density is no
  parameter to a formula, so a parameter of that name counts as used by none.
-/
import ShapeEstimator.Proofs.Catalog.Authoring

namespace ShapeEstimator

open Formula (Compiled Definition)

/-! ## §1. Uses. -/

/-- A formula can be read, and a variable stands in it. -/
def Formula.Definition.Uses (f : Definition) (name : String) : Prop :=
  ∃ c, Compiled.ofSource f.expression = .ok c ∧ name ∈ c.freeVariables

instance (f : Definition) (name : String) : Decidable (f.Uses name) :=
  match hsource : Compiled.ofSource f.expression with
  | .ok c => decidable_of_iff (name ∈ c.freeVariables)
      ⟨fun hname => ⟨c, hsource, hname⟩,
        fun ⟨_, hc, hname⟩ => Except.ok.inj (hsource.symm.trans hc) ▸ hname⟩
  | .error _ => isFalse fun ⟨_, hc, _⟩ => nomatch hsource.symm.trans hc

/-- An entry has a formula, plain or one of several, that uses a variable. -/
def FormulaEntry.Uses (e : FormulaEntry) (name : String) : Prop :=
  ∃ f ∈ e.subFormulas, f.2.Uses name

instance (e : FormulaEntry) (name : String) : Decidable (e.Uses name) :=
  inferInstanceAs (Decidable (∃ f ∈ e.subFormulas, f.2.Uses name))

namespace Shape

variable {s : Shape} {f : Definition} {p : Parameter} {name : String}

/-- An entry of a shape uses a variable. -/
def EntryUses (s : Shape) (entry name : String) : Prop :=
  ∃ e ∈ s.formulas.get? entry, e.Uses name

instance (s : Shape) (entry name : String) : Decidable (s.EntryUses entry name) :=
  inferInstanceAs (Decidable (∃ e ∈ s.formulas.get? entry, e.Uses name))

/-- The list of a parameter names exactly the entries that use the parameter. -/
def ListsUsersExactly (s : Shape) (p : Parameter) : Prop :=
  ∀ entry, entry ∈ p.usedInFormulas ↔ s.EntryUses entry p.name

/-- The list of a parameter names entries of the shape only.  If it names any, it names all that
use the parameter, unless this has the name of the density. -/
structure ListsUsers (s : Shape) (p : Parameter) : Prop where
  /-- What is listed stands in the shape. -/
  listed : ∀ entry ∈ p.usedInFormulas, s.formulas.contains entry = true
  /-- What uses the parameter is listed. -/
  using_listed : p.usedInFormulas ≠ [] → p.name ≠ Formula.densityVariable →
    ∀ entry, s.EntryUses entry p.name → entry ∈ p.usedInFormulas

/-- A formula computes from the parameters and the density, and declares nothing besides what it
uses. -/
structure Fits (s : Shape) (f : Definition) : Prop extends s.Provides f where
  /-- What is declared is used. -/
  uses : ∀ name ∈ f.declared, f.Uses name

/-- A formula that fits declares what it uses. -/
theorem Fits.mem_declared_iff (h : s.Fits f) : name ∈ f.declared ↔ f.Uses name := by
  refine ⟨h.uses name, ?_⟩
  rintro ⟨c, hc, hname⟩
  obtain ⟨c', hc', hdeclared⟩ := h.reads
  obtain rfl : c = c' := Except.ok.inj (hc.symm.trans hc')
  exact hdeclared name hname

/-! ## §2. Findings about formulas. -/

/-- The formulas with a label are those of the entries. -/
theorem mem_labelledFormulas {l : LabelledFormula} (hl : l ∈ s.labelledFormulas) :
    ∃ e sub, s.formulas.get? l.entry = some e ∧ (sub, l.formula) ∈ e.subFormulas := by
  unfold labelledFormulas at hl
  rw [List.mem_flatMap] at hl
  obtain ⟨⟨name, e⟩, he, hl⟩ := hl
  obtain ⟨⟨sub, f⟩, hf, rfl⟩ := List.mem_map.1 hl
  exact ⟨e, sub, NameMap.mem_entries_iff.1 he, hf⟩

/-- Every formula of an entry has a label. -/
theorem exists_labelled {entry sub : String} {e : FormulaEntry}
    (he : s.formulas.get? entry = some e) (hf : (sub, f) ∈ e.subFormulas) :
    ∃ l ∈ s.labelledFormulas, l.entry = entry ∧ l.formula = f := by
  unfold labelledFormulas
  refine ⟨⟨entry, if sub.isEmpty then entry else entry ++ "." ++ sub, f⟩, ?_, rfl, rfl⟩
  rw [List.mem_flatMap]
  exact ⟨(entry, e), NameMap.mem_entries_iff.2 he, List.mem_map.2 ⟨(sub, f), hf, rfl⟩⟩

/-- Nothing is found about a formula exactly where it fits. -/
theorem formulaIssues_eq_nil_iff {l : LabelledFormula} :
    s.formulaIssues l = [] ↔ s.Fits l.formula := by
  constructor
  · intro h
    -- nothing that is found says in particular that no gap is
    have hprovides : s.Provides l.formula :=
      provides_of_formulaIssues fun issue hissue =>
        absurd hissue (by rw [h]; exact List.not_mem_nil)
    refine ⟨hprovides, fun name hname => ?_⟩
    unfold formulaIssues at h
    split at h
    · exact nomatch h
    · rename_i check hcheck
      obtain ⟨c, hc, _, hunused⟩ := checkVariables_eq_ok hcheck
      have hnone :=
        List.map_eq_nil_iff.1 (List.append_eq_nil_iff.1 (List.append_eq_nil_iff.1 h).1).2
      rw [hunused, List.filter_eq_nil_iff] at hnone
      exact ⟨c, hc, by simpa using hnone name hname⟩
  · intro h
    obtain ⟨c, hc, hused⟩ := h.reads
    have hcheck : l.formula.checkVariables
        = .ok ⟨c.freeVariables.filter (· ∉ l.formula.declared),
            l.formula.declared.filter (· ∉ c.freeVariables)⟩ := by
      unfold Definition.checkVariables Formula.extractVariables
      rw [hc]
      rfl
    have hundeclared : c.freeVariables.filter (· ∉ l.formula.declared) = [] := by
      rw [List.filter_eq_nil_iff]
      intro name hname
      simpa using hused name hname
    have hunused : l.formula.declared.filter (· ∉ c.freeVariables) = [] := by
      rw [List.filter_eq_nil_iff]
      intro name hname
      obtain ⟨c', hc', hfree⟩ := h.uses name hname
      obtain rfl : c = c' := Except.ok.inj (hc.symm.trans hc')
      simpa using hfree
    have hunknown : ((declaredParameters l.formula).filter fun v => !s.hasParameter v) = [] := by
      rw [List.filter_eq_nil_iff]
      intro name hname
      obtain ⟨hdeclared, hdensity⟩ := List.mem_filter.1 hname
      have hparameter := (h.declares name hdeclared).resolve_left (of_decide_eq_true hdensity)
      rw [hasParameter_iff.2 hparameter]
      exact Bool.false_ne_true
    unfold formulaIssues
    rw [hcheck]
    dsimp only
    rw [hundeclared, hunused, hunknown]
    rfl

/-! ## §3. Findings about lists. -/

theorem mem_dropRepeats {x : String} {xs : List String} : x ∈ dropRepeats xs ↔ x ∈ xs := by
  fun_induction dropRepeats xs with
  | case1 => rfl
  | case2 y => rfl
  | case3 y rest ih =>
    rw [ih, List.mem_cons (b := y) (l := y :: rest)]
    exact ⟨Or.inr, fun h => h.elim (fun hy => hy ▸ List.mem_cons_self) fun hx => hx⟩
  | case4 y z rest hne ih => rw [List.mem_cons, ih, List.mem_cons (b := y)]

theorem mem_usesOf {l : LabelledFormula} {entry : String} (h : s.Fits l.formula) :
    entry ∈ usesOf name l ↔
      entry = l.entry ∧ name ≠ Formula.densityVariable ∧ l.formula.Uses name := by
  obtain ⟨c, hc, _⟩ := h.reads
  have hcheck : ∃ check, l.formula.checkVariables = .ok check := by
    unfold Definition.checkVariables Formula.extractVariables
    rw [hc]
    exact ⟨_, rfl⟩
  obtain ⟨check, hcheck⟩ := hcheck
  unfold usesOf
  rw [hcheck, ← h.mem_declared_iff]
  dsimp only
  rw [List.mem_map]
  unfold declaredParameters
  constructor
  · rintro ⟨n, hn, rfl⟩
    obtain ⟨hn, heq⟩ := List.mem_filter.1 hn
    obtain ⟨hdeclared, hdensity⟩ := List.mem_filter.1 hn
    obtain rfl : n = name := eq_of_beq heq
    exact ⟨rfl, of_decide_eq_true hdensity, hdeclared⟩
  · rintro ⟨rfl, hdensity, hdeclared⟩
    exact ⟨name, List.mem_filter.2 ⟨List.mem_filter.2 ⟨hdeclared, decide_eq_true hdensity⟩,
      beq_self_eq_true name⟩, rfl⟩

/-- Where all formulas fit, the entries that count as using a name are those that use it, and none
for the density. -/
theorem mem_usingEntries_iff (h : ∀ f, s.HasFormula f → s.Fits f) {entry : String} :
    entry ∈ s.usingEntries name ↔ name ≠ Formula.densityVariable ∧ s.EntryUses entry name := by
  have hfits : ∀ l ∈ s.labelledFormulas, s.Fits l.formula := by
    intro l hl
    obtain ⟨e, sub, he, hf⟩ := mem_labelledFormulas hl
    exact h l.formula ⟨l.entry, e, sub, he, hf⟩
  unfold usingEntries
  rw [mem_dropRepeats, List.mem_flatMap]
  constructor
  · rintro ⟨l, hl, hentry⟩
    obtain ⟨rfl, hdensity, huses⟩ := (mem_usesOf (hfits l hl)).1 hentry
    obtain ⟨e, sub, he, hf⟩ := mem_labelledFormulas hl
    exact ⟨hdensity, e, he, (sub, l.formula), hf, huses⟩
  · rintro ⟨hdensity, e, he, ⟨sub, f⟩, hf, huses⟩
    obtain ⟨l, hl, rfl, rfl⟩ := exists_labelled he hf
    exact ⟨l, hl, (mem_usesOf (hfits l hl)).2 ⟨rfl, hdensity, huses⟩⟩

/-- Nothing is found about the list of a parameter exactly where it names the users. -/
theorem usageIssues_eq_nil_iff (h : ∀ f, s.HasFormula f → s.Fits f) :
    s.usageIssues p = [] ↔ s.ListsUsers p := by
  have hlisted : (p.usedInFormulas.filter fun entry => !s.formulas.contains entry) = []
      ↔ ∀ entry ∈ p.usedInFormulas, s.formulas.contains entry = true := by
    rw [List.filter_eq_nil_iff]
    simp
  have husing : ((s.usingEntries p.name).filter (· ∉ p.usedInFormulas)) = []
      ↔ (p.name ≠ Formula.densityVariable →
          ∀ entry, s.EntryUses entry p.name → entry ∈ p.usedInFormulas) := by
    rw [List.filter_eq_nil_iff]
    constructor
    · intro hall hdensity entry huses
      simpa using hall entry ((mem_usingEntries_iff h).2 ⟨hdensity, huses⟩)
    · intro hall entry hentry
      obtain ⟨hdensity, huses⟩ := (mem_usingEntries_iff h).1 hentry
      simpa using hall hdensity entry huses
  unfold usageIssues
  rw [List.append_eq_nil_iff, List.map_eq_nil_iff, hlisted]
  by_cases hempty : p.usedInFormulas = []
  · rw [hempty]
    refine iff_of_true ⟨fun entry hentry => absurd hentry List.not_mem_nil, rfl⟩ ⟨?_, ?_⟩
    · rw [hempty]
      exact fun entry hentry => absurd hentry List.not_mem_nil
    · exact fun hne => absurd hempty hne
  · rw [if_neg (by rwa [List.isEmpty_iff]), List.map_eq_nil_iff, husing]
    exact ⟨fun ⟨hl, hu⟩ => ⟨hl, fun _ => hu⟩,
      fun hlists => ⟨hlists.listed, hlists.using_listed hempty⟩⟩

/-! ## §4. Shapes without findings. -/

/-- **When nothing is found in a shape.**  Every formula, plain or one of several, computes from
parameters and density and declares what it uses; and the list of every parameter names entries of
the shape only, and if any, then all that use the parameter, except for a parameter named as the
density. -/
theorem consistencyIssues_eq_nil_iff : s.consistencyIssues = [] ↔
    (∀ f, s.HasFormula f → s.Fits f) ∧ ∀ p ∈ s.parameters, s.ListsUsers p := by
  have hformulas : (∀ l ∈ s.labelledFormulas, s.formulaIssues l = [])
      ↔ ∀ f, s.HasFormula f → s.Fits f := by
    constructor
    · rintro h f hf
      obtain ⟨l, hl, rfl⟩ := hf.labelled
      exact formulaIssues_eq_nil_iff.1 (h l hl)
    · intro h l hl
      obtain ⟨e, sub, he, hf⟩ := mem_labelledFormulas hl
      exact formulaIssues_eq_nil_iff.2 (h l.formula ⟨l.entry, e, sub, he, hf⟩)
  unfold consistencyIssues
  rw [List.append_eq_nil_iff, List.flatMap_eq_nil_iff, List.flatMap_eq_nil_iff, hformulas]
  exact and_congr_right fun hfits =>
    forall_congr' fun p => imp_congr_right fun _ => usageIssues_eq_nil_iff hfits

/-- A parameter of a sheet, with the entries that are said to use it. -/
def sheetParameter (name : String) (entries : List String) : Parameter :=
  (Parameter.numeric name name "mm").usedIn entries

/-- A sheet whose width is said to be used in its edge, and whose weight, but not its mass per area,
is said to use the density. -/
def sheet : Shape :=
  { key := "sheet", name := "Sheet", category := .rectangularPlate
    parameters :=
      [sheetParameter "L" [], sheetParameter "W" ["area", "edge", "weight"],
        sheetParameter "density" ["weight"]]
    formulas := .ofList
      [("area", .formula { expression := "L*W", declared := ["L", "W"], unit := "mm²" }),
        ("edge", .formula { expression := "L", declared := ["L"], unit := "mm" }),
        ("massPerArea",
          .formula { expression := "2*density", declared := ["density"], unit := "kg" }),
        ("weight", .formula
          { expression := "L*W*density", declared := ["L", "W", "density"], unit := "kg" })] }

/-- Nothing is found in the sheet.  Yet an entry that does not use its width is listed there, and
one that uses the density is not listed at the parameter of that name. -/
theorem sheet_lists_not_exact : sheet.consistencyIssues = []
    ∧ (sheetParameter "W" ["area", "edge", "weight"] ∈ sheet.parameters
      ∧ ¬ sheet.EntryUses "edge" "W"
      ∧ ¬ sheet.ListsUsersExactly (sheetParameter "W" ["area", "edge", "weight"]))
    ∧ (sheetParameter "density" ["weight"] ∈ sheet.parameters
      ∧ sheet.EntryUses "massPerArea" "density"
      ∧ ¬ sheet.ListsUsersExactly (sheetParameter "density" ["weight"])) := by
  have hedge : ¬ sheet.EntryUses "edge" "W" := by decide +kernel
  have hmass : sheet.EntryUses "massPerArea" "density" := by decide +kernel
  refine ⟨by decide +kernel, ⟨by decide, hedge, fun hexact => ?_⟩, by decide, hmass,
    fun hexact => ?_⟩
  · exact hedge ((hexact "edge").1 (by decide))
  · exact absurd ((hexact "massPerArea").2 hmass) (by decide)

end Shape

end ShapeEstimator
