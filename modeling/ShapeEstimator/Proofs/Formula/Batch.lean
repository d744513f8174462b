/-
  ShapeEstimator.Proofs.Formula.Batch
  ────────────────────────────────
  **WHAT A BATCH KEEPS.**

  Each formula of a batch is evaluated for itself.  Under a name stands the result of
  the last formula of that name that has one, and a name is among the failures when
  some formula of that name fails:

      (n, r) ∈ results   ↔  ∃ f, Kept formulas n f r
      n ∈ failures       ↔  ∃ f fault, (n, f) ∈ formulas ∧ f fails with fault

  There is a batch to speak of exactly when none of its formulas is aborted.
-/
import ShapeEstimator.Formula.Outcomes

namespace ShapeEstimator.Formula

variable {context : NameMap Float} {density : Option Float}
variable {formulas : List (String × Definition)} {name : String} {f : Definition}
variable {r : EvaluationResult}

/-! ## §1. One formula. -/

/-- A result is the value of the expression that was read, with the warning for this value. -/
theorem Definition.exists_of_evaluate (h : f.evaluate context density = .ok r) :
    ∃ c, Compiled.ofSource f.expression = .ok c
      ∧ c.evaluate (resolve context density) = .ok r.result
      ∧ r.rangeWarning = f.rangeWarning? r.result := by
  unfold evaluate at h
  split at h
  · rename_i result houtcome
    cases h
    -- the result is made in the last step, where the variables are bound and the value is there
    unfold outcome at houtcome
    split at houtcome
    · split at houtcome
      · exact nomatch houtcome
      · rename_i c hc
        split at houtcome
        · exact nomatch houtcome
        · rename_i hvalue
          cases houtcome
          exact ⟨c, hc, hvalue, rfl⟩
    · exact nomatch houtcome
  · exact nomatch h

/-- A result carries the warning that the formula has for its value. -/
theorem Definition.rangeWarning_of_evaluate (h : f.evaluate context density = .ok r) :
    r.rangeWarning = f.rangeWarning? r.result := by
  obtain ⟨_, _, _, hwarning⟩ := exists_of_evaluate h
  exact hwarning

/-! ## §2. Kept results. -/

/-- No formula of a name has a result. -/
def NoneSucceeds (context : NameMap Float) (density : Option Float)
    (formulas : List (String × Definition)) (name : String) : Prop :=
  ∀ g, (name, g) ∈ formulas → ∀ q, g.evaluate context density ≠ .ok q

theorem noneSucceeds_cons {n : String} {g : Definition} {rest : List (String × Definition)} :
    NoneSucceeds context density ((n, g) :: rest) name ↔
      (name = n → ∀ q, g.evaluate context density ≠ .ok q)
        ∧ NoneSucceeds context density rest name := by
  constructor
  · intro h
    refine ⟨?_, fun a ha => h a (List.mem_cons_of_mem _ ha)⟩
    rintro rfl
    exact h g List.mem_cons_self
  · rintro ⟨hhead, hrest⟩ a ha
    rcases List.mem_cons.1 ha with ha | ha
    · cases ha
      exact hhead rfl
    · exact hrest a ha

/-- A formula whose result a batch keeps under a name: the last of that name that has one. -/
inductive Kept (context : NameMap Float) (density : Option Float) :
    List (String × Definition) → String → Definition → EvaluationResult → Prop where
  | last {name : String} {f : Definition} {r : EvaluationResult} {rest : List (String × Definition)}
      (result : f.evaluate context density = .ok r)
      (latest : NoneSucceeds context density rest name) :
      Kept context density ((name, f) :: rest) name f r
  | later {head : String × Definition} {rest : List (String × Definition)} {name : String}
      {f : Definition} {r : EvaluationResult} (kept : Kept context density rest name f r) :
      Kept context density (head :: rest) name f r

namespace Kept

theorem mem (h : Kept context density formulas name f r) : (name, f) ∈ formulas := by
  induction h with
  | last _ _ => exact List.mem_cons_self
  | later _ ih => exact List.mem_cons_of_mem _ ih

theorem evaluate_eq (h : Kept context density formulas name f r) :
    f.evaluate context density = .ok r := by
  induction h with
  | last result _ => exact result
  | later _ ih => exact ih

/-- Under a name one result is kept. -/
theorem unique {g : Definition} {q : EvaluationResult} (h : Kept context density formulas name f r)
    (h' : Kept context density formulas name g q) : r = q := by
  induction h with
  | last result latest =>
    cases h' with
    | last result' _ => exact Except.ok.inj (result.symm.trans result')
    | later kept => exact absurd kept.evaluate_eq (latest g kept.mem q)
  | later kept ih =>
    cases h' with
    | last result latest => exact absurd kept.evaluate_eq (latest _ kept.mem _)
    | later kept' => exact ih kept'

/-- Where no two formulas have one name, every result is kept. -/
theorem of_mem (hnames : formulas.Pairwise fun a b => a.1 ≠ b.1) (hmem : (name, f) ∈ formulas)
    (hr : f.evaluate context density = .ok r) : Kept context density formulas name f r := by
  induction formulas with
  | nil => exact absurd hmem List.not_mem_nil
  | cons head rest ih =>
    obtain ⟨hhead, hrest⟩ := List.pairwise_cons.1 hnames
    rcases List.mem_cons.1 hmem with rfl | hmem
    · -- nothing behind it has its name
      exact .last hr fun g hg => absurd rfl (hhead (name, g) hg)
    · exact .later (ih hrest hmem)

/-- Where a formula of a name has a result, one of this name is kept. -/
theorem exists_of_mem (hmem : (name, f) ∈ formulas) (hr : f.evaluate context density = .ok r) :
    ∃ g q, Kept context density formulas name g q := by
  induction formulas generalizing f r with
  | nil => exact absurd hmem List.not_mem_nil
  | cons head rest ih =>
    by_cases hlater : ∃ g q, Kept context density rest name g q
    · obtain ⟨g, q, hkept⟩ := hlater
      exact ⟨g, q, .later hkept⟩
    · rcases List.mem_cons.1 hmem with rfl | hmem
      · -- nothing behind it is kept, so nothing of its name behind it has a result
        refine ⟨f, r, .last hr ?_⟩
        intro g hg q hq
        exact hlater (ih hg hq)
      · exact absurd (ih hmem hr) hlater

theorem exists_cons {n : String} {g : Definition} {rest : List (String × Definition)} :
    (∃ f, Kept context density ((n, g) :: rest) name f r) ↔
      (∃ f, Kept context density rest name f r)
        ∨ (name = n ∧ g.evaluate context density = .ok r
          ∧ NoneSucceeds context density rest name) := by
  constructor
  · rintro ⟨f, h⟩
    cases h with
    | last result latest => exact Or.inr ⟨rfl, result, latest⟩
    | later kept => exact Or.inl ⟨f, kept⟩
  · rintro (⟨f, hkept⟩ | ⟨rfl, hresult, hlatest⟩)
    · exact ⟨f, .later hkept⟩
    · exact ⟨g, .last hresult hlatest⟩

end Kept

namespace Outcomes

/-! ## §3. Batches that go through. -/

/-- A batch goes on from outcomes `o` once its first formula is evaluated and not aborted. -/
theorem foldlM_addFormula_cons {o after : Outcomes} {head : String × Definition}
    {rest : List (String × Definition)} :
    (head :: rest).foldlM (addFormula context density) o = .ok after ↔
      ∃ x, caught (head.2.evaluate context density) = .ok x
        ∧ rest.foldlM (addFormula context density) (o.add head.1 x) = .ok after :=
  foldlM_map_cons_eq_ok_iff

/-- **A batch goes through exactly when none of its formulas is aborted.** -/
theorem exists_ofFormulas_iff :
    (∃ o, ofFormulas formulas context density = .ok o) ↔
      ∀ e ∈ formulas, ¬ Aborts (e.2.evaluate context density) := by
  simp only [← exists_caught_iff]
  exact exists_foldlM_map_iff

/-! ## §4. Results. -/

theorem get?_results_add {o : Outcomes} {n : String} {x : Except Fault EvaluationResult} :
    (o.add n x).results.get? name = some r ↔
      (name = n ∧ x = .ok r) ∨ (o.results.get? name = some r ∧ (name = n → ∀ q, x ≠ .ok q)) := by
  cases x with
  | error fault =>
    -- a failure leaves the results alone
    show o.results.get? name = some r ↔ _
    constructor
    · intro h
      exact Or.inr ⟨h, fun _ _ => nofun⟩
    · rintro (⟨_, h⟩ | ⟨h, _⟩)
      · exact nomatch h
      · exact h
  | ok q =>
    show (o.results.insert n q).get? name = some r ↔ _
    rw [NameMap.get?_insert]
    by_cases hn : name = n
    · -- a new result takes the place of an earlier one
      rw [if_pos hn, Option.some.injEq]
      constructor
      · rintro rfl
        exact Or.inl ⟨hn, rfl⟩
      · rintro (⟨_, h⟩ | ⟨_, h⟩)
        · exact Except.ok.inj h
        · exact absurd rfl (h hn q)
    · rw [if_neg hn]
      constructor
      · intro h
        exact Or.inr ⟨h, fun hn' => absurd hn' hn⟩
      · rintro (⟨hn', _⟩ | ⟨h, _⟩)
        · exact absurd hn' hn
        · exact h

/-- Going on from outcomes `o`, a name has the result that is kept of the formulas, or that of `o`
if none of the formulas of this name has one. -/
theorem get?_results_foldlM {o after : Outcomes}
    (h : formulas.foldlM (addFormula context density) o = .ok after) :
    after.results.get? name = some r ↔
      (∃ f, Kept context density formulas name f r)
        ∨ (o.results.get? name = some r ∧ NoneSucceeds context density formulas name) := by
  induction formulas generalizing o with
  | nil =>
    cases h
    constructor
    · intro h
      exact Or.inr ⟨h, fun g hg => absurd hg List.not_mem_nil⟩
    · rintro (⟨f, hf⟩ | ⟨h, _⟩)
      · exact nomatch hf
      · exact h
  | cons head rest ih =>
    obtain ⟨n, g⟩ := head
    obtain ⟨x, hx, h⟩ := foldlM_addFormula_cons.1 h
    simp only [ih h, get?_results_add, Kept.exists_cons, noneSucceeds_cons, ne_eq,
      ok_iff_of_caught hx]
    -- a name that is kept further on is decided there; otherwise the head decides it, or `o` does
    constructor
    · rintro (hkept | ⟨⟨hn, hg⟩ | ⟨ho, hg⟩, hrest⟩)
      · exact Or.inl (Or.inl hkept)
      · exact Or.inl (Or.inr ⟨hn, hg, hrest⟩)
      · exact Or.inr ⟨ho, hg, hrest⟩
    · rintro ((hkept | ⟨hn, hg, hrest⟩) | ⟨ho, hg, hrest⟩)
      · exact Or.inl hkept
      · exact Or.inr ⟨Or.inl ⟨hn, hg⟩, hrest⟩
      · exact Or.inr ⟨Or.inr ⟨ho, hg⟩, hrest⟩

/-- **What a batch keeps.** -/
theorem mem_results_ofFormulas {o : Outcomes} (h : ofFormulas formulas context density = .ok o) :
    (name, r) ∈ o.results.entries ↔ ∃ f, Kept context density formulas name f r := by
  rw [NameMap.mem_entries_iff, get?_results_foldlM h]
  exact or_iff_left fun h => nomatch h.1

/-! ## §5. Failures. -/

theorem contains_failures_add {o : Outcomes} {n : String} {x : Except Fault EvaluationResult} :
    (o.add n x).failures.contains name = true ↔
      o.failures.contains name = true ∨ (name = n ∧ ∃ fault, x = .error fault) := by
  cases x with
  | ok q => exact (or_iff_left fun ⟨_, _, h⟩ => nomatch h).symm
  | error fault =>
    show (o.failures.insert n fault).contains name = true ↔ _
    rw [NameMap.contains_insert, Bool.or_eq_true, decide_eq_true_iff, or_comm]
    exact or_congr_right (and_iff_left ⟨fault, rfl⟩).symm

/-- Going on from outcomes `o`, a name is among the failures if it is among those of `o`, or if some
formula of this name fails. -/
theorem contains_failures_foldlM {o after : Outcomes}
    (h : formulas.foldlM (addFormula context density) o = .ok after) :
    after.failures.contains name = true ↔
      o.failures.contains name = true
        ∨ ∃ f fault, (name, f) ∈ formulas
          ∧ f.evaluate context density = .error (.failure fault) := by
  induction formulas generalizing o with
  | nil =>
    cases h
    exact (or_iff_left fun ⟨_, _, h, _⟩ => nomatch h).symm
  | cons head rest ih =>
    obtain ⟨n, g⟩ := head
    obtain ⟨x, hx, h⟩ := foldlM_addFormula_cons.1 h
    simp only [ih h, contains_failures_add, error_iff_of_caught hx]
    constructor
    · rintro ((ho | ⟨rfl, fault, hg⟩) | ⟨f, fault, hf, hfault⟩)
      · exact Or.inl ho
      · exact Or.inr ⟨g, fault, List.mem_cons_self, hg⟩
      · exact Or.inr ⟨f, fault, List.mem_cons_of_mem _ hf, hfault⟩
    · rintro (ho | ⟨f, fault, hf, hfault⟩)
      · exact Or.inl (Or.inl ho)
      · rcases List.mem_cons.1 hf with hf | hf
        · cases hf
          exact Or.inl (Or.inr ⟨rfl, fault, hfault⟩)
        · exact Or.inr ⟨f, fault, hf, hfault⟩

theorem contains_failures_ofFormulas {o : Outcomes}
    (h : ofFormulas formulas context density = .ok o) :
    o.failures.contains name = true ↔
      ∃ f fault, (name, f) ∈ formulas
        ∧ f.evaluate context density = .error (.failure fault) := by
  rw [contains_failures_foldlM h]
  exact or_iff_right nofun

/-- Nothing fails exactly when every formula has a result. -/
theorem failures_isEmpty_ofFormulas {o : Outcomes}
    (h : ofFormulas formulas context density = .ok o) :
    o.failures.entries.isEmpty = true ↔
      ∀ e ∈ formulas, ∃ r, e.2.evaluate context density = .ok r := by
  rw [NameMap.isEmpty_iff]
  constructor
  · rintro hempty ⟨n, f⟩ hf
    cases hr : f.evaluate context density with
    | ok r => exact ⟨r, rfl⟩
    | error stop =>
      cases stop with
      | failure fault =>
        exact absurd ((contains_failures_ofFormulas h).2 ⟨f, fault, hf, hr⟩) (hempty n)
      | abort a => exact absurd ⟨a, hr⟩ (exists_ofFormulas_iff.1 ⟨o, h⟩ (n, f) hf)
  · intro hall n hn
    obtain ⟨f, fault, hf, hfault⟩ := (contains_failures_ofFormulas h).1 hn
    obtain ⟨r, hr⟩ := hall (n, f) hf
    exact nomatch hfault.symm.trans hr

end Outcomes

end ShapeEstimator.Formula
