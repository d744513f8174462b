/-
  ShapeEstimator.Proofs.Formula.Isolation
  ────────────────────────────────
  **EACH FORMULA OF A BATCH STANDS ALONE.**

  `alone formulas n` lists the outcomes of the formulas of a name, each evaluated for
  itself.  A batch keeps the last result and the last fault of this list and nothing else,
  so a name that stands twice may have both:

      results  n  =  lastResult? (alone formulas n)
      failures n  =  lastFault?  (alone formulas n)

  Where no name stands twice, the list has one outcome.  So a name has a result or a
  fault, never both, and the order of the formulas does not matter.

  All this is said of a batch that comes to an end.  A formula that is aborted takes the
  batch with it, and no name has a result or a fault.
-/
import ShapeEstimator.Catalog.Entry
import ShapeEstimator.Proofs.Formula.Batch
import ShapeEstimator.Proofs.Formula.Calls

namespace ShapeEstimator.Formula

/-! ## §1. Outcomes of a name. -/

/-- The outcomes of the formulas of a name, each evaluated for itself. -/
def alone (formulas : List (String × Definition)) (context : NameMap Float)
    (density : Option Float) (name : String) : List (Except (Stop Fault) EvaluationResult) :=
  (formulas.filter fun f => f.1 = name).map fun f => f.2.evaluate context density

/-- The fault of an outcome that is one. -/
def fault? : Except (Stop Fault) EvaluationResult → Option Fault
  | .ok _ => none
  | .error (.failure fault) => some fault
  | .error (.abort _) => none

/-- The last result among outcomes. -/
def lastResult? (outcomes : List (Except (Stop Fault) EvaluationResult)) :
    Option EvaluationResult :=
  (outcomes.filterMap Except.toOption).getLast?

/-- The last fault among outcomes. -/
def lastFault? (outcomes : List (Except (Stop Fault) EvaluationResult)) : Option Fault :=
  (outcomes.filterMap fault?).getLast?

variable {formulas others : List (String × Definition)} {context : NameMap Float}
variable {density : Option Float} {name : String} {f : Definition}

theorem alone_cons_self (f : Definition) :
    alone ((name, f) :: formulas) context density name
      = f.evaluate context density :: alone formulas context density name := by
  simp [alone]

theorem alone_cons_of_ne {n : String} (f : Definition) (hn : n ≠ name) :
    alone ((n, f) :: formulas) context density name = alone formulas context density name := by
  simp [alone, hn]

theorem alone_of_not_mem (h : name ∉ formulas.map (·.1)) :
    alone formulas context density name = [] := by
  have hnone : (formulas.filter fun f => decide (f.1 = name)) = [] := by
    rw [List.filter_eq_nil_iff]
    intro e he hname
    exact h (List.mem_map.2 ⟨e, he, of_decide_eq_true hname⟩)
  unfold alone
  rw [hnone, List.map_nil]

/-- Where no name stands twice, a formula is the only one of its name. -/
theorem alone_of_mem (hnames : (formulas.map (·.1)).Nodup) (hf : (name, f) ∈ formulas) :
    alone formulas context density name = [f.evaluate context density] := by
  induction formulas with
  | nil => exact absurd hf List.not_mem_nil
  | cons head rest ih =>
    obtain ⟨n, g⟩ := head
    obtain ⟨hhead, hrest⟩ := List.nodup_cons.1 hnames
    rcases List.mem_cons.1 hf with hf | hf
    · cases hf
      rw [alone_cons_self, alone_of_not_mem hhead]
    · -- the name of the head stands nowhere behind it
      have hne : n ≠ name := by
        intro heq
        exact hhead (List.mem_map.2 ⟨(name, f), hf, heq.symm⟩)
      rw [alone_cons_of_ne g hne]
      exact ih hrest hf

theorem lastResult?_cons (x : Except (Stop Fault) EvaluationResult)
    (xs : List (Except (Stop Fault) EvaluationResult)) :
    lastResult? (x :: xs) = (lastResult? xs).or x.toOption := by
  unfold lastResult?
  cases x with
  | error stop =>
    show _ = (xs.filterMap Except.toOption).getLast?.or none
    rw [List.filterMap_cons_none (by rfl), Option.or_none]
  | ok r =>
    rw [List.filterMap_cons_some (by rfl), List.getLast?_cons]
    cases (xs.filterMap Except.toOption).getLast? <;> rfl

theorem lastFault?_cons (x : Except (Stop Fault) EvaluationResult)
    (xs : List (Except (Stop Fault) EvaluationResult)) :
    lastFault? (x :: xs) = (lastFault? xs).or (fault? x) := by
  unfold lastFault?
  rw [List.filterMap_cons]
  cases fault? x with
  | none => rw [Option.or_none]
  | some fault =>
    rw [List.getLast?_cons]
    cases (xs.filterMap fault?).getLast? <;> rfl

/-! ## §2. One formula more. -/

namespace Outcomes

variable {x : Except (Stop Fault) EvaluationResult} {y : Except Fault EvaluationResult}

theorem get?_results_add_self (o : Outcomes) (hy : caught x = .ok y) :
    (o.add name y).results.get? name = x.toOption.or (o.results.get? name) := by
  rcases x with (fault | a) | r <;> cases hy
  · rfl
  · show (o.results.insert name r).get? name = (some r).or _
    simp

theorem get?_failures_add_self (o : Outcomes) (hy : caught x = .ok y) :
    (o.add name y).failures.get? name = (fault? x).or (o.failures.get? name) := by
  rcases x with (fault | a) | r <;> cases hy
  · show (o.failures.insert name fault).get? name = _
    simp [fault?]
  · rfl

/-- An outcome under another name leaves both maps alone. -/
theorem get?_add_of_ne (o : Outcomes) {n : String} (y : Except Fault EvaluationResult)
    (hn : n ≠ name) :
    (o.add n y).results.get? name = o.results.get? name
      ∧ (o.add n y).failures.get? name = o.failures.get? name := by
  cases y with
  | ok r =>
    show (o.results.insert n r).get? name = _ ∧ _
    simp [hn.symm]
    rfl
  | error fault =>
    show _ ∧ (o.failures.insert n fault).get? name = _
    simp [hn.symm]
    rfl

/-! ## §3. A batch. -/

/-- Going on from outcomes `o`, a name has the last result and the last fault of its formulas, or
those of `o` where they have none. -/
theorem get?_foldlM {o after : Outcomes}
    (h : formulas.foldlM (addFormula context density) o = .ok after) (name : String) :
    after.results.get? name
        = (lastResult? (alone formulas context density name)).or (o.results.get? name)
      ∧ after.failures.get? name
        = (lastFault? (alone formulas context density name)).or (o.failures.get? name) := by
  induction formulas generalizing o with
  | nil =>
    cases h
    exact ⟨rfl, rfl⟩
  | cons head rest ih =>
    obtain ⟨n, g⟩ := head
    obtain ⟨y, hy, h⟩ := foldlM_addFormula_cons.1 h
    have hrest := ih h
    by_cases hn : n = name
    · subst hn
      rw [get?_results_add_self o hy, get?_failures_add_self o hy, ← Option.or_assoc,
        ← Option.or_assoc, ← lastResult?_cons, ← lastFault?_cons, ← alone_cons_self] at hrest
      exact hrest
    · obtain ⟨hresults, hfailures⟩ := get?_add_of_ne o y hn
      rw [hresults, hfailures, ← alone_cons_of_ne g hn] at hrest
      exact hrest

/-- Outcomes that are those of formulas evaluated one by one: of several with one name the last
result and the last fault. -/
structure Isolates (context : NameMap Float) (density : Option Float)
    (formulas : List (String × Definition)) (o : Outcomes) : Prop where
  /-- The results. -/
  results : ∀ name, o.results.get? name = lastResult? (alone formulas context density name)
  /-- The faults. -/
  failures : ∀ name, o.failures.get? name = lastFault? (alone formulas context density name)

namespace Isolates

variable {o o' : Outcomes}

/-- The outcomes of formulas are determined by those of each name. -/
theorem unique (h : Isolates context density formulas o)
    (h' : Isolates context density others o')
    (hsame : ∀ name, alone formulas context density name = alone others context density name) :
    o = o' := by
  have hresults : o.results = o'.results := by
    apply NameMap.ext_get?
    intro name
    rw [h.results, h'.results, hsame]
  have hfailures : o.failures = o'.failures := by
    apply NameMap.ext_get?
    intro name
    rw [h.failures, h'.failures, hsame]
  cases o
  cases o'
  cases hresults
  cases hfailures
  rfl

end Isolates

theorem isolates_ofFormulas {o : Outcomes} (h : ofFormulas formulas context density = .ok o) :
    Isolates context density formulas o := by
  constructor
  · intro name
    have hname := (get?_foldlM h name).1
    rw [show empty.results.get? name = none from rfl, Option.or_none] at hname
    exact hname
  · intro name
    have hname := (get?_foldlM h name).2
    rw [show empty.failures.get? name = none from rfl, Option.or_none] at hname
    exact hname

/-! ## §4. Distinct names. -/

/-- Outcomes of formulas among which no name stands twice: each formula has its own result or its
own fault under its name, and there are no other names. -/
structure Partitions (context : NameMap Float) (density : Option Float)
    (formulas : List (String × Definition)) (o : Outcomes) : Prop where
  /-- The names with a result or a fault are those of the formulas. -/
  names : ∀ name, name ∈ formulas.map (·.1)
    ↔ o.results.contains name = true ∨ o.failures.contains name = true
  /-- No name has both. -/
  disjoint : ∀ name, ¬ (o.results.contains name = true ∧ o.failures.contains name = true)
  /-- A formula that has a result has it under its name. -/
  result : ∀ name f, (name, f) ∈ formulas →
    ∀ r, o.results.get? name = some r ↔ f.evaluate context density = .ok r
  /-- A formula that fails has its fault under its name. -/
  failure : ∀ name f, (name, f) ∈ formulas →
    ∀ fault, o.failures.get? name = some fault
      ↔ f.evaluate context density = .error (.failure fault)

/-- A formula that is the only one of its name has one outcome. -/
theorem Isolates.get?_of_mem {o : Outcomes} (h : Isolates context density formulas o)
    (hnames : (formulas.map (·.1)).Nodup) (hf : (name, f) ∈ formulas) :
    o.results.get? name = (f.evaluate context density).toOption
      ∧ o.failures.get? name = fault? (f.evaluate context density) := by
  rw [h.results, h.failures, alone_of_mem hnames hf, lastResult?_cons, lastFault?_cons]
  exact ⟨rfl, rfl⟩

/-- A name of no formula has neither result nor fault. -/
theorem Isolates.get?_of_not_mem {o : Outcomes} (h : Isolates context density formulas o)
    (hname : name ∉ formulas.map (·.1)) :
    o.results.get? name = none ∧ o.failures.get? name = none := by
  rw [h.results, h.failures, alone_of_not_mem hname]
  exact ⟨rfl, rfl⟩

/-- A name of a formula has either a result or a fault, and any other name has neither. -/
theorem contains_cases {o : Outcomes} (h : ofFormulas formulas context density = .ok o)
    (hnames : (formulas.map (·.1)).Nodup) (name : String) :
    (name ∈ formulas.map (·.1) ∧ o.results.contains name = !o.failures.contains name)
      ∨ (name ∉ formulas.map (·.1) ∧ o.results.contains name = false
        ∧ o.failures.contains name = false) := by
  have hapart := isolates_ofFormulas h
  unfold NameMap.contains
  by_cases hname : name ∈ formulas.map (·.1)
  · left
    obtain ⟨⟨n, f⟩, hf, rfl⟩ := List.mem_map.1 hname
    obtain ⟨hresult, hfault⟩ := hapart.get?_of_mem hnames hf
    -- the batch came to an end, so this formula has a result or a fault
    have hends := exists_ofFormulas_iff.1 ⟨o, h⟩ (n, f) hf
    refine ⟨hname, ?_⟩
    rw [hresult, hfault]
    rcases hx : f.evaluate context density with (fault | a) | r
    · rfl
    · exact absurd ⟨a, hx⟩ hends
    · rfl
  · right
    obtain ⟨hresult, hfault⟩ := hapart.get?_of_not_mem hname
    simp [hname, hresult, hfault]

theorem partitions_ofFormulas {o : Outcomes} (h : ofFormulas formulas context density = .ok o)
    (hnames : (formulas.map (·.1)).Nodup) : Partitions context density formulas o := by
  constructor
  case names =>
    intro name
    rcases contains_cases h hnames name with ⟨hname, heither⟩ | ⟨hname, hresult, hfault⟩
    · cases hfault : o.failures.contains name <;> simp [hname, heither, hfault]
    · simp [hname, hresult, hfault]
  case disjoint =>
    intro name hboth
    rcases contains_cases h hnames name with ⟨_, heither⟩ | ⟨_, hresult, _⟩
    · simp [hboth] at heither
    · simp [hboth] at hresult
  case result =>
    intro name f hf r
    rw [((isolates_ofFormulas h).get?_of_mem hnames hf).1]
    cases f.evaluate context density with
    | error stop => exact ⟨nofun, nofun⟩
    | ok found =>
      show some found = some r ↔ _
      simp
  case failure =>
    intro name f hf fault
    rw [((isolates_ofFormulas h).get?_of_mem hnames hf).2]
    rcases f.evaluate context density with (found | a) | r <;> simp [fault?]

/-- In another order each name has the same outcome. -/
theorem alone_perm (hperm : others.Perm formulas) (hnames : (formulas.map (·.1)).Nodup)
    (name : String) :
    alone others context density name = alone formulas context density name := by
  have hnames' : (others.map (·.1)).Nodup := (hperm.map (·.1)).nodup_iff.2 hnames
  by_cases hname : name ∈ formulas.map (·.1)
  · obtain ⟨⟨n, f⟩, hf, rfl⟩ := List.mem_map.1 hname
    rw [alone_of_mem hnames hf, alone_of_mem hnames' (hperm.mem_iff.2 hf)]
  · have hname' : name ∉ others.map (·.1) := by
      intro h
      exact hname ((hperm.map (·.1)).mem_iff.1 h)
    rw [alone_of_not_mem hname, alone_of_not_mem hname']

/-- In another order the batch comes to the same outcomes, or again to none. -/
theorem ofFormulas_perm (hperm : others.Perm formulas) (hnames : (formulas.map (·.1)).Nodup)
    (o : Outcomes) :
    ofFormulas others context density = .ok o ↔ ofFormulas formulas context density = .ok o := by
  have hends : (∃ o, ofFormulas others context density = .ok o)
      ↔ ∃ o, ofFormulas formulas context density = .ok o := by
    rw [exists_ofFormulas_iff, exists_ofFormulas_iff]
    simp only [hperm.mem_iff]
  have hsame : ∀ o o', ofFormulas others context density = .ok o →
      ofFormulas formulas context density = .ok o' → o = o' := by
    intro o o' h h'
    exact (isolates_ofFormulas h).unique (isolates_ofFormulas h') (alone_perm hperm hnames)
  constructor
  · intro h
    obtain ⟨o', h'⟩ := hends.1 ⟨o, h⟩
    rw [hsame o o' h h']
    exact h'
  · intro h'
    obtain ⟨o', h⟩ := hends.2 ⟨o, h'⟩
    rw [← hsame o' o h h']
    exact h

/-! ## §5. Batches, maps and entries. -/

theorem nodup_names (m : NameMap Definition) : (m.entries.map (·.1)).Nodup :=
  List.pairwise_map.2 m.names_distinct

/-- The run of a batch: it comes to outcomes exactly when none of the formulas is aborted, and these
are the outcomes of formulas evaluated one by one. -/
structure RunsApart (context : NameMap Float) (density : Option Float)
    (formulas : List (String × Definition)) (run : Except Abort Outcomes) : Prop where
  /-- When there are outcomes. -/
  exists_iff : (∃ o, run = .ok o) ↔ ∀ f ∈ formulas, ¬ Aborts (f.2.evaluate context density)
  /-- What they are. -/
  isolates : ∀ o, run = .ok o → Isolates context density formulas o

theorem runsApart_ofFormulas (formulas : List (String × Definition)) :
    RunsApart context density formulas (ofFormulas formulas context density) :=
  ⟨exists_ofFormulas_iff, fun _ => isolates_ofFormulas⟩

/-- **A batch isolates its formulas.**  It comes to outcomes exactly when none of its formulas is
aborted, and then it keeps the last result and the last fault of each name and nothing else.  Where
no name stands twice, results and faults partition the names, each formula has its own outcome, and
the order does not matter.  So it is for the formulas of a map, and for those of an entry of a shape
as far as its names are distinct. -/
theorem batch_isolated (context : NameMap Float) (density : Option Float) :
    (∀ formulas, RunsApart context density formulas (ofFormulas formulas context density))
      ∧ (∀ formulas : List (String × Definition), (formulas.map (·.1)).Nodup →
        (∀ o, ofFormulas formulas context density = .ok o →
          Partitions context density formulas o)
          ∧ ∀ others, others.Perm formulas → ∀ o,
            ofFormulas others context density = .ok o
              ↔ ofFormulas formulas context density = .ok o)
      ∧ (∀ m : NameMap Definition,
        RunsApart context density m.entries (ofMap m context density)
          ∧ (∀ o, ofMap m context density = .ok o → Partitions context density m.entries o)
          ∧ resultsOfMap m context density = (ofMap m context density).map (·.results))
      ∧ ∀ e : FormulaEntry,
        RunsApart context density e.subFormulas (e.outcomes context density) := by
  refine ⟨runsApart_ofFormulas, ?_, ?_, fun e => runsApart_ofFormulas e.subFormulas⟩
  · intro formulas hnames
    exact ⟨fun o h => partitions_ofFormulas h hnames,
      fun others hperm => ofFormulas_perm hperm hnames⟩
  · intro m
    exact ⟨runsApart_ofFormulas m.entries, fun o h => partitions_ofFormulas h (nodup_names m), rfl⟩

/-- A width that is known. -/
def knownWidth : Definition := { expression := "2", declared := [], unit := "mm" }

/-- A length that is not known. -/
def unknownLength : Definition := { expression := "L", declared := ["L"], unit := "mm" }

/-- A width that is known and a length that is not: each has its own outcome, in both orders. -/
theorem width_and_length_isolated :
    ([("width", knownWidth), ("length", unknownLength)].map (·.1)).Nodup
      ∧ ∃ o, ofFormulas [("width", knownWidth), ("length", unknownLength)] .empty none = .ok o
        ∧ o.failures.get? "length" = some (.missingVariables "L" ["L"])
        ∧ o.results.contains "width" = true
        ∧ ofFormulas [("length", unknownLength), ("width", knownWidth)] .empty none = .ok o := by
  have hnames : ([("width", knownWidth), ("length", unknownLength)].map (·.1)).Nodup := by decide
  obtain ⟨hpartition, horder⟩ := (batch_isolated .empty none).2.1 _ hnames
  have hsome : (knownWidth.evaluate .empty none).toOption.isSome = true := by
    with_unfolding_all rfl
  have hwidth : ∃ r, knownWidth.evaluate .empty none = .ok r := by
    cases hr : knownWidth.evaluate .empty none with
    | ok r => exact ⟨r, rfl⟩
    | error stop =>
      rw [hr] at hsome
      exact nomatch hsome
  obtain ⟨r, hr⟩ := hwidth
  have hlength : unknownLength.evaluate .empty none
      = .error (.failure (.missingVariables "L" ["L"])) := rfl
  obtain ⟨o, ho⟩ := ((batch_isolated .empty none).1
    [("width", knownWidth), ("length", unknownLength)]).exists_iff.2 (by simp [hr, hlength])
  refine ⟨hnames, o, ho, ?_, ?_, (horder _ (List.Perm.swap _ _ _) o).2 ho⟩
  · exact ((hpartition o ho).failure "length" unknownLength (by simp) _).2 hlength
  · exact NameMap.contains_iff.2
      ⟨r, ((hpartition o ho).result "width" knownWidth (by simp) r).2 hr⟩

/-- A width that is known has a result, and in a batch with a length that is aborted it has none. -/
theorem width_not_isolated :
    (∃ r, knownWidth.evaluate .empty none = .ok r)
      ∧ ∀ o, ofFormulas [("length", unsettledLength), ("width", knownWidth)] .empty none
        ≠ .ok o := by
  refine ⟨⟨_, by with_unfolding_all rfl⟩, fun o ho => ?_⟩
  exact exists_ofFormulas_iff.1 ⟨o, ho⟩ ("length", unsettledLength) List.mem_cons_self
    ⟨_, evaluate_unsettledLength _ _⟩

/-- Under a name that stands twice there may be a result and a fault. -/
example :
    (ofFormulas [("width", knownWidth), ("width", unknownLength)] .empty none).toOption.any
      (fun o => o.results.contains "width" && o.failures.contains "width") = true := by
  with_unfolding_all rfl

end Outcomes

end ShapeEstimator.Formula
