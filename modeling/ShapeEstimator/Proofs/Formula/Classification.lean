/-
  ShapeEstimator.Proofs.Formula.Classification
  ────────────────────────────────
  **WHICH OUTCOME A FORMULA HAS.**

  Three things can stop a formula, and they are looked for one after the other:

      a required name stands for nothing   →   all such names
      the expression cannot be read        →   where and why
      the expression has no value          →   the reason, if there is one
      otherwise                            →   the value

  A later one is never reported where an earlier one applies.  The required names are
  the declared ones and the density; the value depends on the names that occur in the
  expression, whether they are declared or not.  There is no reason where a square root
  does not come to rest: then the formula is aborted.
-/
import ShapeEstimator.Proofs.Formula.Calls
import ShapeEstimator.Proofs.Formula.FreeNames

namespace ShapeEstimator.Formula

variable {context : NameMap Float} {density : Option Float} {name : String} {v : Float}

/-! ## §1. What a name stands for. -/

/-- What a name stands for: `density` for a given density, and otherwise a name for its entry in the
context. -/
inductive Resolves (context : NameMap Float) (density : Option Float) (name : String) :
    Float → Prop where
  | given {v : Float} (isDensity : name = densityVariable) (given : density = some v) :
      Resolves context density name v
  | entry {v : Float} (notGiven : name = densityVariable → density = none)
      (entry : context.get? name = some v) : Resolves context density name v

theorem resolve_eq_some_iff :
    resolve context density name = some v ↔ Resolves context density name v := by
  unfold resolve
  by_cases hname : name = densityVariable
  · rw [if_pos hname]
    cases density with
    | none =>
      rw [Option.none_or]
      exact ⟨.entry fun _ => rfl, fun | .entry _ hentry => hentry⟩
    | some d =>
      -- the given density hides the entry
      rw [Option.some_or]
      exact ⟨.given hname, fun | .given _ hd => hd | .entry hnone _ => nomatch hnone hname⟩
  · rw [if_neg hname]
    exact ⟨.entry fun h => absurd h hname,
      fun | .given h _ => absurd h hname | .entry _ hentry => hentry⟩

/-- A name stands for nothing. -/
def Unresolved (context : NameMap Float) (density : Option Float) (name : String) : Prop :=
  ∀ v, ¬ Resolves context density name v

theorem isNone_resolve_iff :
    (resolve context density name).isNone = true ↔ Unresolved context density name := by
  rw [Option.isNone_iff_eq_none, Option.eq_none_iff_forall_ne_some]
  exact forall_congr' fun v => not_congr resolve_eq_some_iff

instance (context : NameMap Float) (density : Option Float) (name : String) :
    Decidable (Unresolved context density name) :=
  decidable_of_iff ((resolve context density name).isNone = true) isNone_resolve_iff

/-- Bindings that give the names of an expression what they stand for. -/
def Compiled.Resolved (c : Compiled) (context : NameMap Float) (density : Option Float)
    (values : Bindings) : Prop :=
  ∀ name ∈ c.freeVariables, ∀ v, values name = some v ↔ Resolves context density name v

theorem Compiled.Resolved.evaluate_eq {c : Compiled} {values : Bindings}
    (h : c.Resolved context density values) :
    c.evaluate values = c.evaluate (resolve context density) := by
  apply evaluate_congr
  intro name hname
  apply Option.ext
  intro v
  rw [h name hname v, resolve_eq_some_iff]

/-- An expression is compiled except where it cannot be read. -/
theorem Compiled.ofSource_eq_error_iff {source : String} {fault : SyntaxFault} :
    ofSource source = .error fault ↔ parse source = .error fault := by
  unfold ofSource
  cases parse source with
  | error other =>
    show (Except.error other : Except SyntaxFault Compiled) = .error fault ↔ _
    rw [Except.error.injEq, Except.error.injEq]
  | ok e => exact iff_of_false nofun nofun

/-! ## §2. Missing names. -/

namespace Definition

variable {f : Definition}

/-- The names that must stand for something: the declared ones, and behind them the density, where
it is required and not declared. -/
def requiredNames (f : Definition) : List String :=
  if f.requiresDensity ∧ densityVariable ∉ f.declared then f.declared ++ [densityVariable]
  else f.declared

/-- The required names that stand for nothing. -/
def unresolvedNames (f : Definition) (context : NameMap Float) (density : Option Float) :
    List String :=
  f.requiredNames.filter fun name => Unresolved context density name

theorem mem_unresolvedNames :
    name ∈ f.unresolvedNames context density ↔
      (name ∈ f.declared ∨ f.requiresDensity = true ∧ name = densityVariable)
        ∧ Unresolved context density name := by
  unfold unresolvedNames requiredNames
  rw [List.mem_filter, decide_eq_true_iff]
  refine and_congr_left fun _ => ?_
  split
  · rename_i h
    rw [List.mem_append, List.mem_singleton, and_iff_right h.1]
  · rename_i h
    -- a density that is required is declared here
    refine ⟨Or.inl, ?_⟩
    rintro (hname | ⟨hrequired, rfl⟩)
    · exact hname
    · exact Decidable.byContradiction fun hname => h ⟨hrequired, hname⟩

/-- The missing names are the required ones that stand for nothing. -/
theorem missing_eq (f : Definition) (context : NameMap Float) (density : Option Float) :
    f.missing (resolve context density) = f.unresolvedNames context density := by
  have hfilter : ∀ names : List String,
      names.filter (fun name => (resolve context density name).isNone)
        = names.filter fun name => Unresolved context density name := by
    intro names
    apply List.filter_congr
    intro name _
    rw [Bool.eq_iff_iff, isNone_resolve_iff, decide_eq_true_iff]
  unfold missing unresolvedNames requiredNames
  rw [hfilter]
  -- by whether the density is required, declared, and stands for something
  by_cases hrequired : f.requiresDensity = true
  · by_cases hnone : Unresolved context density densityVariable
    · by_cases hdeclared : densityVariable ∈ f.declared
      · have hmem : densityVariable ∈
            f.declared.filter fun name => Unresolved context density name :=
          List.mem_filter.2 ⟨hdeclared, decide_eq_true hnone⟩
        rw [if_neg fun h => h.2.2 hmem, if_neg fun h => h.2 hdeclared]
      · have hmem : densityVariable ∉
            f.declared.filter fun name => Unresolved context density name :=
          fun h => hdeclared (List.mem_filter.1 h).1
        rw [if_pos ⟨hrequired, isNone_resolve_iff.2 hnone, hmem⟩, if_pos ⟨hrequired, hdeclared⟩,
          List.filter_append, List.filter_singleton, decide_eq_true hnone]
        rfl
    · rw [if_neg fun h => hnone (isNone_resolve_iff.1 h.2.1)]
      split
      · rw [List.filter_append, List.filter_singleton, decide_eq_false hnone]
        exact (List.append_nil _).symm
      · rfl
  · rw [if_neg fun h => hrequired h.1, if_neg fun h => hrequired h.1]

/-- Where no required name stands for nothing, each declared name stands for something. -/
theorem exists_resolves (h : f.unresolvedNames context density = []) (hname : name ∈ f.declared) :
    ∃ v, Resolves context density name v := by
  by_contra hnone
  have hunresolved : Unresolved context density name := fun v hv => hnone ⟨v, hv⟩
  have hmem : name ∈ f.unresolvedNames context density :=
    mem_unresolvedNames.2 ⟨Or.inl hname, hunresolved⟩
  rw [h] at hmem
  exact List.not_mem_nil hmem

/-- A result holds the declared names, each with what it stands for. -/
theorem get?_boundValues_iff :
    (f.boundValues (resolve context density)).get? name = some v ↔
      name ∈ f.declared ∧ Resolves context density name v := by
  have hmem : ∀ v, (name, v) ∈ (f.declared.filterMap fun name =>
      (resolve context density name).map fun v => (name, v)) ↔
        name ∈ f.declared ∧ Resolves context density name v := by
    intro v
    rw [List.mem_filterMap, ← resolve_eq_some_iff]
    constructor
    · rintro ⟨n, hn, hv⟩
      obtain ⟨w, hw, heq⟩ := Option.map_eq_some_iff.1 hv
      cases heq
      exact ⟨hn, hw⟩
    · rintro ⟨hn, hv⟩
      exact ⟨name, hn, by rw [hv]; rfl⟩
  unfold boundValues
  rw [NameMap.get?_ofList_iff, hmem]
  intro v w hv hw
  have hv := resolve_eq_some_iff.2 ((hmem v).1 hv).2
  have hw := resolve_eq_some_iff.2 ((hmem w).1 hw).2
  exact Option.some.inj (hv.symm.trans hw)

/-! ## §3. The outcome. -/

/-- An outcome is the first that applies: names without a value, an expression that cannot be read,
one without a value for what its names stand for, and one with a value. -/
inductive Settles (f : Definition) (context : NameMap Float) (density : Option Float) :
    Except (Stop Fault) EvaluationResult → Prop where
  | missing (missing : f.unresolvedNames context density ≠ []) :
      Settles f context density
        (.error (.failure
          (.missingVariables f.expression (f.unresolvedNames context density))))
  | malformed {fault : SyntaxFault} (complete : f.unresolvedNames context density = [])
      (unread : parse f.expression = .error fault) :
      Settles f context density
        (.error (.failure
          (.malformedExpression f.expression fault.position fault.cause.message)))
  | noValue {c : Compiled} {failure : BindingFailure}
      (complete : f.unresolvedNames context density = [])
      (read : Compiled.ofSource f.expression = .ok c)
      (fails : c.evaluate (resolve context density) = .error (.failure failure)) :
      Settles f context density (.error (.failure (.evaluation f.expression failure.message)))
  | aborted {c : Compiled} {a : Abort}
      (complete : f.unresolvedNames context density = [])
      (read : Compiled.ofSource f.expression = .ok c)
      (aborted : c.evaluate (resolve context density) = .error (.abort a)) :
      Settles f context density (.error (.abort a))
  | value {c : Compiled} {r : EvaluationResult}
      (complete : f.unresolvedNames context density = [])
      (read : Compiled.ofSource f.expression = .ok c)
      (value : c.evaluate (resolve context density) = .ok r.result)
      (bound : r.boundValues = f.boundValues (resolve context density)) :
      Settles f context density (.ok r)

/-- A formula has the outcome that applies first. -/
theorem settles_evaluate (f : Definition) (context : NameMap Float) (density : Option Float) :
    f.Settles context density (f.evaluate context density) := by
  have hmissing := f.missing_eq context density
  unfold evaluate outcome
  -- one case for each stage that the evaluation may end in
  cases hnames : f.unresolvedNames context density with
  | cons n ns =>
    rw [hmissing, hnames]
    have h : f.Settles context density _ := .missing (by rw [hnames]; exact List.cons_ne_nil n ns)
    rw [hnames] at h
    exact h
  | nil =>
    rw [hmissing, hnames]
    dsimp only
    cases hread : Compiled.ofSource f.expression with
    | error fault => exact .malformed hnames (Compiled.ofSource_eq_error_iff.1 hread)
    | ok c =>
      dsimp only
      cases hvalue : c.evaluate (resolve context density) with
      | error stop =>
        cases stop with
        | failure failure => exact .noValue hnames hread hvalue
        | abort a => exact .aborted hnames hread hvalue
      | ok v => exact .value hnames hread hvalue rfl

/-! ## §4. One outcome after the other. -/

section Outcomes

variable {expression message reason : String} {position : ℕ}

theorem evaluate_eq_missingVariables_iff {names : List String} :
    f.evaluate context density = .error (.failure (.missingVariables expression names)) ↔
      expression = f.expression ∧ names = f.unresolvedNames context density ∧ names ≠ [] := by
  have hsettles := f.settles_evaluate context density
  constructor
  · intro h
    rw [h] at hsettles
    cases hsettles with
    | missing hnames => exact ⟨rfl, rfl, hnames⟩
  · rintro ⟨rfl, rfl, hnames⟩
    generalize f.evaluate context density = outcome at hsettles ⊢
    -- all other outcomes need all names
    cases hsettles with
    | missing _ => rfl
    | malformed complete _ | noValue complete _ _ | aborted complete _ _
    | value complete _ _ _ => exact absurd complete hnames

theorem evaluate_eq_malformedExpression_iff :
    f.evaluate context density
        = .error (.failure (.malformedExpression expression position message)) ↔
      f.unresolvedNames context density = [] ∧ expression = f.expression
        ∧ ∃ fault, parse f.expression = .error fault ∧ position = fault.position
          ∧ message = fault.cause.message := by
  have hsettles := f.settles_evaluate context density
  constructor
  · intro h
    rw [h] at hsettles
    cases hsettles with
    | malformed complete unread => exact ⟨complete, rfl, _, unread, rfl, rfl⟩
  · rintro ⟨hnames, rfl, fault, hfault, rfl, rfl⟩
    generalize f.evaluate context density = outcome at hsettles ⊢
    -- of the outcomes with all names, the others are of expressions that can be read
    cases hsettles with
    | missing h => exact absurd hnames h
    | malformed _ unread =>
      cases hfault.symm.trans unread
      rfl
    | noValue _ read _ | aborted _ read _ | value _ read _ _ =>
      rw [Compiled.ofSource_eq_error_iff.2 hfault] at read
      cases read

/-- An abort is that of the expression, for what its names stand for. -/
theorem evaluate_eq_abort_iff {a : Abort} :
    f.evaluate context density = .error (.abort a) ↔
      f.unresolvedNames context density = []
        ∧ ∃ c, Compiled.ofSource f.expression = .ok c
          ∧ c.evaluate (resolve context density) = .error (.abort a) := by
  constructor
  · intro h
    have hsettles := f.settles_evaluate context density
    rw [h] at hsettles
    cases hsettles with
    | aborted complete read aborted => exact ⟨complete, _, read, aborted⟩
  · rintro ⟨hnames, c, hread, haborted⟩
    exact evaluate_of_aborted ((f.missing_eq context density).trans hnames) hread haborted

/-- With all names and an expression that can be read, only the value may be missing. -/
theorem evaluate_ok_or_evaluation_or_abort {e : Expr}
    (hnames : f.unresolvedNames context density = []) (he : parse f.expression = .ok e) :
    (∃ r, f.evaluate context density = .ok r)
      ∨ (∃ reason,
        f.evaluate context density = .error (.failure (.evaluation f.expression reason)))
      ∨ Aborts (f.evaluate context density) := by
  have hsettles := f.settles_evaluate context density
  generalize f.evaluate context density = outcome at hsettles ⊢
  cases hsettles with
  | missing h => exact absurd hnames h
  | malformed _ unread => exact nomatch he.symm.trans unread
  | noValue _ _ _ => exact Or.inr (Or.inl ⟨_, rfl⟩)
  | aborted _ _ _ => exact Or.inr (Or.inr (aborts_abort _))
  | value _ _ _ _ => exact Or.inl ⟨_, rfl⟩

theorem of_evaluate_eq_evaluation
    (h : f.evaluate context density = .error (.failure (.evaluation expression reason))) :
    f.unresolvedNames context density = [] ∧ expression = f.expression
      ∧ ∃ c failure, Compiled.ofSource f.expression = .ok c ∧ reason = failure.message
        ∧ c.evaluate (resolve context density) = .error (.failure failure) := by
  have hsettles := f.settles_evaluate context density
  rw [h] at hsettles
  cases hsettles with
  | noValue complete read fails => exact ⟨complete, rfl, _, _, read, rfl, fails⟩

theorem of_evaluate_eq_ok {r : EvaluationResult} (h : f.evaluate context density = .ok r) :
    f.unresolvedNames context density = []
      ∧ ∃ c, Compiled.ofSource f.expression = .ok c
        ∧ c.evaluate (resolve context density) = .ok r.result
        ∧ r.boundValues = f.boundValues (resolve context density) := by
  have hsettles := f.settles_evaluate context density
  rw [h] at hsettles
  cases hsettles with
  | value complete read value bound => exact ⟨complete, _, read, value, bound⟩

end Outcomes

/-! ## §5. The classification. -/

/-- A result of a formula, by what the names stand for. -/
structure HasResult (f : Definition) (context : NameMap Float) (density : Option Float)
    (r : EvaluationResult) : Prop where
  /-- The value is that of the expression, with the names that occur in it bound to what they stand
  for. -/
  value : ∃ c, Compiled.ofSource f.expression = .ok c ∧
    ∀ values, c.Resolved context density values → c.evaluate values = .ok r.result
  /-- The reported names are the declared ones. -/
  declared : ∀ name, r.boundValues.contains name = true ↔ name ∈ f.declared
  /-- The reported values are what the names stand for. -/
  resolved : ∀ name v, r.boundValues.get? name = some v → Resolves context density name v

/-- The outcome of a formula, by what was found first. -/
structure Classified (f : Definition) (context : NameMap Float) (density : Option Float) : Prop where
  /-- Missing variables are reported where a required name stands for nothing, and all of them. -/
  missing : ∀ expression names,
    f.evaluate context density = .error (.failure (.missingVariables expression names)) ↔
      expression = f.expression ∧ names = f.unresolvedNames context density ∧ names ≠ []
  /-- Otherwise a malformed expression is reported where it cannot be read. -/
  malformed : ∀ expression position message,
    f.evaluate context density
        = .error (.failure (.malformedExpression expression position message)) ↔
      f.unresolvedNames context density = [] ∧ expression = f.expression
        ∧ ∃ fault, parse f.expression = .error fault ∧ position = fault.position
          ∧ message = fault.cause.message
  /-- Otherwise there is a result, or a reason why there is no value, or neither. -/
  otherwise : f.unresolvedNames context density = [] → (∃ e, parse f.expression = .ok e) →
    (∃ r, f.evaluate context density = .ok r)
      ∨ (∃ reason,
        f.evaluate context density = .error (.failure (.evaluation f.expression reason)))
      ∨ Aborts (f.evaluate context density)
  /-- There is neither exactly where a root that is taken for what the names stand for does not come
  to rest. -/
  aborted : ∀ a, f.evaluate context density = .error (.abort a) ↔
    a = .unsettledRoot ∧ f.unresolvedNames context density = []
      ∧ ∃ c, Compiled.ofSource f.expression = .ok c
        ∧ c.TakesUnsettledRoot (resolve context density)
  /-- A reason is given where the expression has no value for what its names stand for. -/
  evaluation : ∀ expression reason,
    f.evaluate context density = .error (.failure (.evaluation expression reason)) →
      f.unresolvedNames context density = [] ∧ expression = f.expression
        ∧ ∃ c failure, Compiled.ofSource f.expression = .ok c ∧ reason = failure.message
          ∧ ∀ values, c.Resolved context density values →
            c.evaluate values = .error (.failure failure)
  /-- A result is given where no required name stands for nothing. -/
  result : ∀ r, f.evaluate context density = .ok r →
    f.unresolvedNames context density = [] ∧ f.HasResult context density r

theorem hasResult_of_value {c : Compiled} {r : EvaluationResult}
    (complete : f.unresolvedNames context density = [])
    (read : Compiled.ofSource f.expression = .ok c)
    (value : c.evaluate (resolve context density) = .ok r.result)
    (bound : r.boundValues = f.boundValues (resolve context density)) :
    f.HasResult context density r where
  value := ⟨c, read, fun values hvalues => hvalues.evaluate_eq.trans value⟩
  declared name := by
    rw [bound, NameMap.contains_iff]
    constructor
    · rintro ⟨v, hv⟩
      exact (get?_boundValues_iff.1 hv).1
    · intro hname
      obtain ⟨v, hv⟩ := exists_resolves complete hname
      exact ⟨v, get?_boundValues_iff.2 ⟨hname, hv⟩⟩
  resolved name v hv := by
    rw [bound] at hv
    exact (get?_boundValues_iff.1 hv).2

/-- **The outcome of a formula.**  Missing variables come before a malformed expression, and this
before a missing value; a result has the value for what the names stand for.  A formula is aborted
exactly where it has all its names, can be read, and takes a square root that does not come to
rest. -/
theorem evaluate_classified (f : Definition) (context : NameMap Float) (density : Option Float) :
    f.Classified context density where
  missing _ _ := evaluate_eq_missingVariables_iff
  malformed _ _ _ := evaluate_eq_malformedExpression_iff
  otherwise hnames hread := by
    obtain ⟨e, he⟩ := hread
    exact evaluate_ok_or_evaluation_or_abort hnames he
  aborted a := by
    rw [evaluate_eq_abort_iff, and_left_comm]
    refine and_congr_right fun _ => ?_
    rw [← exists_and_left]
    refine exists_congr fun c => ?_
    rw [and_left_comm]
    exact and_congr_right fun hread => Compiled.evaluate_eq_abort_iff hread
  evaluation _ _ h := by
    obtain ⟨hnames, rfl, c, failure, hread, rfl, hfails⟩ := of_evaluate_eq_evaluation h
    exact ⟨hnames, rfl, c, failure, hread, rfl, fun _ hvalues => hvalues.evaluate_eq.trans hfails⟩
  result r h := by
    obtain ⟨hnames, c, hread, hvalue, hbound⟩ := of_evaluate_eq_ok h
    exact ⟨hnames, hasResult_of_value hnames hread hvalue hbound⟩

/-- Of a sum without its second operand the missing names are reported, and not the operand. -/
example :
    ({ expression := "L +", declared := ["W", "L"], unit := "mm", requiresDensity := true } :
      Definition).evaluate .empty none
      = .error (.failure (.missingVariables "L +" ["W", "L", "density"])) :=
  rfl

/-- A formula that has all its names and can be read, and has neither a result nor a reason why it
has none. -/
theorem unsettledLength_unclassified :
    unsettledLength.unresolvedNames .empty none = []
      ∧ (∃ e, parse unsettledLength.expression = .ok e)
      ∧ (∀ r, unsettledLength.evaluate .empty none ≠ .ok r)
      ∧ ∀ reason, unsettledLength.evaluate .empty none
        ≠ .error (.failure (.evaluation unsettledLength.expression reason)) := by
  rw [evaluate_unsettledLength]
  exact ⟨rfl, ⟨_, parse_sqrt_slightlyAboveFour⟩, nofun, nofun⟩

end Definition

end ShapeEstimator.Formula
