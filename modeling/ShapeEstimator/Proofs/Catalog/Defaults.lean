/-
  ShapeEstimator.Proofs.Catalog.Defaults
  ────────────────────────────────
  **DEFAULTS AND THE DOMAINS THEY COME FROM.**

  The default of a parameter is looked at twice: when the structure of its shape is
  checked, and when the values of an estimate are.  For a number both compare it with
  the same bounds.  For a choice only the second one compares it with the options, so
  for a shape that was accepted

      a default is questioned  ↔  it is a choice, and none of its options
-/
import Mathlib.Data.List.Nodup
import ShapeEstimator.Catalog.Structure

namespace ShapeEstimator

/-! ## §1. Issues. -/

namespace ParameterIssue

/-- The parameter that an issue is about. -/
def parameterName : ParameterIssue → String
  | .missingRequired name => name
  | .belowMinimum name _ _ => name
  | .aboveMaximum name _ _ => name
  | .notAnOption name _ => name

/-- Whether an issue is about a value, and not about its absence. -/
def isOfValue : ParameterIssue → Bool
  | .missingRequired _ => false
  | .belowMinimum _ _ _ | .aboveMaximum _ _ _ | .notAnOption _ _ => true

end ParameterIssue

variable {p : Parameter} {value : Float} {values : NameMap Float} {issue : ParameterIssue}

/-- A value has an issue where it is beyond a bound or none of the options. -/
theorem Parameter.issue_of_checkValue (h : p.checkValue value = some issue) :
    issue.parameterName = p.name ∧ issue.isOfValue = true := by
  unfold checkValue at h
  split at h
  · split at h
    · cases h
      exact ⟨rfl, rfl⟩
    · cases h
      exact ⟨rfl, rfl⟩
    · exact nomatch h
  · split at h
    · exact nomatch h
    · cases h
      exact ⟨rfl, rfl⟩

/-- An issue names the parameter that it was found for. -/
theorem Shape.parameterName_of_parameterIssue? (h : parameterIssue? values p = some issue) :
    issue.parameterName = p.name := by
  unfold parameterIssue? at h
  split at h
  · exact (p.issue_of_checkValue h).1
  · split at h
    · cases h
      rfl
    · exact nomatch h

/-! ## §2. Shapes that are accepted. -/

namespace Shape

variable {s : Shape}

theorem notMem_of_nameProblems {seen : List String} {name : String}
    (h : nameProblems seen name = []) : name ∉ seen := by
  unfold nameProblems at h
  split at h
  · exact nomatch h
  · split at h
    · exact nomatch h
    · assumption

/-- Parameters without problems have names of their own and domains without problems. -/
theorem parameterProblems_eq_nil {ps : List Parameter} :
    ∀ {seen : List String}, parameterProblems seen ps = [] →
      (∀ p ∈ ps, p.name ∉ seen ∧ domainProblems p = []) ∧ (ps.map (·.name)).Nodup := by
  -- for any names seen before, which grow from one parameter to the next
  induction ps with
  | nil => exact fun _ => ⟨fun p hp => absurd hp List.not_mem_nil, List.nodup_nil⟩
  | cons p rest ih =>
    intro seen h
    rw [parameterProblems, List.append_eq_nil_iff, List.append_eq_nil_iff] at h
    obtain ⟨⟨hname, hdomain⟩, hrest⟩ := h
    obtain ⟨hall, hdistinct⟩ := ih hrest
    refine ⟨?_, List.nodup_cons.2 ⟨fun hmem => ?_, hdistinct⟩⟩
    · intro q hq
      rcases List.mem_cons.1 hq with rfl | hq
      · exact ⟨notMem_of_nameProblems hname, hdomain⟩
      · exact ⟨fun hseen => (hall q hq).1 (List.mem_cons_of_mem _ hseen), (hall q hq).2⟩
    · -- the name has been seen when the parameters behind it are checked
      obtain ⟨q, hq, heq⟩ := List.mem_map.1 hmem
      exact (hall q hq).1 (heq ▸ List.mem_cons_self)

variable (h : s.checkStructure = .ok ())

include h

theorem parameterProblems_of_checkStructure : parameterProblems [] s.parameters = [] := by
  unfold checkStructure at h
  split at h
  · rename_i hproblems
    unfold problems at hproblems
    exact (List.append_eq_nil_iff.1 hproblems).2
  · exact nomatch h

theorem domainProblems_of_checkStructure (hp : p ∈ s.parameters) : domainProblems p = [] :=
  ((parameterProblems_eq_nil (parameterProblems_of_checkStructure h)).1 p hp).2

theorem eq_of_name_eq {q : Parameter} (hp : p ∈ s.parameters) (hq : q ∈ s.parameters)
    (hname : p.name = q.name) : p = q :=
  List.inj_on_of_nodup_map (parameterProblems_eq_nil (parameterProblems_of_checkStructure h)).2
    hp hq hname

/-- Each default is among the default values, under the name of its parameter. -/
theorem get?_defaultValues (hp : p ∈ s.parameters) (hdefault : p.domain.default? = some value) :
    s.defaultValues.get? p.name = some value := by
  have hmem : ∀ v, (p.name, v) ∈ (s.parameters.filterMap fun p =>
      p.domain.default?.map fun v => (p.name, v)) → p.domain.default? = some v := by
    intro v hv
    obtain ⟨q, hq, hpair⟩ := List.mem_filterMap.1 hv
    obtain ⟨w, hw, heq⟩ := Option.map_eq_some_iff.1 hpair
    obtain ⟨hname, rfl⟩ := Prod.mk.inj heq
    rw [← eq_of_name_eq h hq hp hname]
    exact hw
  unfold defaultValues
  rw [NameMap.get?_ofList_iff]
  · exact List.mem_filterMap.2 ⟨p, hp, by rw [hdefault]; rfl⟩
  · -- the name stands for one parameter, which has one default
    intro v w hv hw
    exact Option.some.inj ((hmem v hv).symm.trans (hmem w hw))

end Shape

/-! ## §3. Defaults and domains. -/

theorem ParameterOption.all_refuse_iff {options : List ParameterOption} :
    (∀ o ∈ options, o.accepts value = false) ↔ ¬ ∃ o ∈ options, o.accepts value = true := by
  rw [not_exists]
  refine forall_congr' fun o => ?_
  rw [not_and, Bool.not_eq_true]

/-- A domain without problems has its default within its bounds, so only an option can be missed. -/
theorem Parameter.checkValue_default_iff (h : Shape.domainProblems p = [])
    (hdefault : p.domain.default? = some value) :
    p.checkValue value = some issue ↔
      ∃ options, p.domain = .enumerated options (some value)
        ∧ (∀ o ∈ options, o.accepts value = false) ∧ issue = .notAnOption p.name value := by
  unfold Shape.domainProblems at h
  unfold checkValue
  cases hdomain : p.domain with
  | numeric min max default =>
    rw [hdomain] at h hdefault
    obtain rfl : default = some value := hdefault
    have hbounds := (List.append_eq_nil_iff.1 h).2
    dsimp only at hbounds ⊢
    -- the bounds that the structure was checked with are those of the value
    split at hbounds
    · exact nomatch hbounds
    · rename_i hwithin
      rw [Bool.or_eq_true, not_or, Option.not_isSome_iff_eq_none,
        Option.not_isSome_iff_eq_none] at hwithin
      rw [hwithin.1, hwithin.2]
      exact iff_of_false nofun fun ⟨_, hoptions, _⟩ => nomatch hoptions
  | enumerated options default =>
    rw [hdomain] at hdefault
    obtain rfl : default = some value := hdefault
    dsimp only
    split
    · rename_i hany
      rw [List.any_eq_true] at hany
      refine iff_of_false nofun ?_
      rintro ⟨_, heq, hrefused, _⟩
      cases heq
      exact ParameterOption.all_refuse_iff.1 hrefused hany
    · rename_i hany
      rw [List.any_eq_true, ← ParameterOption.all_refuse_iff] at hany
      rw [Option.some.injEq]
      constructor
      · rintro rfl
        exact ⟨options, rfl, hany, rfl⟩
      · rintro ⟨_, _, _, rfl⟩
        rfl

/-- A parameter has its default among some values. -/
def Parameter.TakesDefault (p : Parameter) (values : NameMap Float) : Prop :=
  ∃ d, p.domain.default? = some d ∧ values.get? p.name = some d

/-- If a parameter is a choice with a default, then this is one of its options. -/
def Parameter.DefaultIsOption (p : Parameter) : Prop :=
  ∀ options d, p.domain = .enumerated options (some d) → ∃ o ∈ options, o.accepts d = true

namespace Shape

variable {s : Shape}

/-- An issue about the value of a parameter is found among some values. -/
def Questions (s : Shape) (values : NameMap Float) (p : Parameter) (issue : ParameterIssue) : Prop :=
  issue ∈ s.parameterIssues values ∧ issue.isOfValue = true ∧ issue.parameterName = p.name

/-- Among some values no parameter that takes its default is questioned. -/
def LeavesDefaults (s : Shape) (values : NameMap Float) : Prop :=
  ∀ p ∈ s.parameters, p.TakesDefault values → ∀ issue, ¬ s.Questions values p issue

/-- The default values with further ones, which take their place. -/
def defaultsWith (s : Shape) (further : List (String × Float)) : NameMap Float :=
  further.foldl (fun m e => m.insert e.1 e.2) s.defaultValues

/-- In a shape that is accepted, an issue under the name of a parameter was found for its value. -/
theorem questions_iff (h : s.checkStructure = .ok ()) (hp : p ∈ s.parameters)
    (hvalue : values.get? p.name = some value) :
    s.Questions values p issue ↔ p.checkValue value = some issue := by
  have hissue : parameterIssue? values p = p.checkValue value := by
    unfold parameterIssue?
    rw [hvalue]
  constructor
  · rintro ⟨hmem, _, hname⟩
    obtain ⟨q, hq, hfound⟩ := List.mem_filterMap.1 hmem
    -- no other parameter has this name
    have hsame : q = p :=
      eq_of_name_eq h hq hp ((parameterName_of_parameterIssue? hfound).symm.trans hname)
    rw [← hissue, ← hsame]
    exact hfound
  · intro hcheck
    obtain ⟨hname, hof⟩ := p.issue_of_checkValue hcheck
    exact ⟨List.mem_filterMap.2 ⟨p, hp, hissue.trans hcheck⟩, hof, hname⟩

/-- In a shape that is accepted, a default is questioned where it is none of the options. -/
theorem questions_default_iff (h : s.checkStructure = .ok ()) (hp : p ∈ s.parameters)
    (hdefault : p.domain.default? = some value) (hvalue : values.get? p.name = some value) :
    s.Questions values p issue ↔
      ∃ options, p.domain = .enumerated options (some value)
        ∧ (∀ o ∈ options, o.accepts value = false) ∧ issue = .notAnOption p.name value := by
  rw [questions_iff h hp hvalue]
  exact p.checkValue_default_iff (domainProblems_of_checkStructure h hp) hdefault

/-- Where the defaults of choices are options, no default is questioned among any values. -/
theorem leavesDefaults_of_isOption (h : s.checkStructure = .ok ())
    (hoption : ∀ p ∈ s.parameters, p.DefaultIsOption) (values : NameMap Float) :
    s.LeavesDefaults values := by
  rintro p hp ⟨d, hdefault, hvalue⟩ issue hquestions
  obtain ⟨options, hdomain, hrefused, _⟩ :=
    (questions_default_iff h hp hdefault hvalue).1 hquestions
  exact ParameterOption.all_refuse_iff.1 hrefused (hoption p hp options d hdomain)

/-- Where no default is questioned among the default values, those of choices are options. -/
theorem isOption_of_leavesDefaults (h : s.checkStructure = .ok ())
    (hleaves : s.LeavesDefaults s.defaultValues) : ∀ p ∈ s.parameters, p.DefaultIsOption := by
  intro p hp options d hdomain
  by_contra hnone
  have hdefault : p.domain.default? = some d := by rw [hdomain]; rfl
  have hvalue := get?_defaultValues h hp hdefault
  have hrefused : ∀ o ∈ options, o.accepts d = false := ParameterOption.all_refuse_iff.2 hnone
  exact hleaves p hp ⟨d, hdefault, hvalue⟩ _
    ((questions_default_iff h hp hdefault hvalue).2 ⟨options, hdomain, hrefused, rfl⟩)

/-- **Defaults within their domains.**  For a shape whose structure is accepted, every default is
among the default values.  Neither there nor among the defaults with further values is a parameter
questioned that takes its default, exactly where the defaults of choices are options.  What is
questioned is always such a choice. -/
theorem leavesDefaults_iff (h : s.checkStructure = .ok ()) :
    (∀ p ∈ s.parameters, ∀ d, p.domain.default? = some d → p.TakesDefault s.defaultValues)
    ∧ (s.LeavesDefaults s.defaultValues ↔ ∀ p ∈ s.parameters, p.DefaultIsOption)
    ∧ ((∀ further, s.LeavesDefaults (s.defaultsWith further)) ↔
        ∀ p ∈ s.parameters, p.DefaultIsOption)
    ∧ ∀ further, ∀ p ∈ s.parameters, p.TakesDefault (s.defaultsWith further) →
        ∀ issue, s.Questions (s.defaultsWith further) p issue ↔
          ∃ options d, p.domain = .enumerated options (some d)
            ∧ (∀ o ∈ options, o.accepts d = false) ∧ issue = .notAnOption p.name d := by
  refine ⟨?_, ?_, ?_, ?_⟩
  · exact fun p hp d hdefault => ⟨d, hdefault, get?_defaultValues h hp hdefault⟩
  · exact ⟨isOption_of_leavesDefaults h, fun hoption => leavesDefaults_of_isOption h hoption _⟩
  · constructor
    · -- no further values at all
      exact fun hleaves => isOption_of_leavesDefaults h (hleaves [])
    · exact fun hoption further => leavesDefaults_of_isOption h hoption _
  · rintro further p hp ⟨d, hdefault, hvalue⟩ issue
    rw [questions_default_iff h hp hdefault hvalue]
    constructor
    · rintro ⟨options, hdomain, hissue⟩
      exact ⟨options, d, hdomain, hissue⟩
    · rintro ⟨options, d', hdomain, hissue⟩
      have hsame : d' = d := by
        rw [hdomain] at hdefault
        exact Option.some.inj hdefault
      exact ⟨options, hsame ▸ hdomain, hsame ▸ hissue⟩

/-- A plate that is cut from stock of 8 or 10 mm, with a given default. -/
def stockPlate (thickness : Float) : Shape :=
  (((Shape.new "stock_plate" "Plate from stock" .rectangularPlate).withParameter
    ((Parameter.numeric "L" "Length" "mm").withRange 100 6000 |>.withDefault 1000)).withParameter
    ((Parameter.enumerated "t" "Thickness" "mm" [⟨"8 mm", 8⟩, ⟨"10 mm", 10⟩]).withDefault
      thickness)).withFormula "volume"
    { expression := "L^2 * t", declared := ["L", "t"], unit := "mm³" }

/-- A default that is on stock is not questioned, and neither is the one within bounds. -/
theorem stockPlate_leavesDefaults :
    (stockPlate 10).checkStructure = .ok ()
    ∧ (stockPlate 10).LeavesDefaults (stockPlate 10).defaultValues := by
  have h : (stockPlate 10).checkStructure = .ok () := by decide +kernel
  refine ⟨h, (leavesDefaults_iff h).2.1.2 ?_⟩
  intro p hp options d hdomain
  rcases List.mem_cons.1 hp with rfl | hp
  · exact nomatch hdomain
  · cases List.mem_singleton.1 hp
    cases hdomain
    exact ⟨⟨"10 mm", 10⟩, by simp, by decide +kernel⟩

/-- A default that is not on stock passes the check of the structure, and is questioned where it
is filled in. -/
theorem stockPlate_questionsDefault :
    (stockPlate 9).checkStructure = .ok ()
    ∧ (stockPlate 9).parameterIssues (stockPlate 9).defaultValues = [.notAnOption "t" 9]
    ∧ ¬ (stockPlate 9).LeavesDefaults (stockPlate 9).defaultValues := by
  have hissues :
      (stockPlate 9).parameterIssues (stockPlate 9).defaultValues = [.notAnOption "t" 9] := by
    decide +kernel
  refine ⟨by decide +kernel, hissues, fun hleaves => ?_⟩
  let t : Parameter :=
    (Parameter.enumerated "t" "Thickness" "mm" [⟨"8 mm", 8⟩, ⟨"10 mm", 10⟩]).withDefault 9
  have hmem : t ∈ (stockPlate 9).parameters := List.mem_cons_of_mem _ List.mem_cons_self
  refine hleaves t hmem ⟨9, rfl, by decide +kernel⟩ (.notAnOption "t" 9) ⟨?_, rfl, rfl⟩
  rw [hissues]
  exact List.mem_singleton_self _

end Shape

end ShapeEstimator
