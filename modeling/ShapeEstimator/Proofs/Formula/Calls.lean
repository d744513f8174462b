/-
  ShapeEstimator.Proofs.Formula.Calls
  ────────────────────────────────
  **CALLS FIND THEIR ARGUMENTS, AND ONLY ROOTS ARE ABORTED.**

  A function reads its first argument, and two functions read a second one, without
  asking how many there are.  A call of a tree that was read has an argument for each
  of these reads, however deep in the tree it stands.

  What evaluation carries out are the calls that it reaches: it goes through operands
  from left to right while they have values.  Evaluation is aborted exactly where one
  of these calls is:

      evaluation of e is aborted   ⟺   a call reached in e is aborted

  For a tree that was read this leaves a single reason, a square root whose
  approximations do not come to rest.
-/
import ShapeEstimator.Formula.Evaluation
import ShapeEstimator.Proofs.Decimal.SquareRoot
import ShapeEstimator.Proofs.Formula.FirstFault
import ShapeEstimator.Proofs.Formula.Ranges
import ShapeEstimator.Proofs.Formula.Variables

namespace ShapeEstimator

/-! ## §1. Reads of a function. -/

/-- How many arguments a function reads without asking whether they are there. -/
def Function.reads : Function → ℕ
  | .atan2 | .pow => 2
  | _ => 1

/-- A function that takes a number of arguments finds all that it reads. -/
theorem Function.reads_le_of_admits {f : Function} {n : ℕ} (h : f.arity.admits n = true) :
    f.reads ≤ n := by
  have hleast : f.reads = f.arity.least := by cases f <;> rfl
  unfold Arity.admits at h
  rw [Bool.and_eq_true, decide_eq_true_eq] at h
  exact hleast.trans_le h.1

/-- A square root takes a single argument. -/
theorem Function.length_of_admits_sqrt {n : ℕ} (h : Function.sqrt.arity.admits n = true) :
    n = 1 := by
  unfold Arity.admits at h
  rw [Bool.and_eq_true, decide_eq_true_eq] at h
  exact le_antisymm (of_decide_eq_true h.2) h.1

namespace Formula

/-! ## §2. What is not aborted. -/

section

variable {α β : Type}

theorem not_aborts_bind {x : Except (Stop EvalFailure) α} {g : α → Except (Stop EvalFailure) β}
    (hx : ¬ Aborts x) (hg : ∀ a, ¬ Aborts (g a)) : ¬ Aborts (x >>= g) := by
  rcases x with (failure | a) | a
  · exact not_aborts_failure failure
  · exact absurd (aborts_abort a) hx
  · exact hg a

@[simp] theorem not_aborts_orOverflow (op : Operator) (x : Option Decimal) :
    ¬ Aborts (orOverflow op x) := by
  cases x <;> simp [orOverflow]

@[simp] theorem not_aborts_orDomain (f : Function) (fault : DomainFault) (x : Option Decimal) :
    ¬ Aborts (orDomain f fault x) := by
  cases x <;> simp [orDomain]

@[simp] theorem not_aborts_powerOutOfRange (base exponent : Decimal) :
    ¬ Aborts (powerOutOfRange base exponent) := by
  unfold powerOutOfRange
  split <;> simp

@[simp] theorem not_aborts_raise (base exponent : Decimal) : ¬ Aborts (raise base exponent) := by
  unfold raise
  -- one branch for each way a power is computed
  repeat' split
  all_goals simp

@[simp] theorem not_aborts_throughDouble (f : Function) (g : Float → Float) (x : Decimal) :
    ¬ Aborts (throughDouble f g x) := by
  unfold throughDouble
  dsimp only
  split <;> simp

@[simp] theorem not_aborts_naturalLog (f : Function) (x : Decimal) :
    ¬ Aborts (naturalLog f x) := by
  unfold naturalLog
  split <;> simp

@[simp] theorem not_aborts_logToBase (x base : Decimal) : ¬ Aborts (logToBase x base) := by
  unfold logToBase
  refine not_aborts_bind (not_aborts_naturalLog .log x) fun above => ?_
  refine not_aborts_bind (not_aborts_naturalLog .log base) fun below => ?_
  split <;> simp

@[simp] theorem not_aborts_cubeRoot (x : Decimal) : ¬ Aborts (cubeRoot x) := by
  unfold cubeRoot
  split <;> simp

theorem not_aborts_applyOperator (op : Operator) (x y : Decimal) :
    ¬ Aborts (applyOperator op x y) := by
  unfold applyOperator
  cases op with
  | add | sub | mul | pow => simp
  | div | rem =>
    dsimp only
    split <;> simp

end

/-! ## §3. What a call comes to. -/

section

variable {lib : DoubleFunctions} {f : Function} {xs : List Decimal} {a : Abort}

/-- A function without one of the arguments that it reads. -/
theorem applyFunction_of_lt_reads (h : xs.length < f.reads) :
    applyFunction lib f xs = .error (.abort .missingArgument) := by
  match xs, h with
  | [], _ => rfl
  | [x], h => cases f <;> first | rfl | exact absurd h (Nat.lt_irrefl 1)
  | _ :: _ :: more, h =>
    have hmost : f.reads ≤ 2 := by cases f <;> decide
    simp only [List.length_cons] at h
    omega

/-- A function other than the square root is not aborted if it finds what it reads. -/
theorem not_aborts_applyFunction (h : f.reads ≤ xs.length) (hroot : f ≠ .sqrt) :
    ¬ Aborts (applyFunction lib f xs) := by
  cases xs with
  | nil => exact absurd h (by cases f <;> decide)
  | cons x more =>
    show ¬ Aborts (applyTo lib f x more)
    cases f with
    | sqrt => exact absurd rfl hroot
    | atan2 | pow =>
      -- these two read a second argument
      cases more with
      | nil => exact absurd h (Nat.not_succ_le_self 1)
      | cons y rest => simp [applyTo]
    | log => cases more <;> simp [applyTo]
    | exp =>
      unfold applyTo
      dsimp only
      split <;> simp
    | log10 =>
      unfold applyTo
      dsimp only
      split <;> simp
    | _ => simp [applyTo]

/-- A square root is aborted where its approximations do not come to rest. -/
theorem squareRoot_eq_abort_iff {x : Decimal} :
    squareRoot x = .error (.abort a) ↔ x.sqrt = .error .unsettled ∧ a = .unsettledRoot := by
  unfold squareRoot
  split
  · rename_i hroot
    simp [hroot]
  · rename_i hroot
    simp [hroot]
  · rename_i hroot
    simp [hroot, eq_comm]

/-- **What aborts a call.**  An argument is missing, or a root does not come to rest. -/
theorem applyFunction_eq_abort_iff :
    applyFunction lib f xs = .error (.abort a) ↔
      (xs.length < f.reads ∧ a = .missingArgument)
        ∨ (f = .sqrt ∧ (∃ x ∈ xs.head?, x.sqrt = .error .unsettled) ∧ a = .unsettledRoot) := by
  rcases lt_or_ge xs.length (f.reads) with hlt | hge
  · rw [applyFunction_of_lt_reads hlt]
    constructor
    · rintro ⟨⟩
      exact Or.inl ⟨hlt, rfl⟩
    · rintro (⟨-, rfl⟩ | ⟨rfl, ⟨x, hx, -⟩, -⟩)
      · rfl
      · -- a root reads one argument, and here is one
        obtain ⟨more, rfl⟩ := List.head?_eq_some_iff.1 hx
        exact absurd hlt (by simp [Function.reads])
  · rw [or_iff_right fun hboth => absurd hboth.1 (not_lt.2 hge)]
    by_cases hroot : f = .sqrt
    · subst hroot
      cases xs with
      | nil => exact absurd hge (by decide)
      | cons x more =>
        show squareRoot x = .error (.abort a) ↔ _
        simp [squareRoot_eq_abort_iff]
    · constructor
      · intro h
        exact absurd ⟨a, h⟩ (not_aborts_applyFunction hge hroot)
      · exact fun hboth => absurd hboth.1 hroot

end

/-! ## §4. Calls that evaluation reaches. -/

namespace Expr

section

variable (lib : DoubleFunctions) (scope : Scope) (f : Function) (vs : List Decimal)

mutual

/-- Evaluation of an expression carries out a call with these values.  An operand is reached where
the operands on its left have values. -/
def Reaches : Expr → Prop
  | .number _ | .constant _ | .variable _ => False
  | .unary _ operand => operand.Reaches
  | .binary _ left right =>
    left.Reaches ∨ (∃ v, left.evaluateWith lib scope = .ok v) ∧ right.Reaches
  | .call g arguments =>
    ReachesInAny arguments ∨ g = f ∧ evaluateAllWith lib scope arguments = .ok vs

/-- Evaluation of a list of expressions carries out a call with these values. -/
def ReachesInAny : List Expr → Prop
  | [] => False
  | x :: xs => x.Reaches ∨ (∃ v, x.evaluateWith lib scope = .ok v) ∧ ReachesInAny xs

end

end

variable {lib : DoubleFunctions} {scope : Scope} {f : Function} {vs : List Decimal}
  {stop : Stop EvalFailure} {a : Abort}

mutual

/-- A call without a value ends the evaluation that reaches it. -/
theorem evaluateWith_of_reaches (hstops : applyFunction lib f vs = .error stop) :
    ∀ e : Expr, e.Reaches lib scope f vs → e.evaluateWith lib scope = .error stop
  | .number _, h | .constant _, h | .variable _, h => h.elim
  | .unary _ operand, h => by
    rw [evaluateWith, evaluateWith_of_reaches hstops operand h]
    rfl
  | .binary _ left right, .inl h => by
    rw [evaluateWith, evaluateWith_of_reaches hstops left h]
    rfl
  | .binary _ left right, .inr ⟨⟨v, hv⟩, h⟩ => by
    rw [evaluateWith, hv, evaluateWith_of_reaches hstops right h]
    rfl
  | .call g arguments, .inl h => by
    rw [evaluateWith, evaluateAllWith_of_reaches hstops arguments h]
    rfl
  | .call g arguments, .inr ⟨hg, hvs⟩ => by
    rw [evaluateWith, hvs, hg, ← hstops]
    rfl

theorem evaluateAllWith_of_reaches (hstops : applyFunction lib f vs = .error stop) :
    ∀ es : List Expr, ReachesInAny lib scope f vs es →
      evaluateAllWith lib scope es = .error stop
  | [], h => h.elim
  | e :: es, .inl h => by
    rw [evaluateAllWith, evaluateWith_of_reaches hstops e h]
    rfl
  | e :: es, .inr ⟨⟨v, hv⟩, h⟩ => by
    rw [evaluateAllWith, hv, evaluateAllWith_of_reaches hstops es h]
    rfl

end

mutual

/-- What aborts an evaluation is a call that it reaches. -/
theorem exists_reaches_of_evaluateWith :
    ∀ e : Expr, e.evaluateWith lib scope = .error (.abort a) →
      ∃ f vs, e.Reaches lib scope f vs ∧ applyFunction lib f vs = .error (.abort a)
  | .number _, h | .constant _, h => nomatch h
  | .variable name, h => by
    rw [evaluateWith] at h
    split at h <;> exact nomatch h
  | .unary _ operand, h => by
    rw [evaluateWith] at h
    rcases bind_eq_error h with h | ⟨v, -, h⟩
    · exact exists_reaches_of_evaluateWith operand h
    · exact nomatch h
  | .binary op left right, h => by
    rw [evaluateWith] at h
    rcases bind_eq_error h with h | ⟨v, hv, h⟩
    · obtain ⟨f, vs, hreach, habort⟩ := exists_reaches_of_evaluateWith left h
      exact ⟨f, vs, Or.inl hreach, habort⟩
    rcases bind_eq_error h with h | ⟨w, -, h⟩
    · obtain ⟨f, vs, hreach, habort⟩ := exists_reaches_of_evaluateWith right h
      exact ⟨f, vs, Or.inr ⟨⟨v, hv⟩, hreach⟩, habort⟩
    · -- an operator is never aborted
      exact absurd ⟨a, h⟩ (not_aborts_applyOperator op v w)
  | .call g arguments, h => by
    rw [evaluateWith] at h
    rcases bind_eq_error h with h | ⟨vs, hvs, h⟩
    · obtain ⟨f, vs, hreach, habort⟩ := exists_reaches_of_evaluateAllWith arguments h
      exact ⟨f, vs, Or.inl hreach, habort⟩
    · exact ⟨g, vs, Or.inr ⟨rfl, hvs⟩, h⟩

theorem exists_reaches_of_evaluateAllWith :
    ∀ es : List Expr, evaluateAllWith lib scope es = .error (.abort a) →
      ∃ f vs, ReachesInAny lib scope f vs es ∧ applyFunction lib f vs = .error (.abort a)
  | [], h => nomatch h
  | e :: es, h => by
    rw [evaluateAllWith] at h
    rcases bind_eq_error h with h | ⟨v, hv, h⟩
    · obtain ⟨f, vs, hreach, habort⟩ := exists_reaches_of_evaluateWith e h
      exact ⟨f, vs, Or.inl hreach, habort⟩
    rcases bind_eq_error h with h | ⟨ws, -, h⟩
    · obtain ⟨f, vs, hreach, habort⟩ := exists_reaches_of_evaluateAllWith es h
      exact ⟨f, vs, Or.inr ⟨⟨v, hv⟩, hreach⟩, habort⟩
    · exact nomatch h

end

/-- **Evaluation is aborted exactly where a call that it reaches is**, and by what aborts the
call. -/
theorem evaluateWith_eq_abort_iff {e : Expr} :
    e.evaluateWith lib scope = .error (.abort a) ↔
      ∃ f vs, e.Reaches lib scope f vs ∧ applyFunction lib f vs = .error (.abort a) :=
  ⟨exists_reaches_of_evaluateWith e,
    fun ⟨_, _, hreach, habort⟩ => evaluateWith_of_reaches habort e hreach⟩

mutual

/-- Where the calls of an expression fit, those that are reached have as many values as their
function takes. -/
theorem CallsFit.admits : ∀ e : Expr, e.CallsFit → e.Reaches lib scope f vs →
    f.arity.admits vs.length = true
  | .number _, _, h | .constant _, _, h | .variable _, _, h => h.elim
  | .unary _ operand, hfit, h => CallsFit.admits operand hfit h
  | .binary _ left _, hfit, .inl h => CallsFit.admits left hfit.1 h
  | .binary _ _ right, hfit, .inr ⟨_, h⟩ => CallsFit.admits right hfit.2 h
  | .call _ arguments, hfit, .inl h => AllCallsFit.admits arguments hfit.2 h
  | .call g arguments, hfit, .inr ⟨hg, hvs⟩ => by
    -- as many values as arguments
    rw [← hg, length_of_evaluateAllWith hvs]
    exact hfit.1

theorem AllCallsFit.admits : ∀ es : List Expr, AllCallsFit es → ReachesInAny lib scope f vs es →
    f.arity.admits vs.length = true
  | [], _, h => h.elim
  | e :: _, hfit, .inl h => CallsFit.admits e hfit.1 h
  | _ :: es, hfit, .inr ⟨_, h⟩ => AllCallsFit.admits es hfit.2 h

end

end Expr

/-! ## §5. Trees that were read. -/

section

variable {source : String} {e : Expr} {lib : DoubleFunctions} {scope : Scope} {a : Abort}

/-- A call that is reached in a tree that was read finds what its function reads. -/
theorem reads_le_of_parse (h : parse source = .ok e) {f : Function} {vs : List Decimal}
    (hreach : e.Reaches lib scope f vs) :
    f.arity.admits vs.length = true ∧ f.reads ≤ vs.length :=
  have hadmits := (callsFit_of_parse h).admits e hreach
  ⟨hadmits, Function.reads_le_of_admits hadmits⟩

/-- What aborts the evaluation of a tree that was read is a root without rest. -/
theorem evaluateWith_eq_abort_iff_of_parse (h : parse source = .ok e) :
    e.evaluateWith lib scope = .error (.abort a) ↔
      a = .unsettledRoot ∧ ∃ v, e.Reaches lib scope .sqrt [v] ∧ v.sqrt = .error .unsettled := by
  rw [Expr.evaluateWith_eq_abort_iff]
  constructor
  · rintro ⟨f, vs, hreach, habort⟩
    obtain ⟨hadmits, hread⟩ := reads_le_of_parse h hreach
    rcases applyFunction_eq_abort_iff.1 habort with ⟨hlt, -⟩ | ⟨rfl, ⟨w, hw, hrest⟩, ha⟩
    · exact absurd hread (not_le.2 hlt)
    · obtain ⟨v, rfl⟩ := List.length_eq_one_iff.1 (Function.length_of_admits_sqrt hadmits)
      obtain rfl : v = w := Option.some.inj hw
      exact ⟨ha, v, hreach, hrest⟩
  · rintro ⟨ha, v, hreach, hrest⟩
    exact ⟨.sqrt, [v], hreach, applyFunction_eq_abort_iff.2 (Or.inr ⟨rfl, ⟨v, rfl, hrest⟩, ha⟩)⟩

/-- An evaluation for given bindings takes a root without rest. -/
structure Compiled.TakesUnsettledRoot (c : Compiled) (values : Bindings) : Prop where
  /-- What is bound to the free variables has a decimal. -/
  lifted : ∀ name ∈ c.freeVariables, bindingFailure? values name = none
  /-- The approximations of a root that is reached do not come to rest. -/
  reached : ∃ v, c.tree.Reaches .system (Compiled.scope values) .sqrt [v]
    ∧ v.sqrt = .error .unsettled

/-- What aborts a compiled expression is a root without rest. -/
theorem Compiled.evaluate_eq_abort_iff {c : Compiled} {values : Bindings}
    (h : ofSource source = .ok c) :
    c.evaluate values = .error (.abort a) ↔
      a = .unsettledRoot ∧ c.TakesUnsettledRoot values := by
  unfold ofSource at h
  obtain ⟨tree, htree, h⟩ := bind_eq_ok.1 h
  cases h
  have habort : tree.evaluate (Compiled.scope values) = .error (.abort a) ↔ _ :=
    evaluateWith_eq_abort_iff_of_parse htree
  unfold evaluate
  split
  · -- a binding without a decimal is reported before anything is computed
    rename_i failure hfailure
    refine iff_of_false nofun fun hall => ?_
    exact nomatch hfailure.symm.trans (List.findSome?_eq_none_iff.2 hall.2.lifted)
  · rename_i hfine
    have hlifted := List.findSome?_eq_none_iff.1 hfine
    trans tree.evaluate (Compiled.scope values) = .error (.abort a)
    · dsimp only
      rcases tree.evaluate (Compiled.scope values) with (failure | other) | v <;> simp
    · rw [habort]
      exact and_congr_right fun _ => ⟨fun hroot => ⟨hlifted, hroot⟩, fun hroot => hroot.reached⟩

end

/-- **Calls of a tree that was read find their arguments, and end unless a root does not.**  Every
call in the tree has as many arguments as its function takes, so every call that an evaluation
carries out finds what the function reads; and the evaluation ends with a value or a failure exactly
where the approximations of every root that it takes come to rest. -/
theorem calls_of_parse {source : String} {e : Expr} (h : parse source = .ok e) :
    e.CallsFit ∧ ∀ (lib : DoubleFunctions) (scope : Scope),
      (∀ f vs, e.Reaches lib scope f vs →
        f.arity.admits vs.length = true ∧ f.reads ≤ vs.length)
      ∧ e.evaluateWith lib scope ≠ .error (.abort .missingArgument)
      ∧ (¬ Aborts (e.evaluateWith lib scope) ↔
          ∀ v, e.Reaches lib scope .sqrt [v] → v.sqrt ≠ .error .unsettled) := by
  refine ⟨callsFit_of_parse h, fun lib scope => ⟨fun f vs => reads_le_of_parse h, ?_, ?_⟩⟩
  · intro hmissing
    exact nomatch ((evaluateWith_eq_abort_iff_of_parse h).1 hmissing).1
  · unfold Aborts
    simp only [evaluateWith_eq_abort_iff_of_parse h]
    simp

/-- The square of a root, as a call in a call. -/
def squareOfRoot : Expr := .call .pow [.call .sqrt [.variable "x"], .number .two]

/-- The tree of `pow(sqrt(x), 2)` takes the root of `x` alone, and at two there is one. -/
theorem squareOfRoot_answers :
    parse "pow(sqrt(x), 2)" = .ok squareOfRoot
      ∧ ¬ Aborts (squareOfRoot.evaluate fun _ => some .two) := by
  have hparse : parse "pow(sqrt(x), 2)" = .ok squareOfRoot := parse_eq_ok (by decide +kernel)
  refine ⟨hparse, ((calls_of_parse hparse).2 .system _).2.2.2 fun v hreach => ?_⟩
  rcases hreach with (hroot | ⟨-, htwo | ⟨-, hnone⟩⟩) | ⟨hpow, -⟩
  · rcases hroot with (hx | ⟨-, hnone⟩) | ⟨-, hv⟩
    · exact hx.elim
    · exact hnone.elim
    · cases hv
      decide +kernel
  · exact htwo.elim
  · exact hnone.elim
  · exact nomatch hpow

theorem places_le_maxScale : 28 ≤ 28 := le_rfl

/-- Four, and `3` in its last place. -/
def slightlyAboveFour : Decimal where
  negative := false
  coefficient := 40000000000000000000000000003
  scale := 28
  scale_le := places_le_maxScale

/-- The approximations of this root end in `2` and `2.0000000000000000000000000001` in turn. -/
theorem slightlyAboveFour_sqrt : slightlyAboveFour.sqrt = .error .unsettled :=
  Decimal.sqrt_eq_unsettled 3
    (a := { negative := false, coefficient := 2000000000000000000000, scale := 21 })
    (b := { negative := false, coefficient := 20000000000000000000000000001, scale := 28 })
    rfl rfl (by decide) (by decide +kernel)
    ⟨by decide +kernel, by decide +kernel, by decide +kernel⟩

/-- The root of this number, which is aborted in every scope. -/
theorem evaluateWith_sqrt_slightlyAboveFour (lib : DoubleFunctions) (scope : Scope) :
    (Expr.call .sqrt [.number slightlyAboveFour]).evaluateWith lib scope
      = .error (.abort .unsettledRoot) := by
  have hreach : (Expr.call .sqrt [.number slightlyAboveFour]).Reaches lib scope .sqrt
      [slightlyAboveFour] :=
    Or.inr ⟨rfl, rfl⟩
  refine Expr.evaluateWith_of_reaches ?_ _ hreach
  exact applyFunction_eq_abort_iff.2 (Or.inr ⟨rfl, ⟨_, rfl, slightlyAboveFour_sqrt⟩, rfl⟩)

theorem parse_sqrt_slightlyAboveFour :
    parse "sqrt(4.0000000000000000000000000003)" = .ok (.call .sqrt [.number slightlyAboveFour]) :=
  parse_eq_ok (by decide +kernel)

/-- **The root of a number that was read need not end**, though its call has the argument that it
reads. -/
theorem root_slightlyAboveFour :
    parse "sqrt(4.0000000000000000000000000003)" = .ok (.call .sqrt [.number slightlyAboveFour])
      ∧ ∀ (lib : DoubleFunctions) (scope : Scope),
          Aborts ((Expr.call .sqrt [.number slightlyAboveFour]).evaluateWith lib scope) :=
  ⟨parse_sqrt_slightlyAboveFour,
    fun lib scope => ⟨_, evaluateWith_sqrt_slightlyAboveFour lib scope⟩⟩

/-! ## §6. Formulas that are aborted. -/

section

variable {context : NameMap Float} {density : Option Float}

/-- Where no name is missing and the expression can be read, what aborts the expression aborts the
formula. -/
theorem Definition.evaluate_of_aborted {f : Definition} {c : Compiled} {a : Abort}
    (hmissing : f.missing (resolve context density) = [])
    (hread : Compiled.ofSource f.expression = .ok c)
    (haborted : c.evaluate (resolve context density) = .error (.abort a)) :
    f.evaluate context density = .error (.abort a) := by
  unfold Definition.evaluate Definition.outcome
  rw [hmissing]
  dsimp only
  rw [hread]
  dsimp only
  rw [haborted]
  rfl

end

/-- A length that is the root of a number slightly above four. -/
def unsettledLength : Definition where
  expression := "sqrt(4.0000000000000000000000000003)"
  declared := []
  unit := "mm"

/-- It is aborted in every context. -/
theorem evaluate_unsettledLength (context : NameMap Float) (density : Option Float) :
    unsettledLength.evaluate context density = .error (.abort .unsettledRoot) := by
  have hread : Compiled.ofSource unsettledLength.expression
      = .ok ⟨unsettledLength.expression, .call .sqrt [.number slightlyAboveFour]⟩ :=
    Compiled.ofSource_eq_ok parse_sqrt_slightlyAboveFour
  refine Definition.evaluate_of_aborted rfl hread ((Compiled.evaluate_eq_abort_iff hread).2 ?_)
  refine ⟨rfl, fun name hname => ?_, slightlyAboveFour, Or.inr ⟨rfl, rfl⟩, slightlyAboveFour_sqrt⟩
  exact absurd hname List.not_mem_nil

end Formula

end ShapeEstimator
