/-
  ShapeEstimator.Proofs.Formula.Variables
  ────────────────────────────────
  **WITH ALL VARIABLES BOUND ONLY ARITHMETIC CAN FAIL.**

  Evaluation looks a variable up where the tree has one, and the free variables of a
  tree are all that it has.  A call of a tree that was read has as many arguments as its
  function reads.  So for a tree that was read,

      all free variables bound   →   a failure is an arithmetic one

  What is left is a division by zero, a number out of range, or an argument outside the
  domain of a function, and of all aborts that of a square root.
-/
import ShapeEstimator.Formula.Compiled
import ShapeEstimator.Proofs.Formula.Exactness

namespace ShapeEstimator.Formula

/-! ## §1. Variables of a tree. -/

namespace Expr

mutual

/-- A variable stands somewhere in an expression. -/
def Mentions (name : String) : Expr → Prop
  | .number _ => False
  | .constant _ => False
  | .variable n => name = n
  | .unary _ operand => operand.Mentions name
  | .binary _ left right => left.Mentions name ∨ right.Mentions name
  | .call _ arguments => MentionsInAny name arguments

/-- A variable stands somewhere in a list of expressions. -/
def MentionsInAny (name : String) : List Expr → Prop
  | [] => False
  | x :: xs => x.Mentions name ∨ MentionsInAny name xs

end

theorem mem_addName {found : List String} {name n : String} :
    name ∈ addName found n ↔ name ∈ found ∨ name = n := by
  unfold addName
  by_cases hn : n ∈ found
  · rw [if_pos hn]
    exact ⟨Or.inl, fun h => h.elim id fun heq => heq ▸ hn⟩
  · rw [if_neg hn, List.mem_append, List.mem_singleton]

mutual

theorem mem_addVariables {name : String} :
    ∀ (x : Expr) (found : List String),
      name ∈ x.addVariables found ↔ name ∈ found ∨ x.Mentions name
  | .number _, found => by simp [addVariables, Mentions]
  | .constant _, found => by simp [addVariables, Mentions]
  | .variable n, found => by
    rw [addVariables, mem_addName, Mentions]
  | .unary _ operand, found => by
    rw [addVariables, mem_addVariables operand, Mentions]
  | .binary _ left right, found => by
    -- the right operand adds behind what the left one has added
    rw [addVariables, mem_addVariables right, mem_addVariables left, Mentions, or_assoc]
  | .call _ arguments, found => by
    rw [addVariables, mem_addVariablesOfAll arguments, Mentions]

theorem mem_addVariablesOfAll {name : String} :
    ∀ (xs : List Expr) (found : List String),
      name ∈ addVariablesOfAll found xs ↔ name ∈ found ∨ MentionsInAny name xs
  | [], found => by simp [addVariablesOfAll, MentionsInAny]
  | x :: xs, found => by
    rw [addVariablesOfAll, mem_addVariablesOfAll xs, mem_addVariables x, MentionsInAny, or_assoc]

end

/-- The free variables are the variables that stand in the tree. -/
theorem mem_freeVariables {x : Expr} {name : String} :
    name ∈ x.freeVariables ↔ x.Mentions name := by
  unfold freeVariables
  rw [mem_addVariables]
  exact or_iff_right List.not_mem_nil

/-! ## §2. Calls of a tree. -/

mutual

/-- Every call in an expression has as many arguments as its function takes. -/
def CallsFit : Expr → Prop
  | .number _ => True
  | .constant _ => True
  | .variable _ => True
  | .unary _ operand => operand.CallsFit
  | .binary _ left right => left.CallsFit ∧ right.CallsFit
  | .call f arguments => f.arity.admits arguments.length = true ∧ AllCallsFit arguments

/-- Every call in a list of expressions has as many arguments as its function takes. -/
def AllCallsFit : List Expr → Prop
  | [] => True
  | x :: xs => x.CallsFit ∧ AllCallsFit xs

end

end Expr

/-- The calls of a meaning fit.  The rest of a chain keeps this of what stands before it. -/
def Phrase.CallsOfFit : (p : Phrase) → p.Meaning → Prop
  | .summands, f | .factors, f => ∀ left : Expr, left.CallsFit → (f left).CallsFit
  | .arguments, xs => Expr.AllCallsFit xs
  | .expression, x | .product, x | .unary, x | .power, x | .primary, x => x.CallsFit

namespace Derivation

theorem callsFit_meaningOfName (text : String) : (meaningOfName text).CallsFit := by
  unfold meaningOfName
  split <;> trivial

/-- Where the calls of a derivation fit, those of its tree do. -/
theorem callsOfFit {p : Phrase} (d : Derivation p) (h : d.CallsFit) : p.CallsOfFit d.meaning := by
  induction d with
  | sum first more ihfirst ihmore => exact ihmore h.2 _ (ihfirst h.1)
  | noSummand => exact fun left hleft => hleft
  | summand op _ operand more ihoperand ihmore =>
    exact fun left hleft => ihmore h.2 _ ⟨hleft, ihoperand h.1⟩
  | product first more ihfirst ihmore => exact ihmore h.2 _ (ihfirst h.1)
  | noFactor => exact fun left hleft => hleft
  | factor op _ operand more ihoperand ihmore =>
    exact fun left hleft => ihmore h.2 _ ⟨hleft, ihoperand h.1⟩
  | signed sign operand ih => exact ih h
  | unsigned operand ih => exact ih h
  | base x ih => exact ih h
  | raised x exponent ihx ihexponent => exact ⟨ihx h.1, ihexponent h.2⟩
  | number value => trivial
  | name text => exact callsFit_meaningOfName text
  | call function args ih =>
    -- the function of the call is known, and the number of arguments is one that it takes
    obtain ⟨⟨f, hf, harity⟩, hargs⟩ := h
    show (meaningOfCall function args.meaning).CallsFit
    unfold meaningOfCall
    rw [hf]
    exact ⟨harity, ih hargs⟩
  | enclosed x ih => exact ih h
  | argument x ih => exact ⟨ih h, trivial⟩
  | argumentBefore x more ihx ihmore => exact ⟨ihx h.1, ihmore h.2⟩

end Derivation

/-- The calls of a tree that was read fit. -/
theorem callsFit_of_parse {source : String} {e : Expr} (h : parse source = .ok e) : e.CallsFit := by
  obtain ⟨_, d, _, _, hfit, _, rfl⟩ := derivation_of_parse h
  exact d.callsOfFit hfit

/-! ## §3. Arithmetic failures. -/

/-- Whether the values are to blame for a failure, and not the tree or its bindings. -/
def EvalFailure.isArithmetic : EvalFailure → Bool
  | .unknownVariable _ => false
  | .divisionByZero | .overflow _ | .domain _ _ => true

/-- A computation stops for arithmetic reasons only. -/
def ArithmeticOnly {α : Type} : Except (Stop EvalFailure) α → Prop
  | .ok _ | .error (.abort .unsettledRoot) => True
  | .error (.failure failure) => failure.isArithmetic = true
  | .error (.abort .missingArgument) => False

namespace ArithmeticOnly

variable {α β : Type}

@[simp] theorem ok (a : α) : ArithmeticOnly (.ok a : Except (Stop EvalFailure) α) := trivial

@[simp] theorem unsettledRoot :
    ArithmeticOnly (.error (.abort .unsettledRoot) : Except (Stop EvalFailure) α) := trivial

@[simp] theorem failure_iff {failure : EvalFailure} :
    ArithmeticOnly (.error (.failure failure) : Except (Stop EvalFailure) α)
      ↔ failure.isArithmetic = true :=
  Iff.rfl

theorem bind {x : Except (Stop EvalFailure) α} {f : α → Except (Stop EvalFailure) β}
    (hx : ArithmeticOnly x) (hf : ∀ a, x = .ok a → ArithmeticOnly (f a)) :
    ArithmeticOnly (x >>= f) := by
  rcases x with (failure | abort) | a
  · exact hx
  · cases abort <;> exact hx
  · exact hf a rfl

@[simp] theorem orOverflow (op : Operator) (x : Option Decimal) :
    ArithmeticOnly (Formula.orOverflow op x) := by
  cases x <;> simp [Formula.orOverflow, EvalFailure.isArithmetic]

@[simp] theorem orDomain (f : Function) (fault : DomainFault) (x : Option Decimal) :
    ArithmeticOnly (Formula.orDomain f fault x) := by
  cases x <;> simp [Formula.orDomain, EvalFailure.isArithmetic]

@[simp] theorem powerOutOfRange (base exponent : Decimal) :
    ArithmeticOnly (Formula.powerOutOfRange base exponent) := by
  unfold Formula.powerOutOfRange
  split <;> simp [EvalFailure.isArithmetic]

@[simp] theorem raise (base exponent : Decimal) : ArithmeticOnly (Formula.raise base exponent) := by
  unfold Formula.raise
  -- one branch for each way a power is computed
  repeat' split
  all_goals simp [EvalFailure.isArithmetic]

@[simp] theorem throughDouble (f : Function) (g : Float → Float) (x : Decimal) :
    ArithmeticOnly (Formula.throughDouble f g x) := by
  unfold Formula.throughDouble
  dsimp only
  split <;> simp [EvalFailure.isArithmetic]

@[simp] theorem naturalLog (f : Function) (x : Decimal) :
    ArithmeticOnly (Formula.naturalLog f x) := by
  unfold Formula.naturalLog
  split <;> simp [EvalFailure.isArithmetic]

@[simp] theorem logToBase (x base : Decimal) : ArithmeticOnly (Formula.logToBase x base) := by
  unfold Formula.logToBase
  refine (naturalLog .log x).bind fun above _ => (naturalLog .log base).bind fun below _ => ?_
  split <;> simp [EvalFailure.isArithmetic]

@[simp] theorem squareRoot (x : Decimal) : ArithmeticOnly (Formula.squareRoot x) := by
  unfold Formula.squareRoot
  split <;> simp [EvalFailure.isArithmetic]

@[simp] theorem cubeRoot (x : Decimal) : ArithmeticOnly (Formula.cubeRoot x) := by
  unfold Formula.cubeRoot
  split <;> simp [EvalFailure.isArithmetic]

theorem applyOperator (op : Operator) (x y : Decimal) :
    ArithmeticOnly (Formula.applyOperator op x y) := by
  unfold Formula.applyOperator
  cases op with
  | add | sub | mul | pow => simp
  | div | rem =>
    dsimp only
    split <;> simp [EvalFailure.isArithmetic]

/-- A function with as many arguments as it takes finds all that it reads. -/
theorem applyFunction (lib : DoubleFunctions) {f : Function} {xs : List Decimal}
    (h : f.arity.admits xs.length = true) : ArithmeticOnly (Formula.applyFunction lib f xs) := by
  cases xs with
  | nil => exact absurd h (by cases f <;> decide)
  | cons x more =>
    show ArithmeticOnly (applyTo lib f x more)
    cases f with
    | atan2 | pow =>
      -- these two read a second argument, and do not take one alone
      cases more with
      | nil => exact nomatch h
      | cons y rest => simp [applyTo]
    | log => cases more <;> simp [applyTo]
    | exp =>
      unfold applyTo
      dsimp only
      split <;> simp
    | log10 =>
      unfold applyTo
      dsimp only
      split <;> simp [EvalFailure.isArithmetic]
    | _ => simp [applyTo]

end ArithmeticOnly

/-! ## §4. Evaluation. -/

namespace Expr

variable {lib : DoubleFunctions} {scope : Scope}

theorem length_of_evaluateAllWith {es : List Expr} {vs : List Decimal}
    (h : evaluateAllWith lib scope es = .ok vs) : vs.length = es.length := by
  induction es generalizing vs with
  | nil =>
    cases h
    rfl
  | cons x xs ih =>
    rw [evaluateAllWith, bind_eq_ok] at h
    obtain ⟨y, _, h⟩ := h
    obtain ⟨ys, hys, h⟩ := bind_eq_ok.1 h
    cases h
    exact congrArg (· + 1) (ih hys)

mutual

/-- With all its variables bound, an expression whose calls fit fails for arithmetic reasons
only. -/
theorem evaluateWith_arithmeticOnly :
    ∀ (x : Expr), x.CallsFit → (∀ name, x.Mentions name → (scope name).isSome = true) →
      ArithmeticOnly (x.evaluateWith lib scope)
  | .number _, _, _ => .ok _
  | .constant _, _, _ => .ok _
  | .variable name, _, hbound => by
    obtain ⟨v, hv⟩ := Option.isSome_iff_exists.1 (hbound name rfl)
    rw [evaluateWith, hv]
    exact .ok v
  | .unary sign operand, hfit, hbound => by
    rw [evaluateWith]
    exact (evaluateWith_arithmeticOnly operand hfit hbound).bind fun v _ => .ok _
  | .binary op left right, hfit, hbound => by
    have hleft := evaluateWith_arithmeticOnly left hfit.1 fun name h => hbound name (Or.inl h)
    have hright := evaluateWith_arithmeticOnly right hfit.2 fun name h => hbound name (Or.inr h)
    rw [evaluateWith]
    exact hleft.bind fun v _ => hright.bind fun w _ => .applyOperator op v w
  | .call f arguments, hfit, hbound => by
    rw [evaluateWith]
    refine (evaluateAllWith_arithmeticOnly arguments hfit.2 hbound).bind fun vs hvs => ?_
    -- as many values as arguments, so the function gets what it takes
    apply ArithmeticOnly.applyFunction
    rw [length_of_evaluateAllWith hvs]
    exact hfit.1

theorem evaluateAllWith_arithmeticOnly :
    ∀ (xs : List Expr), AllCallsFit xs →
      (∀ name, MentionsInAny name xs → (scope name).isSome = true) →
        ArithmeticOnly (evaluateAllWith lib scope xs)
  | [], _, _ => .ok _
  | x :: xs, hfit, hbound => by
    have hx := evaluateWith_arithmeticOnly x hfit.1 fun name h => hbound name (Or.inl h)
    have hxs := evaluateAllWith_arithmeticOnly xs hfit.2 fun name h => hbound name (Or.inr h)
    rw [evaluateAllWith]
    exact hx.bind fun v _ => hxs.bind fun vs _ => .ok _

end

end Expr

/-! ## §5. Compiled expressions. -/

/-- What can still be wrong with an expression whose variables all have a value. -/
inductive BindingFailure.FromValues (values : Bindings) : BindingFailure → Prop where
  | notFinite {name : String} {value : Float} (bound : values name = some value)
      (infinite : ¬ value.isFinite = true) : FromValues values (.notFinite name value)
  | outsideRange {name : String} {value : Float} (bound : values name = some value)
      (finite : value.isFinite = true) (tooBig : Decimal.lift? value = none) :
      FromValues values (.outsideRange name value)
  | noValue {failure : EvalFailure} (arithmetic : failure.isArithmetic = true) :
      FromValues values (.noValue failure)

namespace Compiled

variable {values : Bindings}

theorem ofSource_eq_ok {source : String} {e : Expr} (h : parse source = .ok e) :
    ofSource source = .ok ⟨source, e⟩ := by
  unfold ofSource
  rw [h]
  rfl

theorem bindingFailure?_fromValues {name : String} {failure : BindingFailure}
    (h : bindingFailure? values name = some failure) : failure.FromValues values := by
  unfold bindingFailure? at h
  split at h
  · exact nomatch h
  · rename_i value hvalue
    by_cases hfinite : value.isFinite = true
    · rw [hfinite] at h
      cases hlift : Decimal.lift? value with
      | none =>
        rw [hlift] at h
        cases h
        exact .outsideRange hvalue hfinite hlift
      | some v =>
        rw [hlift] at h
        exact nomatch h
    · rw [Bool.not_eq_true] at hfinite
      rw [hfinite] at h
      cases h
      exact .notFinite hvalue (by rw [hfinite]; nofun)

/-- A variable with nothing wrong with its binding is in scope, if it is bound. -/
theorem scope_isSome_of_bindingFailure?_eq_none {name : String}
    (h : bindingFailure? values name = none) (hbound : (values name).isSome = true) :
    (scope values name).isSome = true := by
  obtain ⟨value, hvalue⟩ := Option.isSome_iff_exists.1 hbound
  unfold bindingFailure? at h
  unfold scope
  rw [hvalue] at h ⊢
  dsimp only at h
  split at h
  · exact nomatch h
  · split at h
    · exact nomatch h
    · rename_i hlift
      rw [Bool.not_eq_true, Option.isNone_eq_false_iff] at hlift
      exact hlift

/-- What the tree of a compiled expression with all its variables bound stops for. -/
theorem arithmeticOnly_of_bound {source : String} {c : Compiled} (hc : ofSource source = .ok c)
    (hbound : ∀ name ∈ c.freeVariables, (values name).isSome = true)
    (hfine : ∀ name ∈ c.freeVariables, bindingFailure? values name = none) :
    ArithmeticOnly (c.tree.evaluate (scope values)) := by
  unfold ofSource at hc
  obtain ⟨tree, htree, hc⟩ := bind_eq_ok.1 hc
  cases hc
  have hscope : ∀ name, tree.Mentions name → (scope values name).isSome = true := by
    intro name hname
    have hfree : name ∈ tree.freeVariables := Expr.mem_freeVariables.2 hname
    exact scope_isSome_of_bindingFailure?_eq_none (hfine name hfree) (hbound name hfree)
  exact Expr.evaluateWith_arithmeticOnly tree (callsFit_of_parse htree) hscope

/-- **With all variables bound only values can be wrong.**  A compiled expression fails because the
value of a variable is no decimal, or for arithmetic reasons, and it is aborted by a root. -/
theorem fromValues_of_evaluate {source : String} {c : Compiled} {stop : Stop BindingFailure}
    (hc : ofSource source = .ok c) (hbound : ∀ name ∈ c.freeVariables, (values name).isSome = true)
    (h : c.evaluate values = .error stop) :
    (∃ failure : BindingFailure, failure.FromValues values ∧ stop = .failure failure)
      ∨ stop = .abort .unsettledRoot := by
  unfold evaluate at h
  split at h
  · -- the first bad binding is reported
    rename_i reported hreported
    cases h
    obtain ⟨name, _, hname⟩ := List.exists_of_findSome?_eq_some hreported
    exact Or.inl ⟨reported, bindingFailure?_fromValues hname, rfl⟩
  · rename_i hfine
    have harithmetic := arithmeticOnly_of_bound hc hbound (List.findSome?_eq_none_iff.1 hfine)
    split at h
    · exact nomatch h
    · rename_i cause hcause
      rw [hcause] at harithmetic
      cases h
      rcases cause with failure | (_ | _)
      · exact Or.inl ⟨.noValue failure, .noValue harithmetic, rfl⟩
      · exact Or.inr rfl
      · exact harithmetic.elim

end Compiled

end ShapeEstimator.Formula
