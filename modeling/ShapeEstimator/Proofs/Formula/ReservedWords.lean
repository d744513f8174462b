/-
  ShapeEstimator.Proofs.Formula.ReservedWords
  ────────────────────────────────
  **A FUNCTION'S NAME IS RESERVED IN FRONT OF A PARENTHESIS ONLY.**

  What a name stands for is decided by the token directly behind it:

      name (      a call of the function with this name
      name        the constant with this name, or else a variable

  So no variable has the name of a constant.  A variable has the name of a function
  where that name stands without a parenthesis behind it, and one name is a function and
  a variable of the same formula where it stands both ways.
-/
import ShapeEstimator.Proofs.Formula.FreeNames
import ShapeEstimator.Proofs.Formula.Ranges

namespace ShapeEstimator

/-- A function is known by its name alone. -/
theorem Function.ofName?_eq_some {name : String} {f : Function} :
    Function.ofName? name = some f ↔ name = f.name := by
  constructor
  · intro h
    unfold Function.ofName? at h
    have hname := List.find?_some h
    exact (beq_iff_eq.1 hname).symm
  · rintro rfl
    exact Function.ofName?_name f

theorem Function.name_injective : name.Injective := by
  intro f g h
  have hread : some f = some g := by rw [← ofName?_name, h, ofName?_name]
  exact Option.some.inj hread

/-- No constant has the name of a function. -/
theorem Constant.ofName?_name (f : Function) : Constant.ofName? f.name = none := by
  cases f <;> decide

namespace Formula

/-! ## §1. Functions of a tree. -/

namespace Expr

mutual

/-- The functions that an expression calls from left to right, as often as it does. -/
def functions : Expr → List Function
  | .number _ => []
  | .constant _ => []
  | .variable _ => []
  | .unary _ operand => operand.functions
  | .binary _ left right => left.functions ++ right.functions
  | .call f arguments => f :: functionsInAll arguments

/-- The functions that a list of expressions calls from left to right, as often as it does. -/
def functionsInAll : List Expr → List Function
  | [] => []
  | x :: xs => x.functions ++ functionsInAll xs

end

end Expr

/-! ## §2. Names and what stands behind them. -/

/-- Among some tokens a name stands with an opening parenthesis directly behind it. -/
def IsCalled (name : String) (ks : List TokenKind) : Prop := [.name name, .leftParen] <:+: ks

/-- Among some tokens a name stands with something else than an opening parenthesis directly behind
it. -/
def StandsAlone (name : String) (ks : List TokenKind) : Prop :=
  ∃ k, k ≠ .leftParen ∧ [.name name, k] <:+: ks

/-- Two tokens stand side by side at the head of a list, or behind it. -/
theorem pair_infix_cons {a b k : TokenKind} {ks : List TokenKind} :
    [a, b] <:+: k :: ks ↔ (a = k ∧ ks.head? = some b) ∨ [a, b] <:+: ks := by
  rw [List.infix_cons_iff, List.cons_prefix_cons]
  cases ks with
  | nil => simp
  | cons l ls => simp [List.cons_prefix_cons, eq_comm]

/-- A name stands alone at the head of a list, or behind it. -/
theorem standsAlone_cons {name : String} {k next : TokenKind} {ks : List TokenKind}
    (hnext : ks.head? = some next) :
    StandsAlone name (k :: ks) ↔ (k = .name name ∧ next ≠ .leftParen) ∨ StandsAlone name ks := by
  unfold StandsAlone
  simp only [pair_infix_cons, hnext]
  constructor
  · rintro ⟨l, hl, ⟨rfl, hnext⟩ | hinfix⟩
    · cases hnext
      exact Or.inl ⟨rfl, hl⟩
    · exact Or.inr ⟨l, hl, hinfix⟩
  · rintro (⟨rfl, hl⟩ | ⟨l, hl, hinfix⟩)
    · exact ⟨next, hl, Or.inl ⟨rfl, rfl⟩⟩
    · exact ⟨l, hl, Or.inr hinfix⟩

/-- Before an end token, the free names are those that are no constants and stand alone. -/
theorem mem_freeNames {name : String} {ks : List TokenKind} :
    name ∈ freeNames (ks ++ [.finish]) ↔
      Constant.ofName? name = none ∧ StandsAlone name (ks ++ [.finish]) := by
  induction ks with
  | nil => simp [freeNames, StandsAlone, pair_infix_cons]
  | cons k rest ih =>
    -- there is a next token, the end token at the latest
    obtain ⟨next, hnext⟩ : ∃ next, (rest ++ [TokenKind.finish]).head? = some next := by
      cases rest <;> exact ⟨_, rfl⟩
    rw [List.cons_append, standsAlone_cons hnext]
    cases k with
    | name text =>
      rw [freeNames, hnext]
      simp only [Option.isNone_iff_eq_none, ne_eq, Option.some.injEq]
      by_cases hfree : Constant.ofName? text = none ∧ ¬ next = .leftParen
      · rw [if_pos hfree, List.mem_cons, ih]
        constructor
        · rintro (rfl | ⟨hconstant, halone⟩)
          · exact ⟨hfree.1, Or.inl ⟨rfl, hfree.2⟩⟩
          · exact ⟨hconstant, Or.inr halone⟩
        · rintro ⟨hconstant, ⟨htext, _⟩ | halone⟩
          · cases htext
            exact Or.inl rfl
          · exact Or.inr ⟨hconstant, halone⟩
      · rw [if_neg hfree, ih]
        refine and_congr_right fun hconstant => (or_iff_right ?_).symm
        rintro ⟨htext, hnext⟩
        cases htext
        exact hfree ⟨hconstant, hnext⟩
    | number | operator | leftParen | rightParen | comma | finish => simpa [freeNames] using ih

/-- The names among some tokens with an opening parenthesis directly behind them, in order. -/
def calledNames : List TokenKind → List String
  | [] => []
  | .name text :: rest =>
    if rest.head? = some .leftParen then text :: calledNames rest else calledNames rest
  | _ :: rest => calledNames rest

theorem mem_calledNames {name : String} {ks : List TokenKind} :
    name ∈ calledNames ks ↔ IsCalled name ks := by
  unfold IsCalled
  induction ks with
  | nil => simp [calledNames]
  | cons k rest ih =>
    rw [pair_infix_cons, ← ih]
    cases k with
    | name text =>
      by_cases hparen : rest.head? = some .leftParen
      · simp [calledNames, hparen]
      · simp [calledNames, hparen]
    | number | operator | leftParen | rightParen | comma | finish => simp [calledNames]

/-! ## §3. Calls of a formula. -/

/-- The functions that a meaning calls.  The rest of a chain calls its own behind those of the
operand before it. -/
def Phrase.HasFunctions : (p : Phrase) → p.Meaning → List Function → Prop
  | .summands, g, fs | .factors, g, fs => ∀ left : Expr, (g left).functions = left.functions ++ fs
  | .arguments, xs, fs => Expr.functionsInAll xs = fs
  | .expression, x, fs | .product, x, fs | .unary, x, fs | .power, x, fs | .primary, x, fs =>
    x.functions = fs

namespace Derivation

/-- The functions that a derivation calls, from left to right. -/
def functions : {p : Phrase} → Derivation p → List Function
  | _, .sum first more => first.functions ++ more.functions
  | _, .noSummand => []
  | _, .summand _ _ operand more => operand.functions ++ more.functions
  | _, .product first more => first.functions ++ more.functions
  | _, .noFactor => []
  | _, .factor _ _ operand more => operand.functions ++ more.functions
  | _, .signed _ operand => operand.functions
  | _, .unsigned operand => operand.functions
  | _, .base x => x.functions
  | _, .raised x exponent => x.functions ++ exponent.functions
  | _, .number _ => []
  | _, .name _ => []
  | _, .call function args => (Function.ofName? function).toList ++ args.functions
  | _, .enclosed x => x.functions
  | _, .argument x => x.functions
  | _, .argumentBefore x more => x.functions ++ more.functions

/-- The tree of a derivation calls the functions that the derivation does. -/
theorem hasFunctions_meaning {p : Phrase} (d : Derivation p) (h : d.CallsFit) :
    p.HasFunctions d.meaning d.functions := by
  induction d with
  | sum first more ihFirst ihMore | product first more ihFirst ihMore =>
    show (more.meaning first.meaning).functions = first.functions ++ more.functions
    rw [ihMore h.2, ihFirst h.1]
  | noSummand | noFactor => exact fun left => (List.append_nil _).symm
  | summand op _ operand more ihOperand ihMore | factor op _ operand more ihOperand ihMore =>
    intro left
    show (more.meaning (.binary op left operand.meaning)).functions = _
    rw [ihMore h.2, Expr.functions, ihOperand h.1, functions, List.append_assoc]
  | signed sign operand ih =>
    show (Expr.unary sign operand.meaning).functions = operand.functions
    rw [Expr.functions, ih h]
  | unsigned operand ih | base x ih | enclosed x ih => exact ih h
  | raised x exponent ihBase ihExponent =>
    show (Expr.binary .pow x.meaning exponent.meaning).functions = _
    rw [Expr.functions, ihBase h.1, ihExponent h.2, functions]
  | number value => rfl
  | name text =>
    show (meaningOfName text).functions = []
    unfold meaningOfName
    cases Constant.ofName? text <;> rfl
  | call function args ih =>
    obtain ⟨⟨f, hf, _⟩, hargs⟩ := h
    show (meaningOfCall function args.meaning).functions = _
    rw [meaningOfCall, functions, hf]
    show f :: Expr.functionsInAll args.meaning = f :: args.functions
    rw [ih hargs]
  | argument x ih =>
    show x.meaning.functions ++ [] = x.functions
    rw [List.append_nil, ih h]
  | argumentBefore x more ihFirst ihMore =>
    show x.meaning.functions ++ Expr.functionsInAll more.meaning = x.functions ++ more.functions
    rw [ihFirst h.1, ihMore h.2]

/-- The called names of the tokens of a derivation are those of its functions. -/
theorem calledNames_tokens_append {p : Phrase} (d : Derivation p) (h : d.CallsFit) {k : TokenKind}
    {r : List TokenKind} (hk : p.EndsBefore k) :
    calledNames (d.tokens ++ k :: r) = d.functions.map Function.name ++ calledNames (k :: r) := by
  induction d generalizing k r with
  | sum first more ihFirst ihMore =>
    rw [tokens, functions, List.map_append,
      gather_parts (ihFirst h.1) (ihMore h.2 hk) (summands_head more r hk)]
  | noSummand | noFactor => rfl
  | summand op additive operand more ihOperand ihMore =>
    show calledNames (operand.tokens ++ more.tokens ++ k :: r) = _
    rw [functions, List.map_append,
      gather_parts (ihOperand h.1) (ihMore h.2 hk) (summands_head more r hk)]
  | product first more ihFirst ihMore =>
    rw [tokens, functions, List.map_append,
      gather_parts (ihFirst h.1) (ihMore h.2 hk) (factors_head more r hk)]
  | factor op multiplicative operand more ihOperand ihMore =>
    show calledNames (operand.tokens ++ more.tokens ++ k :: r) = _
    rw [functions, List.map_append,
      gather_parts (ihOperand h.1) (ihMore h.2 hk) (factors_head more r hk)]
  | signed sign operand ih | unsigned operand ih => exact ih h hk
  | base x ih | argument x ih => exact ih h (hk.mono (by decide))
  | raised x exponent ihBase ihExponent =>
    rw [tokens, functions, List.append_assoc, List.cons_append, ihBase h.1 (by decide)]
    show _ ++ calledNames (exponent.tokens ++ k :: r) = _
    rw [ihExponent h.2 hk, List.map_append, List.append_assoc]
  | number value => rfl
  | name text =>
    -- a name that is a phrase by itself has no parenthesis behind it
    have hparen : (k :: r).head? ≠ some .leftParen := by
      rintro ⟨⟩
      exact absurd hk (by decide)
    show calledNames (.name text :: k :: r) = calledNames (k :: r)
    rw [calledNames, if_neg hparen]
  | call function args ih =>
    obtain ⟨⟨f, hf, _⟩, hargs⟩ := h
    obtain rfl := Function.ofName?_eq_some.1 hf
    show calledNames (.name f.name :: .leftParen :: (args.tokens ++ [.rightParen] ++ k :: r)) = _
    rw [calledNames, List.head?_cons, if_pos rfl, functions, hf, List.append_assoc]
    show f.name :: calledNames (args.tokens ++ .rightParen :: k :: r) = _
    rw [ih hargs (by decide)]
    rfl
  | enclosed x ih =>
    show calledNames (x.tokens ++ [.rightParen] ++ k :: r) = _
    rw [List.append_assoc, List.singleton_append, ih h (by decide)]
    rfl
  | argumentBefore x more ihFirst ihMore =>
    rw [tokens, functions, List.append_assoc, List.cons_append, ihFirst h.1 (by decide)]
    show _ ++ calledNames (more.tokens ++ k :: r) = _
    rw [ihMore h.2 hk, List.map_append, List.append_assoc]

/-- The functions of the tree of a formula have the called names of its tokens. -/
theorem functions_tree (d : Derivation .expression) (h : d.CallsFit) :
    d.tree.functions.map Function.name = calledNames (d.tokens ++ [.finish]) := by
  have hfunctions : d.tree.functions = d.functions := d.hasFunctions_meaning h
  rw [d.calledNames_tokens_append h (show Phrase.expression.EndsBefore .finish by decide),
    hfunctions]
  exact (List.append_nil _).symm

end Derivation

/-! ## §4. Words with two meanings. -/

/-- A tree that was read calls the functions whose names are called in the text, and mentions the
variables whose names are no constants and stand alone in it. -/
theorem meanings_of_parse {source : String} {e : Expr} (h : parse source = .ok e) :
    ∃ ts, tokens source = .ok ts
      ∧ (∀ f : Function, f ∈ e.functions ↔ IsCalled f.name (ts.map (·.kind)))
      ∧ ∀ name, name ∈ e.freeVariables ↔
          Constant.ofName? name = none ∧ StandsAlone name (ts.map (·.kind)) := by
  obtain ⟨ts, d, htokens, hts, hfit, _, rfl⟩ := derivation_of_parse h
  refine ⟨ts, htokens, fun f => ?_, fun name => ?_⟩
  · rw [hts, ← mem_calledNames, ← d.functions_tree hfit]
    exact (List.mem_map_of_injective Function.name_injective).symm
  · rw [hts, ← mem_freeNames, ← d.occurrences_tree hfit]
    exact d.tree.firstOccurrences_freeVariables.mem_iff name

/-- **A function's name is reserved in front of a parenthesis only.**  The variables that are
reported for a formula never have the name of a constant.  They have the name of a function exactly
where this stands alone in the text, so none has one if and only if the names of functions always
have a parenthesis behind them; and a function that is called is no variable as well if and only if
its name never stands both ways. -/
theorem reservedWords_of_parse {source : String} {e : Expr} (h : parse source = .ok e) :
    ∃ ts names, tokens source = .ok ts ∧ extractVariables source = .ok names
      ∧ (∀ name ∈ names, Constant.ofName? name = none)
      ∧ ((∀ name ∈ names, Function.ofName? name = none) ↔
          ∀ f : Function, ¬ StandsAlone f.name (ts.map (·.kind)))
      ∧ ∀ f : Function, (f ∈ e.functions ∧ f.name ∈ names) ↔
          IsCalled f.name (ts.map (·.kind)) ∧ StandsAlone f.name (ts.map (·.kind)) := by
  obtain ⟨ts, htokens, hfunctions, hvariables⟩ := meanings_of_parse h
  have hextract : extractVariables source = .ok e.freeVariables := by
    unfold extractVariables
    rw [Compiled.ofSource_eq_ok h]
    rfl
  -- a function's name is no constant, so it is a variable wherever it stands alone
  have hname : ∀ f : Function,
      f.name ∈ e.freeVariables ↔ StandsAlone f.name (ts.map (·.kind)) := by
    intro f
    rw [hvariables, and_iff_right (Constant.ofName?_name f)]
  refine ⟨ts, e.freeVariables, htokens, hextract, fun name hmem => ((hvariables name).1 hmem).1,
    ⟨fun hnone f halone => ?_, fun hnever name hmem => ?_⟩, fun f => ?_⟩
  · have hread := hnone f.name ((hname f).2 halone)
    rw [Function.ofName?_name] at hread
    exact nomatch hread
  · cases hread : Function.ofName? name with
    | none => rfl
    | some f =>
      obtain rfl := Function.ofName?_eq_some.1 hread
      exact absurd ((hname f).1 hmem) (hnever f)
  · rw [hfunctions, hname]

/-- A function with a variable in it that has the name of another one, and a constant. -/
theorem reservedWords_roundedLog :
    parse "round(log) * pi" = .ok (.binary .mul (.call .round [.variable "log"]) (.constant .pi))
    ∧ extractVariables "round(log) * pi" = .ok ["log"]
    ∧ ∃ ts names, tokens "round(log) * pi" = .ok ts
      ∧ extractVariables "round(log) * pi" = .ok names
      ∧ (∀ name ∈ names, Constant.ofName? name = none)
      ∧ ((∀ name ∈ names, Function.ofName? name = none) ↔
          ∀ f : Function, ¬ StandsAlone f.name (ts.map (·.kind)))
      ∧ ∀ f : Function,
          (f ∈ (Expr.binary .mul (.call .round [.variable "log"]) (.constant .pi)).functions
            ∧ f.name ∈ names) ↔
          IsCalled f.name (ts.map (·.kind)) ∧ StandsAlone f.name (ts.map (·.kind)) := by
  have hparse : parse "round(log) * pi"
      = .ok (.binary .mul (.call .round [.variable "log"]) (.constant .pi)) :=
    parse_eq_ok (by decide +kernel)
  refine ⟨hparse, ?_, reservedWords_of_parse hparse⟩
  unfold extractVariables Compiled.ofSource
  rw [hparse]
  with_unfolding_all rfl

/-- The lesser of a variable `min` and two. -/
def minOfMin : Expr := .call .min [.variable "min", .number .two]

/-- **A name with two meanings.**  In `min(min, 2)` the function's name is reported as a variable:
it is called at one place and mentioned at another. -/
theorem minOfMin_reported :
    parse "min(min, 2)" = .ok minOfMin ∧ extractVariables "min(min, 2)" = .ok ["min"]
      ∧ Function.ofName? "min" = some .min ∧ .min ∈ minOfMin.functions := by
  have hparse : parse "min(min, 2)" = .ok minOfMin := parse_eq_ok (by decide +kernel)
  refine ⟨hparse, ?_, by decide, List.mem_cons_self⟩
  unfold extractVariables Compiled.ofSource
  rw [hparse]
  with_unfolding_all rfl

end Formula

end ShapeEstimator
