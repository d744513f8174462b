/-
  ShapeEstimator.Proofs.Formula.FreeNames
  ────────────────────────────────
  **A FORMULA DEPENDS ON ITS FREE NAMES AND ON NOTHING ELSE.**

  The names of a formula that stand for variables can be read off its tokens: no
  reserved constants, and no names in front of a parenthesis.  They are followed
  from the tokens through the tree into the list that is reported:

      tokens  ⟶  occurrences, with repeats  ⟶  first occurrences

  and the value of a formula is a function of what is bound to them.
-/
import Mathlib.Data.List.Basic
import ShapeEstimator.Formula.Evaluation
import ShapeEstimator.Proofs.Formula.Variables

namespace ShapeEstimator.Formula

/-! ## §1. First occurrences. -/

/-- Some names are those of a list with repeats, each once, in the order in which they first occur
in it. -/
structure FirstOccurrences (occurrences names : List String) : Prop where
  /-- No name is repeated. -/
  nodup : names.Nodup
  /-- The names are those that occur. -/
  mem_iff : ∀ name, name ∈ names ↔ name ∈ occurrences
  /-- The names are in the order of their first occurrence. -/
  ordered : names.Pairwise fun a b => occurrences.idxOf a < occurrences.idxOf b

namespace FirstOccurrences

variable {occurrences names : List String}

theorem nil : FirstOccurrences [] [] := ⟨List.nodup_nil, fun _ => Iff.rfl, List.Pairwise.nil⟩

/-- The order among some names is not changed by what occurs behind them. -/
theorem ordered_append (h : FirstOccurrences occurrences names) (more : List String) :
    names.Pairwise fun a b =>
      (occurrences ++ more).idxOf a < (occurrences ++ more).idxOf b := by
  refine h.ordered.imp_of_mem fun ha hb hab => ?_
  rw [List.idxOf_append_of_mem ((h.mem_iff _).1 ha), List.idxOf_append_of_mem ((h.mem_iff _).1 hb)]
  exact hab

/-- One more occurrence adds its name, if that is new. -/
theorem addName (h : FirstOccurrences occurrences names) (name : String) :
    FirstOccurrences (occurrences ++ [name]) (Expr.addName names name) := by
  unfold Expr.addName
  by_cases hmem : name ∈ names
  · rw [if_pos hmem]
    refine ⟨h.nodup, fun n => ?_, h.ordered_append [name]⟩
    rw [List.mem_append, List.mem_singleton, h.mem_iff]
    exact ⟨Or.inl, fun hn => hn.elim id fun heq => heq ▸ (h.mem_iff name).1 hmem⟩
  · rw [if_neg hmem]
    have hnew : name ∉ occurrences := fun hocc => hmem ((h.mem_iff name).2 hocc)
    refine ⟨?_, fun n => ?_, List.pairwise_append.2 ⟨h.ordered_append [name], ?_, ?_⟩⟩
    · refine List.nodup_append.2 ⟨h.nodup, List.pairwise_singleton _ _, fun a ha b hb => ?_⟩
      rw [List.mem_singleton.1 hb]
      exact fun heq => hmem (heq ▸ ha)
    · rw [List.mem_append, List.mem_append, h.mem_iff]
    · exact List.pairwise_singleton _ _
    · -- the new name first occurs where the old list ends
      intro a ha b hb
      have hocc : a ∈ occurrences := (h.mem_iff a).1 ha
      rw [List.mem_singleton.1 hb, List.idxOf_append_of_mem hocc, List.idxOf_append_of_notMem hnew]
      exact Nat.lt_add_right _ (List.idxOf_lt_length_of_mem hocc)

theorem foldl_addName (h : FirstOccurrences occurrences names) (more : List String) :
    FirstOccurrences (occurrences ++ more) (more.foldl Expr.addName names) := by
  induction more generalizing occurrences names with
  | nil =>
    rw [List.append_nil]
    exact h
  | cons name more ih =>
    rw [List.append_cons, List.foldl_cons]
    exact ih (h.addName name)

/-- Where one name occurs before another, it does so among the names that are kept. -/
theorem idxOf_filter_lt {occurrences : List String} {keep : String → Bool} {a b : String}
    (ha : keep a = true) (h : occurrences.idxOf a < occurrences.idxOf b) :
    (occurrences.filter keep).idxOf a < (occurrences.filter keep).idxOf b := by
  induction occurrences with
  | nil => exact absurd h (Nat.lt_irrefl _)
  | cons n rest ih =>
    by_cases han : n = a
    · have hbn : n ≠ b := by
        rintro rfl
        rw [List.idxOf_cons_self] at h
        exact absurd h (Nat.not_lt_zero _)
      rw [List.filter_cons_of_pos (han ▸ ha), han, List.idxOf_cons_self,
        List.idxOf_cons_ne _ (han ▸ hbn)]
      exact Nat.succ_pos _
    · have hbn : n ≠ b := by
        rintro rfl
        rw [List.idxOf_cons_self] at h
        exact absurd h (Nat.not_lt_zero _)
      rw [List.idxOf_cons_ne _ han, List.idxOf_cons_ne _ hbn] at h
      have hrest := ih (Nat.lt_of_succ_lt_succ h)
      by_cases hn : keep n = true
      · rw [List.filter_cons_of_pos hn, List.idxOf_cons_ne _ han, List.idxOf_cons_ne _ hbn]
        exact Nat.succ_lt_succ hrest
      · rw [List.filter_cons_of_neg hn]
        exact hrest

/-- The names that are kept are the first occurrences of the occurrences that are kept. -/
theorem filter (h : FirstOccurrences occurrences names) (keep : String → Bool) :
    FirstOccurrences (occurrences.filter keep) (names.filter keep) where
  nodup := h.nodup.filter _
  mem_iff name := by rw [List.mem_filter, List.mem_filter, h.mem_iff]
  ordered := by
    refine (h.ordered.filter keep).imp_of_mem fun ha _ hab => ?_
    exact idxOf_filter_lt (List.mem_filter.1 ha).2 hab

end FirstOccurrences

/-! ## §2. Occurrences in a tree. -/

namespace Expr

mutual

/-- The variables of an expression from left to right, as often as they occur. -/
def occurrences : Expr → List String
  | .number _ => []
  | .constant _ => []
  | .variable name => [name]
  | .unary _ operand => operand.occurrences
  | .binary _ left right => left.occurrences ++ right.occurrences
  | .call _ arguments => occurrencesInAll arguments

/-- The variables of a list of expressions from left to right, as often as they occur. -/
def occurrencesInAll : List Expr → List String
  | [] => []
  | x :: xs => x.occurrences ++ occurrencesInAll xs

end

mutual

theorem addVariables_eq_foldl :
    ∀ (x : Expr) (found : List String), x.addVariables found = x.occurrences.foldl addName found
  | .number _, found => by rw [addVariables, occurrences, List.foldl_nil]
  | .constant _, found => by rw [addVariables, occurrences, List.foldl_nil]
  | .variable name, found => by
    rw [addVariables, occurrences, List.foldl_cons, List.foldl_nil]
  | .unary _ operand, found => by
    rw [addVariables, occurrences, addVariables_eq_foldl operand]
  | .binary _ left right, found => by
    rw [addVariables, occurrences, List.foldl_append, addVariables_eq_foldl left,
      addVariables_eq_foldl right]
  | .call _ arguments, found => by
    rw [addVariables, occurrences, addVariablesOfAll_eq_foldl arguments]

theorem addVariablesOfAll_eq_foldl :
    ∀ (xs : List Expr) (found : List String),
      addVariablesOfAll found xs = (occurrencesInAll xs).foldl addName found
  | [], found => by rw [addVariablesOfAll, occurrencesInAll, List.foldl_nil]
  | x :: xs, found => by
    rw [addVariablesOfAll, occurrencesInAll, List.foldl_append, addVariables_eq_foldl x,
      addVariablesOfAll_eq_foldl xs]

end

/-- The free variables are the first occurrences in the tree. -/
theorem firstOccurrences_freeVariables (x : Expr) :
    FirstOccurrences x.occurrences x.freeVariables := by
  unfold freeVariables
  rw [addVariables_eq_foldl]
  exact FirstOccurrences.nil.foldl_addName x.occurrences

end Expr

/-! ## §3. Occurrences in a list of tokens. -/

/-- The names among some tokens that are no reserved constants and have no parenthesis directly
behind them. -/
def freeNames : List TokenKind → List String
  | [] => []
  | .name text :: rest =>
    if (Constant.ofName? text).isNone ∧ rest.head? ≠ some .leftParen then text :: freeNames rest
    else freeNames rest
  | _ :: rest => freeNames rest

namespace Derivation

/-- The names that a derivation reads as variables, as often as it does. -/
def names : {p : Phrase} → Derivation p → List String
  | _, .sum first more => first.names ++ more.names
  | _, .noSummand => []
  | _, .summand _ _ operand more => operand.names ++ more.names
  | _, .product first more => first.names ++ more.names
  | _, .noFactor => []
  | _, .factor _ _ operand more => operand.names ++ more.names
  | _, .signed _ operand => operand.names
  | _, .unsigned operand => operand.names
  | _, .base x => x.names
  | _, .raised x exponent => x.names ++ exponent.names
  | _, .number _ => []
  | _, .name text => if (Constant.ofName? text).isNone then [text] else []
  | _, .call _ args => args.names
  | _, .enclosed x => x.names
  | _, .argument x => x.names
  | _, .argumentBefore x more => x.names ++ more.names

/-- What is gathered from a first part, followed by what is gathered from the rest. -/
theorem gather_parts {p q : Phrase} {first : Derivation p} {more : Derivation q}
    {gather : List TokenKind → List String} {names names' : List String} {k : TokenKind}
    {r : List TokenKind}
    (hfirst : ∀ {k₁ : TokenKind} {r₁ : List TokenKind}, p.EndsBefore k₁ →
      gather (first.tokens ++ k₁ :: r₁) = names ++ gather (k₁ :: r₁))
    (hmore : gather (more.tokens ++ k :: r) = names' ++ gather (k :: r))
    (head : ∃ k₁ r₁, more.tokens ++ k :: r = k₁ :: r₁ ∧ p.EndsBefore k₁) :
    gather (first.tokens ++ more.tokens ++ k :: r) = names ++ names' ++ gather (k :: r) := by
  obtain ⟨k₁, r₁, htail, hk₁⟩ := head
  rw [List.append_assoc, htail, hfirst hk₁, ← htail, hmore, List.append_assoc]

/-- The free names of the tokens of a derivation are those that it reads as variables. -/
theorem freeNames_tokens_append {p : Phrase} (d : Derivation p) {k : TokenKind}
    {r : List TokenKind} (hk : p.EndsBefore k) :
    freeNames (d.tokens ++ k :: r) = d.names ++ freeNames (k :: r) := by
  -- for any rest, since a part is followed by the next one
  induction d generalizing k r with
  | sum first more ihFirst ihMore =>
    rw [tokens, names, gather_parts ihFirst (ihMore hk) (summands_head more r hk)]
  | noSummand | noFactor => rfl
  | summand op additive operand more ihOperand ihMore =>
    show freeNames (operand.tokens ++ more.tokens ++ k :: r) = _
    rw [gather_parts ihOperand (ihMore hk) (summands_head more r hk), names]
  | product first more ihFirst ihMore =>
    rw [tokens, names, gather_parts ihFirst (ihMore hk) (factors_head more r hk)]
  | factor op multiplicative operand more ihOperand ihMore =>
    show freeNames (operand.tokens ++ more.tokens ++ k :: r) = _
    rw [gather_parts ihOperand (ihMore hk) (factors_head more r hk), names]
  | signed sign operand ih => exact ih hk
  | unsigned operand ih => exact ih hk
  | base x ih => exact ih (hk.mono (by decide))
  | raised x exponent ihBase ihExponent =>
    -- the sign of the power ends the base
    rw [tokens, names, List.append_assoc, List.cons_append, ihBase (by decide)]
    show x.names ++ freeNames (exponent.tokens ++ k :: r) = _
    rw [ihExponent hk, List.append_assoc]
  | number value => rfl
  | name text =>
    -- a name that is a phrase by itself has no parenthesis behind it
    have hparen : (k :: r).head? ≠ some .leftParen := by
      rintro ⟨⟩
      exact absurd hk (by decide)
    show freeNames (.name text :: k :: r) = _
    rw [freeNames, names]
    by_cases hconstant : (Constant.ofName? text).isNone
    · rw [if_pos ⟨hconstant, hparen⟩, if_pos hconstant, List.singleton_append]
    · rw [if_neg fun h => hconstant h.1, if_neg hconstant, List.nil_append]
  | call function args ih =>
    -- the name of the function has one, and is passed over
    show freeNames (.name function :: .leftParen :: (args.tokens ++ [.rightParen] ++ k :: r)) = _
    rw [freeNames, if_neg fun h => h.2 rfl, List.append_assoc]
    show freeNames (args.tokens ++ .rightParen :: k :: r) = _
    rw [ih (by decide)]
    rfl
  | enclosed x ih =>
    show freeNames (x.tokens ++ [.rightParen] ++ k :: r) = _
    rw [List.append_assoc, List.singleton_append, ih (by decide)]
    rfl
  | argument x ih => exact ih (hk.mono (by decide))
  | argumentBefore x more ihFirst ihMore =>
    rw [tokens, names, List.append_assoc, List.cons_append, ihFirst (by decide)]
    show x.names ++ freeNames (more.tokens ++ k :: r) = _
    rw [ihMore hk, List.append_assoc]

end Derivation

/-- The variables of a meaning.  The rest of a chain has its own behind those of the operand before
it. -/
def Phrase.HasOccurrences : (p : Phrase) → p.Meaning → List String → Prop
  | .summands, f, names | .factors, f, names =>
    ∀ left : Expr, (f left).occurrences = left.occurrences ++ names
  | .arguments, xs, names => Expr.occurrencesInAll xs = names
  | .expression, x, names | .product, x, names | .unary, x, names | .power, x, names
  | .primary, x, names => x.occurrences = names

namespace Derivation

/-- The variables of the tree of a derivation are the names that it reads as variables. -/
theorem hasOccurrences_meaning {p : Phrase} (d : Derivation p) (h : d.CallsFit) :
    p.HasOccurrences d.meaning d.names := by
  induction d with
  | sum first more ihFirst ihMore =>
    show (more.meaning first.meaning).occurrences = first.names ++ more.names
    rw [ihMore h.2, ihFirst h.1]
  | product first more ihFirst ihMore =>
    show (more.meaning first.meaning).occurrences = first.names ++ more.names
    rw [ihMore h.2, ihFirst h.1]
  | noSummand | noFactor => exact fun left => (List.append_nil _).symm
  | summand op _ operand more ihOperand ihMore | factor op _ operand more ihOperand ihMore =>
    intro left
    -- what was read so far becomes the left operand
    show (more.meaning (.binary op left operand.meaning)).occurrences = _
    rw [ihMore h.2, Expr.occurrences, ihOperand h.1, names, List.append_assoc]
  | signed sign operand ih =>
    show (Expr.unary sign operand.meaning).occurrences = operand.names
    rw [Expr.occurrences, ih h]
  | unsigned operand ih => exact ih h
  | base x ih => exact ih h
  | raised x exponent ihBase ihExponent =>
    show (Expr.binary .pow x.meaning exponent.meaning).occurrences = _
    rw [Expr.occurrences, ihBase h.1, ihExponent h.2, names]
  | number value => rfl
  | name text =>
    show (meaningOfName text).occurrences = _
    unfold meaningOfName names
    cases Constant.ofName? text <;> rfl
  | call function args ih =>
    obtain ⟨⟨f, hf, _⟩, hargs⟩ := h
    show (meaningOfCall function args.meaning).occurrences = args.names
    unfold meaningOfCall
    rw [hf]
    exact ih hargs
  | enclosed x ih => exact ih h
  | argument x ih =>
    show x.meaning.occurrences ++ [] = x.names
    rw [List.append_nil, ih h]
  | argumentBefore x more ihFirst ihMore =>
    show x.meaning.occurrences ++ Expr.occurrencesInAll more.meaning = x.names ++ more.names
    rw [ihFirst h.1, ihMore h.2]

/-- The variables of the tree of a formula are the free names of its tokens. -/
theorem occurrences_tree (d : Derivation .expression) (h : d.CallsFit) :
    d.tree.occurrences = freeNames (d.tokens ++ [.finish]) := by
  rw [d.freeNames_tokens_append (show Phrase.expression.EndsBefore .finish by decide)]
  show d.tree.occurrences = d.names ++ []
  rw [List.append_nil]
  exact d.hasOccurrences_meaning h

end Derivation

/-- The variables of a tree that was read are the free names of its tokens. -/
theorem occurrences_of_parse {source : String} {e : Expr} (h : parse source = .ok e) :
    ∃ ts, tokens source = .ok ts ∧ e.occurrences = freeNames (ts.map (·.kind)) := by
  obtain ⟨ts, d, htokens, hts, hfit, _, rfl⟩ := derivation_of_parse h
  exact ⟨ts, htokens, hts ▸ d.occurrences_tree hfit⟩

/-! ## §4. What a value depends on. -/

namespace Expr

variable {lib : DoubleFunctions} {scope scope' : Scope}

mutual

/-- An expression reads its own variables only. -/
theorem evaluateWith_congr :
    ∀ (x : Expr), (∀ name, x.Mentions name → scope name = scope' name) →
      x.evaluateWith lib scope = x.evaluateWith lib scope'
  | .number _, _ => by rw [evaluateWith, evaluateWith]
  | .constant _, _ => by rw [evaluateWith, evaluateWith]
  | .variable name, h => by rw [evaluateWith, evaluateWith, h name rfl]
  | .unary _ operand, h => by rw [evaluateWith, evaluateWith, evaluateWith_congr operand h]
  | .binary _ left right, h => by
    rw [evaluateWith, evaluateWith, evaluateWith_congr left fun name hname => h name (Or.inl hname),
      evaluateWith_congr right fun name hname => h name (Or.inr hname)]
  | .call _ arguments, h => by
    rw [evaluateWith, evaluateWith, evaluateAllWith_congr arguments h]

theorem evaluateAllWith_congr :
    ∀ (xs : List Expr), (∀ name, MentionsInAny name xs → scope name = scope' name) →
      evaluateAllWith lib scope xs = evaluateAllWith lib scope' xs
  | [], _ => by rw [evaluateAllWith, evaluateAllWith]
  | x :: xs, h => by
    rw [evaluateAllWith, evaluateAllWith,
      evaluateWith_congr x fun name hname => h name (Or.inl hname),
      evaluateAllWith_congr xs fun name hname => h name (Or.inr hname)]

end

mutual

/-- An expression with a value has read all its variables: none is skipped. -/
theorem isSome_of_evaluateWith {name : String} :
    ∀ (x : Expr) {v : Decimal}, x.evaluateWith lib scope = .ok v → x.Mentions name →
      (scope name).isSome = true
  | .variable n, v, h, hname => by
    rw [evaluateWith] at h
    obtain rfl : name = n := hname
    cases hscope : scope name with
    | some value => rfl
    | none =>
      rw [hscope] at h
      exact nomatch h
  | .unary _ operand, v, h, hname => by
    rw [evaluateWith] at h
    obtain ⟨x, hx, _⟩ := bind_eq_ok.1 h
    exact isSome_of_evaluateWith operand hx hname
  | .binary _ left right, v, h, hname => by
    rw [evaluateWith] at h
    obtain ⟨x, hx, h⟩ := bind_eq_ok.1 h
    obtain ⟨y, hy, _⟩ := bind_eq_ok.1 h
    rcases hname with hname | hname
    · exact isSome_of_evaluateWith left hx hname
    · exact isSome_of_evaluateWith right hy hname
  | .call _ arguments, v, h, hname => by
    rw [evaluateWith] at h
    obtain ⟨xs, hxs, _⟩ := bind_eq_ok.1 h
    exact isSome_of_evaluateAllWith arguments hxs hname

theorem isSome_of_evaluateAllWith {name : String} :
    ∀ (xs : List Expr) {vs : List Decimal}, evaluateAllWith lib scope xs = .ok vs →
      MentionsInAny name xs → (scope name).isSome = true
  | x :: xs, vs, h, hname => by
    rw [evaluateAllWith] at h
    obtain ⟨y, hy, h⟩ := bind_eq_ok.1 h
    obtain ⟨ys, hys, _⟩ := bind_eq_ok.1 h
    rcases hname with hname | hname
    · exact isSome_of_evaluateWith x hy hname
    · exact isSome_of_evaluateAllWith xs hys hname

end

end Expr

namespace Compiled

variable {values values' : Bindings} {c : Compiled}

theorem findSome?_bindingFailure?_congr {names : List String}
    (h : ∀ name ∈ names, values name = values' name) :
    names.findSome? (bindingFailure? values) = names.findSome? (bindingFailure? values') := by
  induction names with
  | nil => rfl
  | cons name names ih =>
    have hhead : bindingFailure? values name = bindingFailure? values' name := by
      unfold bindingFailure?
      rw [h name List.mem_cons_self]
    rw [List.findSome?_cons, List.findSome?_cons, hhead,
      ih fun n hn => h n (List.mem_cons_of_mem name hn)]

/-- Bindings that agree on the free variables give one outcome, value or failure. -/
theorem evaluate_congr (h : ∀ name ∈ c.freeVariables, values name = values' name) :
    c.evaluate values = c.evaluate values' := by
  have hfailure : c.freeVariables.findSome? (bindingFailure? values)
      = c.freeVariables.findSome? (bindingFailure? values') :=
    findSome?_bindingFailure?_congr h
  have hscope : ∀ name, c.tree.Mentions name → scope values name = scope values' name := by
    intro name hname
    unfold scope
    rw [h name (Expr.mem_freeVariables.2 hname)]
  have hvalue : c.tree.evaluate (scope values) = c.tree.evaluate (scope values') :=
    Expr.evaluateWith_congr c.tree hscope
  unfold evaluate
  rw [hfailure, hvalue]

/-- What has a value has all its free variables bound. -/
theorem isSome_of_evaluate {v : Float} (h : c.evaluate values = .ok v) {name : String}
    (hname : name ∈ c.freeVariables) : (values name).isSome = true := by
  unfold evaluate at h
  split at h
  · exact nomatch h
  · split at h
    · rename_i value hvalue
      have hscope : (scope values name).isSome = true :=
        Expr.isSome_of_evaluateWith c.tree hvalue (Expr.mem_freeVariables.1 hname)
      exact Option.isSome_of_isSome_bind hscope
    · exact nomatch h

/-- The outcome of a compiled expression depends on the bindings of some names, on all of them and
on nothing else. -/
structure DependsExactlyOn (c : Compiled) (names : List String) : Prop where
  /-- What else is bound does not matter, neither to a value nor to a failure. -/
  congr : ∀ values values' : Bindings, (∀ name ∈ names, values name = values' name) →
    c.evaluate values = c.evaluate values'
  /-- If one of the names is unbound there is no value. -/
  no_value : ∀ values : Bindings, (∃ name ∈ names, values name = none) →
    ∀ v, c.evaluate values ≠ .ok v
  /-- If all of them are bound, no variable is found without a value. -/
  all_known : ∀ values : Bindings, (∀ name ∈ names, values name ≠ none) →
    ∀ name, c.evaluate values ≠ .error (.failure (.noValue (.unknownVariable name)))

theorem dependsExactlyOn_freeVariables {source : String} (hc : ofSource source = .ok c) :
    c.DependsExactlyOn c.freeVariables where
  congr _ _ h := evaluate_congr h
  no_value values := by
    rintro ⟨name, hname, hnone⟩ v hv
    have hbound := isSome_of_evaluate hv hname
    rw [hnone] at hbound
    exact nomatch hbound
  all_known values hbound name hv := by
    have hsome : ∀ n ∈ c.freeVariables, (values n).isSome = true := fun n hn =>
      Option.isSome_iff_ne_none.2 (hbound n hn)
    -- what can fail with all variables bound is arithmetic
    rcases fromValues_of_evaluate hc hsome hv with ⟨failure, hfailure, heq⟩ | heq
    · cases heq
      cases hfailure
      contradiction
    · exact nomatch heq

end Compiled

/-- **The free variables are what a formula depends on.**  For a formula that is read, the reported
names are the free names of its tokens, each once and in the order of first occurrence; and the
outcome depends on their bindings, on all of them and on nothing else. -/
theorem extractVariables_exact {source : String} {e : Expr} (h : parse source = .ok e) :
    ∃ ts c names, tokens source = .ok ts ∧ Compiled.ofSource source = .ok c
      ∧ extractVariables source = .ok names
      ∧ FirstOccurrences (freeNames (ts.map (·.kind))) names
      ∧ c.DependsExactlyOn names := by
  obtain ⟨ts, htokens, hoccurrences⟩ := occurrences_of_parse h
  have hc := Compiled.ofSource_eq_ok h
  have hextract : extractVariables source = .ok e.freeVariables := by
    unfold extractVariables
    rw [hc]
    rfl
  refine ⟨ts, { source, tree := e }, e.freeVariables, htokens, hc, hextract, ?_,
    Compiled.dependsExactlyOn_freeVariables hc⟩
  rw [← hoccurrences]
  exact e.firstOccurrences_freeVariables

/-- The name of a function, a constant and a repeat leave two names of five. -/
theorem extractVariables_exact_difference :
    parse "max(W, pi) * L - W" = .ok
      (.binary .sub (.binary .mul (.call .max [.variable "W", .constant .pi]) (.variable "L"))
        (.variable "W"))
    ∧ extractVariables "max(W, pi) * L - W" = .ok ["W", "L"]
    ∧ ∃ ts c names, tokens "max(W, pi) * L - W" = .ok ts
      ∧ Compiled.ofSource "max(W, pi) * L - W" = .ok c
      ∧ extractVariables "max(W, pi) * L - W" = .ok names
      ∧ FirstOccurrences (freeNames (ts.map (·.kind))) names
      ∧ c.DependsExactlyOn names := by
  have htokens : tokens "max(W, pi) * L - W" = .ok
      [⟨.name "max", 0, ['m', 'a', 'x']⟩, ⟨.leftParen, 3, ['(']⟩, ⟨.name "W", 4, ['W']⟩,
        ⟨.comma, 5, [',']⟩, ⟨.name "pi", 7, ['p', 'i']⟩, ⟨.rightParen, 9, [')']⟩,
        ⟨.operator .mul, 11, ['*']⟩, ⟨.name "L", 13, ['L']⟩, ⟨.operator .sub, 15, ['-']⟩,
        ⟨.name "W", 17, ['W']⟩, ⟨.finish, 18, []⟩] := by with_unfolding_all rfl
  have hparse : parse "max(W, pi) * L - W" = .ok
      (.binary .sub (.binary .mul (.call .max [.variable "W", .constant .pi]) (.variable "L"))
        (.variable "W")) := by
    unfold parse
    rw [htokens]
    with_unfolding_all rfl
  refine ⟨hparse, ?_, extractVariables_exact hparse⟩
  unfold extractVariables Compiled.ofSource
  rw [hparse]
  with_unfolding_all rfl

end ShapeEstimator.Formula
