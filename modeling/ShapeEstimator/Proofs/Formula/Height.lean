/-
  ShapeEstimator.Proofs.Formula.Height
  ────────────────────────────────
  **HOW HIGH A TREE CAN BE.**

  The cost of a derivation counts the operators in front of an operand, since those
  are open when it is read.  In the tree it is the operators behind an operand that
  stand over it.  So the height is another measure of the same derivation:

      m₀ op m₁ op … mₖ      cost  max over i of cost mᵢ + i
                            height  max over i of height mᵢ + (k - i + 1),  m₀ with k

  A cost of `n` allows a height of `n * (n + 3)`, and no more.
-/
import Mathlib.Order.Bounds.Defs
import Mathlib.Tactic.Ring
import ShapeEstimator.Proofs.Formula.Exactness

namespace ShapeEstimator.Formula

/-! ## §1. Levels. -/

namespace Derivation

variable {p : Phrase}

/-- The number of operators in the rest of a chain. -/
def operators : {p : Phrase} → Derivation p → Nat
  | _, .summand _ _ _ more => more.operators + 1
  | _, .factor _ _ _ more => more.operators + 1
  | _, _ => 0

/-- The levels of a tree, read off the derivation: `cost` with the operators of a chain counted
from its end. -/
def levels : {p : Phrase} → Derivation p → Nat
  | _, .sum first more => max (first.levels + more.operators) more.levels
  | _, .noSummand => 0
  -- over the operand stand its own operator and those behind it
  | _, .summand _ _ operand more => max (operand.levels + more.operators + 1) more.levels
  | _, .product first more => max (first.levels + more.operators) more.levels
  | _, .noFactor => 0
  | _, .factor _ _ operand more => max (operand.levels + more.operators + 1) more.levels
  | _, .signed _ operand => operand.levels + 1
  | _, .unsigned operand => operand.levels
  | _, .base x => x.levels
  -- the power stands over base and exponent alike
  | _, .raised x exponent => max x.levels exponent.levels + 1
  | _, .number _ => 0
  | _, .name _ => 0
  | _, .call _ args => args.levels + 1
  | _, .enclosed x => x.levels
  | _, .argument x => x.levels
  | _, .argumentBefore x more => max x.levels more.levels

end Derivation

/-- What operators and levels say about a meaning.  The rest of a chain raises what stands before
it by its operators. -/
def Phrase.HasLevels : (p : Phrase) → p.Meaning → Nat → Nat → Prop
  | .summands, f, operators, levels | .factors, f, operators, levels =>
    ∀ left, (f left).height = max (left.height + operators) levels
  | .arguments, xs, _, levels => Expr.heightOfAll xs = levels
  | .expression, x, _, levels | .product, x, _, levels | .unary, x, _, levels
  | .power, x, _, levels | .primary, x, _, levels => x.height = levels

namespace Derivation

variable {p : Phrase}

theorem height_meaningOfName (text : String) : (meaningOfName text).height = 0 := by
  unfold meaningOfName
  split <;> rfl

/-- The levels of a derivation are the height of its meaning. -/
theorem hasLevels (d : Derivation p) (h : d.CallsFit) :
    p.HasLevels d.meaning d.operators d.levels := by
  induction d with
  | sum first more ihfirst ihmore =>
    show (more.meaning first.meaning).height = max (first.levels + more.operators) more.levels
    rw [ihmore h.2, ihfirst h.1]
  | noSummand => intro left; exact (Nat.max_zero _).symm
  | summand op _ operand more ihoperand ihmore =>
    -- what stands before the operator comes under it, and then under those behind it
    intro left
    have hheight : operand.meaning.height = operand.levels := ihoperand h.1
    show (more.meaning (.binary op left operand.meaning)).height
      = max (left.height + (more.operators + 1))
        (max (operand.levels + more.operators + 1) more.levels)
    rw [ihmore h.2, Expr.height, hheight]
    omega
  | product first more ihfirst ihmore =>
    show (more.meaning first.meaning).height = max (first.levels + more.operators) more.levels
    rw [ihmore h.2, ihfirst h.1]
  | noFactor => intro left; exact (Nat.max_zero _).symm
  | factor op _ operand more ihoperand ihmore =>
    intro left
    have hheight : operand.meaning.height = operand.levels := ihoperand h.1
    show (more.meaning (.binary op left operand.meaning)).height
      = max (left.height + (more.operators + 1))
        (max (operand.levels + more.operators + 1) more.levels)
    rw [ihmore h.2, Expr.height, hheight]
    omega
  | signed sign operand ih => exact congrArg (· + 1) (ih h)
  | unsigned operand ih => exact ih h
  | base x ih => exact ih h
  | raised x exponent ihx ihexponent =>
    have hx : x.meaning.height = x.levels := ihx h.1
    have hexponent : exponent.meaning.height = exponent.levels := ihexponent h.2
    show max x.meaning.height exponent.meaning.height + 1 = max x.levels exponent.levels + 1
    rw [hx, hexponent]
  | number value => rfl
  | name text => exact height_meaningOfName text
  | call function args ih =>
    -- a call whose function is known is a node over its arguments
    obtain ⟨⟨f, hf, _⟩, hargs⟩ := h
    show (meaningOfCall function args.meaning).height = args.levels + 1
    unfold meaningOfCall
    rw [hf]
    exact congrArg (· + 1) (ih hargs)
  | enclosed x ih => exact ih h
  | argument x ih => exact (Nat.max_zero _).trans (ih h)
  | argumentBefore x more ihx ihmore =>
    have hx : x.meaning.height = x.levels := ihx h.1
    have hmore : Expr.heightOfAll more.meaning = more.levels := ihmore h.2
    show max x.meaning.height (Expr.heightOfAll more.meaning) = max x.levels more.levels
    rw [hx, hmore]

theorem height_tree (d : Derivation .expression) (h : d.CallsFit) : d.tree.height = d.levels :=
  d.hasLevels h

end Derivation

/-! ## §2. The greatest height. -/

/-- The greatest height of an operand of cost `n`. -/
def tallest (n : Nat) : Nat := n * (n + 1)

theorem tallest_succ (n : Nat) : tallest (n + 1) = tallest n + 2 * (n + 1) := by
  unfold tallest
  rw [← Nat.add_mul, Nat.mul_comm]

/-- The greatest height of a phrase of cost `n`.  A chain adds `n` to that of its first operand, and
a call, which opens a level for nothing but its own node, has one less than a power over it. -/
def Phrase.tallest : Phrase → Nat → Nat
  | .expression, n | .summands, n | .arguments, n => Formula.tallest n + 2 * n
  | .product, n | .factors, n => Formula.tallest n + n
  | .unary, n | .power, n => Formula.tallest n
  | .primary, n => Formula.tallest n - 1

namespace Derivation

variable {p : Phrase}

theorem operators_le_cost (d : Derivation p) : d.operators ≤ d.cost := by
  induction d with
  | summand _ _ operand more _ ih =>
    show more.operators + 1 ≤ max operand.cost more.cost + 1
    omega
  | factor _ _ operand more _ ih =>
    show more.operators + 1 ≤ max operand.cost more.cost + 1
    omega
  | _ => exact Nat.zero_le _

/-- A derivation of cost at most `n` has no more levels than its phrase allows.  The induction has
to carry `n`, since every node but those of chains passes on one less. -/
theorem levels_le (d : Derivation p) : ∀ n, d.cost ≤ n → d.levels ≤ p.tallest n := by
  induction d with
  | sum first more ihfirst ihmore =>
    intro n h
    have h : max first.cost more.cost ≤ n := h
    have hfirst : first.levels ≤ Formula.tallest n + n := ihfirst n (by omega)
    have hmore : more.levels ≤ Formula.tallest n + 2 * n := ihmore n (by omega)
    have hoperators := more.operators_le_cost
    show max (first.levels + more.operators) more.levels ≤ Formula.tallest n + 2 * n
    omega
  | summand op _ operand more ihoperand ihmore =>
    intro n h
    have h : max operand.cost more.cost + 1 ≤ n := h
    have hoperand : operand.levels ≤ Formula.tallest n + n := ihoperand n (by omega)
    have hmore : more.levels ≤ Formula.tallest n + 2 * n := ihmore n (by omega)
    have hoperators := more.operators_le_cost
    show max (operand.levels + more.operators + 1) more.levels ≤ Formula.tallest n + 2 * n
    omega
  | product first more ihfirst ihmore =>
    intro n h
    have h : max first.cost more.cost ≤ n := h
    have hfirst : first.levels ≤ Formula.tallest n := ihfirst n (by omega)
    have hmore : more.levels ≤ Formula.tallest n + n := ihmore n (by omega)
    have hoperators := more.operators_le_cost
    show max (first.levels + more.operators) more.levels ≤ Formula.tallest n + n
    omega
  | factor op _ operand more ihoperand ihmore =>
    intro n h
    have h : max operand.cost more.cost + 1 ≤ n := h
    have hoperand : operand.levels ≤ Formula.tallest n := ihoperand n (by omega)
    have hmore : more.levels ≤ Formula.tallest n + n := ihmore n (by omega)
    have hoperators := more.operators_le_cost
    show max (operand.levels + more.operators + 1) more.levels ≤ Formula.tallest n + n
    omega
  | noSummand => intro n _; exact Nat.zero_le _
  | noFactor => intro n _; exact Nat.zero_le _
  | signed sign operand ih =>
    intro n h
    obtain ⟨m, rfl⟩ : ∃ m, n = m + 1 := ⟨n - 1, by have : operand.cost + 1 ≤ n := h; omega⟩
    have hoperand : operand.levels ≤ Formula.tallest m := ih m (Nat.le_of_succ_le_succ h)
    have hsucc := tallest_succ m
    show operand.levels + 1 ≤ Formula.tallest (m + 1)
    omega
  | unsigned operand ih => exact ih
  | base x ih =>
    intro n h
    have hx : x.levels ≤ Formula.tallest n - 1 := ih n h
    show x.levels ≤ Formula.tallest n
    omega
  | raised x exponent ihx ihexponent =>
    intro n h
    have h : max x.cost (exponent.cost + 1) ≤ n := h
    -- the base may use all `n` levels; its height falls short of the bound by the power's node
    obtain ⟨m, rfl⟩ : ∃ m, n = m + 1 := ⟨n - 1, by omega⟩
    have hx : x.levels ≤ Formula.tallest (m + 1) - 1 := ihx (m + 1) (by omega)
    have hexponent : exponent.levels ≤ Formula.tallest m := ihexponent m (by omega)
    have hsucc := tallest_succ m
    show max x.levels exponent.levels + 1 ≤ Formula.tallest (m + 1)
    omega
  | number value => intro n _; exact Nat.zero_le _
  | name text => intro n _; exact Nat.zero_le _
  | call function args ih =>
    intro n h
    obtain ⟨m, rfl⟩ : ∃ m, n = m + 1 := ⟨n - 1, by have : args.cost + 1 ≤ n := h; omega⟩
    have hargs : args.levels ≤ Formula.tallest m + 2 * m := ih m (Nat.le_of_succ_le_succ h)
    have hsucc := tallest_succ m
    show args.levels + 1 ≤ Formula.tallest (m + 1) - 1
    omega
  | enclosed x ih =>
    intro n h
    obtain ⟨m, rfl⟩ : ∃ m, n = m + 1 := ⟨n - 1, by have : x.cost + 1 ≤ n := h; omega⟩
    have hx : x.levels ≤ Formula.tallest m + 2 * m := ih m (Nat.le_of_succ_le_succ h)
    have hsucc := tallest_succ m
    show x.levels ≤ Formula.tallest (m + 1) - 1
    omega
  | argument x ih => exact ih
  | argumentBefore x more ihx ihmore =>
    intro n h
    have h : max x.cost more.cost ≤ n := h
    have hx : x.levels ≤ Formula.tallest n + 2 * n := ihx n (by omega)
    have hmore : more.levels ≤ Formula.tallest n + 2 * n := ihmore n (by omega)
    show max x.levels more.levels ≤ Formula.tallest n + 2 * n
    omega

end Derivation

/-! ## §3. Texts of derivations. -/

/-- Characters that are read as tokens of the given kinds, whatever follows them. -/
def Spells (cs : List Char) (ks : List TokenKind) : Prop :=
  ∀ (rest : List Char) (position : Nat) (ts : List Token),
    tokensFrom (position + cs.length) rest = .ok ts →
      ∃ us : List Token, us.map (·.kind) = ks ∧ tokensFrom position (cs ++ rest) = .ok (us ++ ts)

namespace Spells

theorem nil : Spells [] [] := by
  intro rest position ts h
  exact ⟨[], rfl, h⟩

theorem append {cs ds : List Char} {ks ls : List TokenKind} (hc : Spells cs ks)
    (hd : Spells ds ls) : Spells (cs ++ ds) (ks ++ ls) := by
  intro rest position ts h
  rw [List.length_append, ← Nat.add_assoc] at h
  obtain ⟨vs, hvs, h⟩ := hd rest (position + cs.length) ts h
  obtain ⟨us, hus, h⟩ := hc (ds ++ rest) position (vs ++ ts) h
  refine ⟨us ++ vs, ?_, ?_⟩
  · rw [List.map_append, hus, hvs]
  · rw [List.append_assoc, h, List.append_assoc]

theorem simple {c : Char} {k : TokenKind} (hc : simpleToken? c = some k) : Spells [c] [k] := by
  intro rest position ts h
  refine ⟨[⟨k, position, [c]⟩], rfl, ?_⟩
  rw [List.singleton_append, tokensFrom, hc]
  exact bind_eq_ok.2 ⟨ts, h, rfl⟩

theorem blank {c : Char} (hsimple : simpleToken? c = none) (hc : Text.isBlank c = true) :
    Spells [c] [] := by
  intro rest position ts h
  refine ⟨[], rfl, ?_⟩
  rw [List.singleton_append, tokensFrom, hsimple]
  dsimp only
  rw [if_pos hc]
  exact h

/-- A name, and behind it a character that does not go on with it. -/
theorem name (c : Char) (cs : List Char) (d : Char) {ks : List TokenKind}
    (hc : simpleToken? c = none ∧ Text.isBlank c = false ∧ isNameStart c = true)
    (hnumeral : c ≠ '.' ∧ c.isDigit = false) (hcs : cs.all isNamePart = true)
    (hd : isNamePart d = false) (hks : Spells [d] ks) :
    Spells (c :: cs ++ [d]) (.name (String.ofList (c :: cs)) :: ks) := by
  intro rest position ts h
  rw [List.length_append, ← Nat.add_assoc] at h
  obtain ⟨us, hus, h⟩ := hks rest (position + (c :: cs).length) ts h
  refine ⟨⟨.name (String.ofList (c :: cs)), position, c :: cs⟩ :: us, ?_, ?_⟩
  · rw [List.map_cons, hus]
  · -- the name is what the scanner takes, up to the character behind it
    have hcs : ∀ a ∈ cs, isNamePart a = true := List.all_eq_true.1 hcs
    have htake : (cs ++ d :: rest).takeWhile isNamePart = cs := by
      rw [List.takeWhile_append_of_pos hcs, List.takeWhile_cons_of_neg (by rw [hd]; nofun),
        List.append_nil]
    have hdrop : (cs ++ d :: rest).dropWhile isNamePart = d :: rest := by
      rw [List.dropWhile_append_of_pos hcs, List.dropWhile_cons_of_neg (by rw [hd]; nofun)]
    -- and it is no numeral, by its first character
    have hstart : ¬ Numeral.startsAt (c :: (cs ++ d :: rest)) = true := by
      unfold Numeral.startsAt
      split
      · rename_i heq
        exact absurd (List.cons.inj heq).1 hnumeral.1
      · rename_i heq
        rw [← (List.cons.inj heq).1, hnumeral.2]
        nofun
      · nofun
    rw [List.append_assoc, List.cons_append, List.singleton_append, tokensFrom, hc.1]
    dsimp only
    rw [if_neg (by rw [hc.2.1]; nofun), dif_neg hstart, if_pos hc.2.2, htake, hdrop]
    exact bind_eq_ok.2 ⟨us ++ ts, h, rfl⟩

end Spells

/-- A text that spells a derivation whose calls fit, at a cost that is allowed, is read. -/
theorem parse_of_spells {cs : List Char} {d : Derivation .expression} (h : Spells cs d.tokens)
    (hfit : d.CallsFit) (hcost : d.cost ≤ maxNesting) :
    parse (String.ofList cs) = .ok d.tree := by
  obtain ⟨us, hus, htokens⟩ := h [] 0 [⟨.finish, 0 + cs.length, []⟩] (by rw [tokensFrom])
  rw [List.append_nil] at htokens
  -- with nothing behind it, the text ends with the end token
  have htokens : tokens (String.ofList cs) = .ok (us ++ [⟨.finish, 0 + cs.length, []⟩]) := by
    unfold tokens
    rw [String.toList_ofList]
    exact htokens
  have hends := endsOnce_tokens htokens
  unfold parse
  rw [htokens]
  apply (parseTokens_eq_ok_iff hends).2
  refine ⟨d, ?_, hfit, hcost, rfl⟩
  rw [kindsBeforeEnd, List.dropLast_concat, hus]

/-! ## §4. High trees. -/

theorem spells_x : Spells ['x', ' '] [.name "x"] :=
  .name 'x' [] ' ' (by decide) (by decide) rfl (by decide) (.blank (by decide) (by decide))

theorem spells_abs : Spells ['a', 'b', 's', '('] [.name "abs", .leftParen] :=
  .name 'a' ['b', 's'] '(' (by decide) (by decide) (by decide) (by decide) (.simple rfl)

namespace Derivation

/-- `n` more factors. -/
def timesX : Nat → Derivation .factors
  | 0 => .noFactor
  | n + 1 => .factor .mul rfl (.named "x") (timesX n)

/-- `n` more summands. -/
def plusX : Nat → Derivation .summands
  | 0 => .noSummand
  | n + 1 => .summand .add rfl (.product (.named "x") .noFactor) (plusX n)

/-- `n` signs before an operand. -/
def signs : Nat → Derivation .unary
  | 0 => .named "x"
  | n + 1 => .signed .negative (signs n)

/-- `n` signs under one operator. -/
def signsPlusX (n : Nat) : Derivation .expression := .sum (.product (signs n) .noFactor) (plusX 1)

/-- The derivation of cost `n` whose tree is highest: what is left of the levels when a call is read
is used up once behind the call, for factors, and a second time behind those, for summands. -/
def tower : Nat → Derivation .expression
  | 0 => .single (.named "x")
  | n + 1 => .sum (.product (.unsigned (.raised (.call "abs" (.argument (tower n))) (.named "x")))
      (timesX (n + 1))) (plusX (n + 1))

theorem timesX_measures (n : Nat) :
    (timesX n).CallsFit ∧ (timesX n).cost = n ∧ (timesX n).operators = n
      ∧ (timesX n).levels = n := by
  induction n with
  | zero => exact ⟨trivial, rfl, rfl, rfl⟩
  | succ n ih =>
    obtain ⟨hfit, hcost, hoperators, hlevels⟩ := ih
    refine ⟨⟨trivial, hfit⟩, ?_, ?_, ?_⟩
    · show max 0 (timesX n).cost + 1 = n + 1
      omega
    · show (timesX n).operators + 1 = n + 1
      omega
    · show max (0 + (timesX n).operators + 1) (timesX n).levels = n + 1
      omega

theorem plusX_measures (n : Nat) :
    (plusX n).CallsFit ∧ (plusX n).cost = n ∧ (plusX n).operators = n ∧ (plusX n).levels = n := by
  induction n with
  | zero => exact ⟨trivial, rfl, rfl, rfl⟩
  | succ n ih =>
    obtain ⟨hfit, hcost, hoperators, hlevels⟩ := ih
    refine ⟨⟨⟨trivial, trivial⟩, hfit⟩, ?_, ?_, ?_⟩
    · show max (max 0 0) (plusX n).cost + 1 = n + 1
      omega
    · show (plusX n).operators + 1 = n + 1
      omega
    · show max (max (0 + 0) 0 + (plusX n).operators + 1) (plusX n).levels = n + 1
      omega

theorem signs_measures (n : Nat) :
    (signs n).CallsFit ∧ (signs n).cost = n ∧ (signs n).levels = n := by
  induction n with
  | zero => exact ⟨trivial, rfl, rfl⟩
  | succ n ih =>
    obtain ⟨hfit, hcost, hlevels⟩ := ih
    exact ⟨hfit, congrArg (· + 1) hcost, congrArg (· + 1) hlevels⟩

theorem tower_measures (n : Nat) :
    (tower n).CallsFit ∧ (tower n).cost = n ∧ (tower n).levels = n * (n + 3) := by
  induction n with
  | zero => exact ⟨⟨⟨trivial, trivial⟩, trivial⟩, rfl, rfl⟩
  | succ n ih =>
    obtain ⟨hfit, hcost, hlevels⟩ := ih
    obtain ⟨htimes, htimesCost, htimesOperators, htimesLevels⟩ := timesX_measures (n + 1)
    obtain ⟨hplus, hplusCost, hplusOperators, hplusLevels⟩ := plusX_measures (n + 1)
    have habs : Function.ofName? "abs" = some .abs ∧ Function.abs.arity.admits 1 = true := by decide
    -- `n` levels below, one for the call and one for the power, then both chains
    refine ⟨⟨⟨⟨⟨⟨.abs, habs⟩, hfit⟩, trivial⟩, htimes⟩, hplus⟩, ?_, ?_⟩
    · show max (max (max ((tower n).cost + 1) (0 + 1)) (timesX (n + 1)).cost) (plusX (n + 1)).cost
        = n + 1
      omega
    · have hexpand : (n + 1) * (n + 1 + 3) = n * (n + 3) + 2 * (n + 1) + 2 := by ring
      show max (max (max ((tower n).levels + 1) 0 + 1 + (timesX (n + 1)).operators)
        (timesX (n + 1)).levels + (plusX (n + 1)).operators) (plusX (n + 1)).levels = _
      omega

theorem spells_timesX (n : Nat) : ∃ cs, Spells cs (timesX n).tokens := by
  induction n with
  | zero => exact ⟨[], .nil⟩
  | succ n ih =>
    obtain ⟨cs, hcs⟩ := ih
    exact ⟨_, (Spells.simple (c := '*') rfl).append (spells_x.append hcs)⟩

theorem spells_plusX (n : Nat) : ∃ cs, Spells cs (plusX n).tokens := by
  induction n with
  | zero => exact ⟨[], .nil⟩
  | succ n ih =>
    obtain ⟨cs, hcs⟩ := ih
    exact ⟨_, (Spells.simple (c := '+') rfl).append (spells_x.append hcs)⟩

theorem spells_signs (n : Nat) :
    Spells (List.replicate n '-' ++ ['x', ' ']) (signs n).tokens := by
  induction n with
  | zero => exact spells_x
  | succ n ih => exact (Spells.simple (c := '-') rfl).append ih

theorem spells_tower (n : Nat) : ∃ cs, Spells cs (tower n).tokens := by
  induction n with
  | zero => exact ⟨_, spells_x⟩
  | succ n ih =>
    obtain ⟨cs, hcs⟩ := ih
    obtain ⟨ds, hds⟩ := spells_timesX (n + 1)
    obtain ⟨es, hes⟩ := spells_plusX (n + 1)
    have hcall := spells_abs.append (hcs.append (Spells.simple (c := ')') rfl))
    have hpower := hcall.append ((Spells.simple (c := '^') rfl).append spells_x)
    exact ⟨_, (hpower.append hds).append hes⟩

end Derivation

/-! ## §5. The height of what is read. -/

variable {source : String} {e : Expr}

theorem height_of_parse (h : parse source = .ok e) :
    ∃ (ts : List Token) (d : Derivation .expression), tokens source = .ok ts
      ∧ d.tokens = kindsBeforeEnd ts ∧ d.tree = e ∧ d.cost ≤ maxNesting ∧ e.height = d.levels := by
  obtain ⟨ts, d, htokens, hts, hfit, hcost, rfl⟩ := derivation_of_parse h
  have hd : d.tokens = kindsBeforeEnd ts := by
    rw [kindsBeforeEnd, List.map_dropLast, hts, List.dropLast_concat]
  exact ⟨ts, d, htokens, hd, rfl, hcost, d.height_tree hfit⟩

theorem height_le_of_parse (h : parse source = .ok e) :
    e.height ≤ maxNesting * (maxNesting + 3) := by
  obtain ⟨ts, d, _, _, _, hcost, hheight⟩ := height_of_parse h
  have hlevels : d.levels ≤ tallest maxNesting + 2 * maxNesting := d.levels_le maxNesting hcost
  rw [hheight]
  exact hlevels

/-- `n` signs, at most 128 of them, and one more summand: the operator stands over all signs. -/
theorem parse_signsPlusX {n : Nat} (h : n ≤ maxNesting) :
    parse (String.ofList (List.replicate n '-' ++ ['x', ' '] ++ ['+', 'x', ' ']))
        = .ok (Derivation.signsPlusX n).tree
      ∧ (Derivation.signsPlusX n).tree.height = n + 1 := by
  obtain ⟨hfit, hcost, hlevels⟩ := Derivation.signs_measures n
  have hfits : (Derivation.signsPlusX n).CallsFit :=
    ⟨⟨hfit, trivial⟩, (Derivation.plusX_measures 1).1⟩
  constructor
  · have hspells : Spells (List.replicate n '-' ++ ['x', ' '] ++ ['+', 'x', ' '])
        (Derivation.signsPlusX n).tokens := by
      show Spells _ ((Derivation.signs n).tokens ++ [] ++ [.operator .add, .name "x"])
      rw [List.append_nil]
      exact (Derivation.spells_signs n).append ((Spells.simple rfl).append spells_x)
    apply parse_of_spells hspells hfits
    show max (max (Derivation.signs n).cost 0) 1 ≤ maxNesting
    have hone : 1 ≤ maxNesting := by decide
    omega
  · rw [Derivation.height_tree _ hfits]
    show max (max ((Derivation.signs n).levels + 0) 0 + 1) 1 = n + 1
    omega

/-- **How high the tree of a formula is.**  What is kept at most 128 is the cost of the derivation.
The height is its levels, so the tree is at most 128 high exactly when those are at most 128; and
whatever the formula, it is at most `128 * 131` high. -/
theorem height_le_maxNesting_iff (h : parse source = .ok e) :
    ∃ (ts : List Token) (d : Derivation .expression), tokens source = .ok ts
      ∧ d.tokens = kindsBeforeEnd ts ∧ d.tree = e ∧ d.cost ≤ maxNesting
      ∧ (e.height ≤ maxNesting ↔ d.levels ≤ maxNesting)
      ∧ e.height ≤ maxNesting * (maxNesting + 3) := by
  obtain ⟨ts, d, htokens, hd, htree, hcost, hheight⟩ := height_of_parse h
  refine ⟨ts, d, htokens, hd, htree, hcost, ?_, height_le_of_parse h⟩
  rw [hheight]

/-- With 127 signs the height is the greatest that the depth stands for. -/
theorem height_signs_within :
    ∃ d : Derivation .expression, d.tree = (Derivation.signsPlusX 127).tree
      ∧ d.levels ≤ maxNesting := by
  obtain ⟨hparse, hheight⟩ := parse_signsPlusX (n := 127) (by decide)
  obtain ⟨_, d, _, _, htree, _, hiff, _⟩ := height_le_maxNesting_iff hparse
  exact ⟨d, htree, hiff.1 (by rw [hheight]; decide)⟩

/-- With 128 signs it is one more. -/
theorem height_signs_beyond :
    ∃ e, parse (String.ofList (List.replicate 128 '-' ++ ['x', ' '] ++ ['+', 'x', ' '])) = .ok e
      ∧ e.height = 129 ∧ ¬ e.height ≤ maxNesting := by
  obtain ⟨hparse, hheight⟩ := parse_signsPlusX (n := 128) (by decide)
  exact ⟨_, hparse, hheight, by rw [hheight]; decide⟩

/-- No tree that is read is higher than `128 * 131`, and there is one as high as that. -/
theorem isGreatest_height :
    IsGreatest {n | ∃ source e, parse source = .ok e ∧ e.height = n}
      (maxNesting * (maxNesting + 3)) := by
  constructor
  · obtain ⟨cs, hcs⟩ := Derivation.spells_tower maxNesting
    obtain ⟨hfit, hcost, hlevels⟩ := Derivation.tower_measures maxNesting
    refine ⟨String.ofList cs, (Derivation.tower maxNesting).tree, ?_, ?_⟩
    · exact parse_of_spells hcs hfit (Nat.le_of_eq hcost)
    · rw [Derivation.height_tree _ hfit, hlevels]
  · rintro n ⟨source, e, h, rfl⟩
    exact height_le_of_parse h

end ShapeEstimator.Formula
