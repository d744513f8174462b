/-
  ShapeEstimator.Proofs.Formula.Grammar
  ────────────────────────────────
  **DERIVATIONS OF FORMULAS.**

  The grammar of formulas, said without a parser.  A derivation is a tree whose
  nodes are the rules that were used:

      expression := product (('+' | '-') product)*
      product    := unary (('*' | '/' | '%') unary)*
      unary      := ('-' | '+') unary | power
      power      := primary ('^' unary)?
      primary    := number | name | name '(' arguments ')' | '(' expression ')'
      arguments  := expression (',' expression)*

  A derivation spells a list of tokens, means an expression tree, and has a cost:
  the number of levels that are open where it is deepest, the operators of a chain
  counted from its start.
-/
import ShapeEstimator.Formula.Expr
import ShapeEstimator.Formula.Token

namespace ShapeEstimator

/-- Whether an operator joins the products of a sum. -/
def Operator.isAdditive : Operator → Bool
  | .add | .sub => true
  | _ => false

/-- Whether an operator joins the operands of a product. -/
def Operator.isMultiplicative : Operator → Bool
  | .mul | .div | .rem => true
  | _ => false

/-- The operator that a sign is written as. -/
def Sign.operator : Sign → Operator
  | .negative => .sub
  | .positive => .add

namespace Formula

/-! ## §1. Phrases. -/

/-- What a run of tokens can be read as. -/
inductive Phrase where
  /-- A sum. -/
  | expression
  /-- What follows the first product of a sum. -/
  | summands
  /-- A product. -/
  | product
  /-- What follows the first operand of a product. -/
  | factors
  /-- An operand with its signs. -/
  | unary
  /-- A power, or what could be the base of one. -/
  | power
  /-- A number, a name, a call or an expression in parentheses. -/
  | primary
  /-- The arguments of a call, without its parentheses. -/
  | arguments
  deriving DecidableEq, Repr

/-- What a phrase means.  The rest of a chain turns the operand before it into a tree. -/
abbrev Phrase.Meaning : Phrase → Type
  | .summands | .factors => Expr → Expr
  | .arguments => List Expr
  | _ => Expr

/-! ## §2. Derivations. -/

/-- A derivation of a phrase: which rule of the grammar is used, and for its parts in turn. -/
inductive Derivation : Phrase → Type where
  | sum (first : Derivation .product) (more : Derivation .summands) : Derivation .expression
  | noSummand : Derivation .summands
  | summand (op : Operator) (additive : op.isAdditive = true) (operand : Derivation .product)
      (more : Derivation .summands) : Derivation .summands
  | product (first : Derivation .unary) (more : Derivation .factors) : Derivation .product
  | noFactor : Derivation .factors
  | factor (op : Operator) (multiplicative : op.isMultiplicative = true)
      (operand : Derivation .unary) (more : Derivation .factors) : Derivation .factors
  | signed (sign : Sign) (operand : Derivation .unary) : Derivation .unary
  | unsigned (operand : Derivation .power) : Derivation .unary
  | base (x : Derivation .primary) : Derivation .power
  | raised (x : Derivation .primary) (exponent : Derivation .unary) : Derivation .power
  | number (value : Decimal) : Derivation .primary
  | name (text : String) : Derivation .primary
  | call (function : String) (args : Derivation .arguments) : Derivation .primary
  | enclosed (x : Derivation .expression) : Derivation .primary
  | argument (x : Derivation .expression) : Derivation .arguments
  | argumentBefore (x : Derivation .expression) (more : Derivation .arguments) :
      Derivation .arguments

namespace Derivation

variable {p : Phrase}

/-- The tokens that a derivation spells. -/
def tokens : {p : Phrase} → Derivation p → List TokenKind
  | _, .sum first more => first.tokens ++ more.tokens
  | _, .noSummand => []
  | _, .summand op _ operand more => .operator op :: (operand.tokens ++ more.tokens)
  | _, .product first more => first.tokens ++ more.tokens
  | _, .noFactor => []
  | _, .factor op _ operand more => .operator op :: (operand.tokens ++ more.tokens)
  | _, .signed sign operand => .operator sign.operator :: operand.tokens
  | _, .unsigned operand => operand.tokens
  | _, .base x => x.tokens
  | _, .raised x exponent => x.tokens ++ .operator .pow :: exponent.tokens
  | _, .number value => [.number value]
  | _, .name text => [.name text]
  | _, .call function args => .name function :: .leftParen :: (args.tokens ++ [.rightParen])
  | _, .enclosed x => .leftParen :: (x.tokens ++ [.rightParen])
  | _, .argument x => x.tokens
  | _, .argumentBefore x more => x.tokens ++ .comma :: more.tokens

section Tokens

variable {first : Derivation .product} {more : Derivation .summands} {operand : Derivation .unary}
  {rest : Derivation .factors} {x : Derivation .primary} {args : Derivation .arguments}
  {e : Derivation .expression}

@[simp] theorem tokens_sum : (sum first more).tokens = first.tokens ++ more.tokens := rfl

@[simp] theorem tokens_summand {op : Operator} {additive : op.isAdditive = true} :
    (summand op additive first more).tokens = .operator op :: (first.tokens ++ more.tokens) := rfl

@[simp] theorem tokens_product :
    (product operand rest).tokens = operand.tokens ++ rest.tokens := rfl

@[simp] theorem tokens_factor {op : Operator} {multiplicative : op.isMultiplicative = true} :
    (factor op multiplicative operand rest).tokens
      = .operator op :: (operand.tokens ++ rest.tokens) := rfl

@[simp] theorem tokens_raised :
    (raised x operand).tokens = x.tokens ++ .operator .pow :: operand.tokens := rfl

@[simp] theorem tokens_call {function : String} :
    (call function args).tokens
      = .name function :: .leftParen :: (args.tokens ++ [.rightParen]) := rfl

@[simp] theorem tokens_enclosed :
    (enclosed e).tokens = .leftParen :: (e.tokens ++ [.rightParen]) := rfl

@[simp] theorem tokens_argumentBefore :
    (argumentBefore e args).tokens = e.tokens ++ .comma :: args.tokens := rfl

end Tokens

/-- The meaning of a name in front of no parenthesis. -/
def meaningOfName (text : String) : Expr :=
  match Constant.ofName? text with
  | some constant => .constant constant
  | none => .variable text

/-- The meaning of a call.  A name that is no function has none; `CallsFit` rules it out. -/
def meaningOfCall (function : String) (args : List Expr) : Expr :=
  match Function.ofName? function with
  | some f => .call f args
  | none => .variable function

/-- The meaning of a derivation.  Chains lean to the left. -/
def meaning : {p : Phrase} → Derivation p → p.Meaning
  -- the operand in front of a chain is handed on from operator to operator
  | _, .sum first more => more.meaning first.meaning
  | _, .noSummand => fun left => left
  | _, .summand op _ operand more => fun left => more.meaning (.binary op left operand.meaning)
  | _, .product first more => more.meaning first.meaning
  | _, .noFactor => fun left => left
  | _, .factor op _ operand more => fun left => more.meaning (.binary op left operand.meaning)
  | _, .signed sign operand => .unary sign operand.meaning
  | _, .unsigned operand => operand.meaning
  | _, .base x => x.meaning
  | _, .raised x exponent => .binary .pow x.meaning exponent.meaning
  | _, .number value => .number value
  | _, .name text => meaningOfName text
  | _, .call function args => meaningOfCall function args.meaning
  -- parentheses leave no node
  | _, .enclosed x => x.meaning
  | _, .argument x => [x.meaning]
  | _, .argumentBefore x more => x.meaning :: more.meaning

/-- The expression tree of a derivation. -/
def tree (d : Derivation .expression) : Expr := d.meaning

/-- A name as an operand. -/
def named (text : String) : Derivation .unary := .unsigned (.base (.name text))

/-- An operand that is an expression by itself. -/
def single (x : Derivation .unary) : Derivation .expression :=
  .sum (.product x .noFactor) .noSummand

/-- Every call is one of a known function, with as many arguments as it takes. -/
def CallsFit : {p : Phrase} → Derivation p → Prop
  | _, .sum first more => first.CallsFit ∧ more.CallsFit
  | _, .noSummand => True
  | _, .summand _ _ operand more => operand.CallsFit ∧ more.CallsFit
  | _, .product first more => first.CallsFit ∧ more.CallsFit
  | _, .noFactor => True
  | _, .factor _ _ operand more => operand.CallsFit ∧ more.CallsFit
  | _, .signed _ operand => operand.CallsFit
  | _, .unsigned operand => operand.CallsFit
  | _, .base x => x.CallsFit
  | _, .raised x exponent => x.CallsFit ∧ exponent.CallsFit
  | _, .number _ => True
  | _, .name _ => True
  | _, .call function args =>
    (∃ f, Function.ofName? function = some f ∧ f.arity.admits (List.length args.meaning) = true)
      ∧ args.CallsFit
  | _, .enclosed x => x.CallsFit
  | _, .argument x => x.CallsFit
  | _, .argumentBefore x more => x.CallsFit ∧ more.CallsFit

/-! ## §3. Cost. -/

/-- The nesting cost.  In a chain `m₀ op m₁ op … mₖ` the operand `mᵢ` costs `i` more than by
itself: the operators in front of it are open when it is read. -/
def cost : {p : Phrase} → Derivation p → Nat
  -- the first operand is read before any operator of its chain is open
  | _, .sum first more => max first.cost more.cost
  | _, .noSummand => 0
  | _, .summand _ _ operand more => max operand.cost more.cost + 1
  | _, .product first more => max first.cost more.cost
  | _, .noFactor => 0
  | _, .factor _ _ operand more => max operand.cost more.cost + 1
  | _, .signed _ operand => operand.cost + 1
  | _, .unsigned operand => operand.cost
  | _, .base x => x.cost
  -- the base is read before the power is known to be one
  | _, .raised x exponent => max x.cost (exponent.cost + 1)
  | _, .number _ => 0
  | _, .name _ => 0
  | _, .call _ args => args.cost + 1
  | _, .enclosed x => x.cost + 1
  | _, .argument x => x.cost
  | _, .argumentBefore x more => max x.cost more.cost

/-- The costs of the operands in the rest of a chain, each by itself. -/
def operandCosts : {p : Phrase} → Derivation p → List Nat
  | _, .summand _ _ operand more => operand.cost :: more.operandCosts
  | _, .factor _ _ operand more => operand.cost :: more.operandCosts
  | _, _ => []

/-- The greatest of some costs, each with its place in the list added, counted from `i`. -/
def greatestFrom (i : Nat) : List Nat → Nat
  | [] => 0
  | c :: cs => max (i + c) (greatestFrom (i + 1) cs)

/-- With an operand in front that has `i` operators before it, the rest of a chain costs `i` more
than by itself. -/
theorem greatestFrom_operandCosts (more : Derivation p) (hp : p = .summands ∨ p = .factors) :
    ∀ i a : Nat, max (i + a) (greatestFrom (i + 1) more.operandCosts) = i + max a more.cost := by
  induction more with
  | noSummand | noFactor =>
    intro i a
    show max (i + a) 0 = i + max a 0
    omega
  | summand op _ operand more _ ih | factor op _ operand more _ ih =>
    intro i a
    have hrest := ih hp (i + 1) operand.cost
    show max (i + a) (max (i + 1 + operand.cost) (greatestFrom (i + 1 + 1) more.operandCosts))
      = i + max a (max operand.cost more.cost + 1)
    omega
  | _ => rcases hp with hp | hp <;> exact nomatch hp

/-- The cost of a sum is the greatest of `cost mᵢ + i`. -/
theorem cost_sum (first : Derivation .product) (more : Derivation .summands) :
    (sum first more).cost = greatestFrom 0 (first.cost :: more.operandCosts) := by
  have hchain := more.greatestFrom_operandCosts (Or.inl rfl) 0 first.cost
  show max first.cost more.cost = max (0 + first.cost) (greatestFrom (0 + 1) more.operandCosts)
  omega

/-- The cost of a product is the greatest of `cost mᵢ + i`. -/
theorem cost_product (first : Derivation .unary) (more : Derivation .factors) :
    (product first more).cost = greatestFrom 0 (first.cost :: more.operandCosts) := by
  have hchain := more.greatestFrom_operandCosts (Or.inr rfl) 0 first.cost
  show max first.cost more.cost = max (0 + first.cost) (greatestFrom (0 + 1) more.operandCosts)
  omega

end Derivation

/-! ## §4. Ends of phrases. -/

/-- How tightly a token holds on to the phrase before it. -/
def TokenKind.tightness : TokenKind → Nat
  -- a parenthesis makes a call of the name before it
  | .leftParen => 5
  | .operator .pow => 4
  | .operator .mul | .operator .div | .operator .rem => 3
  | .operator .add | .operator .sub => 2
  | .comma => 1
  | _ => 0

/-- The least tightness of a token that goes on with a phrase. -/
def Phrase.reach : Phrase → Nat
  | .primary => 5
  | .power | .unary => 4
  | .product | .factors => 3
  | .expression | .summands => 2
  | .arguments => 1

/-- A phrase is over before a token that does not go on with it. -/
def Phrase.EndsBefore (p : Phrase) (k : TokenKind) : Prop := k.tightness < p.reach

instance (p : Phrase) (k : TokenKind) : Decidable (p.EndsBefore k) :=
  inferInstanceAs (Decidable (k.tightness < p.reach))

theorem Phrase.EndsBefore.mono {p q : Phrase} {k : TokenKind} (h : p.EndsBefore k)
    (hpq : p.reach ≤ q.reach) : q.EndsBefore k :=
  Nat.lt_of_lt_of_le h hpq

theorem tightness_of_isAdditive {op : Operator} (h : op.isAdditive = true) :
    (TokenKind.operator op).tightness = 2 := by
  cases op <;> first | rfl | exact absurd h (by decide)

theorem tightness_of_isMultiplicative {op : Operator} (h : op.isMultiplicative = true) :
    (TokenKind.operator op).tightness = 3 := by
  cases op <;> first | rfl | exact absurd h (by decide)

end Formula

end ShapeEstimator
