/-
  ShapeEstimator.Formula.Parser
  ────────────────────────────────
  **FROM TOKENS TO TREES.**

      expression := product (('+' | '-') product)*
      product    := unary (('*' | '/' | '%') unary)*
      unary      := ('-' | '+') unary | power
      power      := primary ('^' unary)?
      primary    := number | name | name '(' arguments ')' | '(' expression ')'
      arguments  := expression (',' expression)*

  Sums and products lean to the left, powers to the right, and a power binds
  tighter than a sign.  The depth counts open parentheses, calls, signs, powers
  and the operators of open chains; it may not pass 128.
-/
import ShapeEstimator.Formula.Expr
import ShapeEstimator.Formula.Token

namespace ShapeEstimator.Formula

/-! ## §1. The cursor. -/

/-- The greatest depth. -/
def maxNesting : Nat := 128

/-- A place in a list of tokens, and the depth there. -/
structure Cursor where
  /-- The token that is read next. -/
  current : Token
  /-- The tokens behind it. -/
  rest : List Token
  /-- The number of levels that are open. -/
  depth : Nat
  deriving DecidableEq, Repr

namespace Cursor

/-- Goes to the next token; the last one stays. -/
def advance (c : Cursor) : Cursor :=
  match c.rest with
  | [] => c
  | t :: ts => { c with current := t, rest := ts }

/-- Opens a level, for the token at the given position. -/
def descend (c : Cursor) (position : Nat) : Except SyntaxFault Cursor :=
  if maxNesting < c.depth + 1 then .error ⟨position, .nestedTooDeeply⟩
  else .ok { c with depth := c.depth + 1 }

/-- Closes levels. -/
def ascend (c : Cursor) (levels : Nat) : Cursor := { c with depth := c.depth - levels }

/-- The fault of the token that is read next. -/
def fault (c : Cursor) (cause : SyntaxCause) : SyntaxFault := ⟨c.current.position, cause⟩

end Cursor

/-! ## §2. Operators by level. -/

/-- The operator of a sum that a token stands for. -/
def additive? : TokenKind → Option Operator
  | .operator .add => some .add
  | .operator .sub => some .sub
  | _ => none

/-- The operator of a product that a token stands for. -/
def multiplicative? : TokenKind → Option Operator
  | .operator .mul => some .mul
  | .operator .div => some .div
  | .operator .rem => some .rem
  | _ => none

/-- The sign that a token stands for. -/
def sign? : TokenKind → Option Sign
  | .operator .sub => some .negative
  | .operator .add => some .positive
  | _ => none

/-! ## §3. The grammar. -/

mutual

/-- Reads a sum.  The fuel bounds the recursion. -/
def expression : Nat → Cursor → Except SyntaxFault (Expr × Cursor)
  | 0, c => .error (c.fault .nestedTooDeeply)
  | fuel + 1, c => do
    let (left, c) ← product fuel c
    sumTail fuel left 0 c

/-- Reads the summands behind `left`; `chained` of them have been read. -/
def sumTail : Nat → Expr → Nat → Cursor → Except SyntaxFault (Expr × Cursor)
  | 0, _, _, c => .error (c.fault .nestedTooDeeply)
  | fuel + 1, left, chained, c =>
    match additive? c.current.kind with
    | none => .ok (left, c.ascend chained)
    | some op => do
      let c ← c.advance.descend c.current.position
      let (right, c) ← product fuel c
      sumTail fuel (.binary op left right) (chained + 1) c

/-- Reads a product. -/
def product : Nat → Cursor → Except SyntaxFault (Expr × Cursor)
  | 0, c => .error (c.fault .nestedTooDeeply)
  | fuel + 1, c => do
    let (left, c) ← unary fuel c
    productTail fuel left 0 c

/-- Reads the factors behind `left`; `chained` of them have been read. -/
def productTail : Nat → Expr → Nat → Cursor → Except SyntaxFault (Expr × Cursor)
  | 0, _, _, c => .error (c.fault .nestedTooDeeply)
  | fuel + 1, left, chained, c =>
    match multiplicative? c.current.kind with
    | none => .ok (left, c.ascend chained)
    | some op => do
      let c ← c.advance.descend c.current.position
      let (right, c) ← unary fuel c
      productTail fuel (.binary op left right) (chained + 1) c

/-- Reads an operand with the signs before it. -/
def unary : Nat → Cursor → Except SyntaxFault (Expr × Cursor)
  | 0, c => .error (c.fault .nestedTooDeeply)
  | fuel + 1, c =>
    match sign? c.current.kind with
    | none => power fuel c
    | some sign => do
      let c ← c.advance.descend c.current.position
      let (operand, c) ← unary fuel c
      return (.unary sign operand, c.ascend 1)

/-- Reads a power. -/
def power : Nat → Cursor → Except SyntaxFault (Expr × Cursor)
  | 0, c => .error (c.fault .nestedTooDeeply)
  | fuel + 1, c => do
    let (base, c) ← primary fuel c
    if c.current.kind = .operator .pow then
      let c ← c.advance.descend c.current.position
      let (exponent, c) ← unary fuel c
      return (.binary .pow base exponent, c.ascend 1)
    else return (base, c)

/-- Reads a number, a name, a call or a sum in parentheses. -/
def primary : Nat → Cursor → Except SyntaxFault (Expr × Cursor)
  | 0, c => .error (c.fault .nestedTooDeeply)
  | fuel + 1, c =>
    match c.current.kind with
    | .number value => .ok (.number value, c.advance)
    | .leftParen => do
      let inner ← c.advance.descend c.current.position
      let (x, after) ← expression fuel inner
      if after.current.kind = .rightParen then return (x, after.advance.ascend 1)
      else .error (after.fault (.expectedClosing after.current.kind))
    | .name name =>
      if c.advance.current.kind = .leftParen then
        match Function.ofName? name with
        | none => .error (c.fault (.unknownFunction name))
        | some f => do
          let inner ← c.advance.advance.descend c.current.position
          let (xs, after) ← arguments fuel inner
          if f.arity.admits xs.length then return (.call f xs, after.ascend 1)
          else .error (c.fault (.wrongArgumentCount f xs.length))
      else
        match Constant.ofName? name with
        | some constant => .ok (.constant constant, c.advance)
        | none => .ok (.variable name, c.advance)
    | kind => .error (c.fault (.unexpected kind))

/-- Reads the arguments of a call up to its closing parenthesis. -/
def arguments : Nat → Cursor → Except SyntaxFault (List Expr × Cursor)
  | 0, c => .error (c.fault .nestedTooDeeply)
  | fuel + 1, c =>
    if c.current.kind = .rightParen then .ok ([], c.advance)
    else argumentsTail fuel [] c

/-- Reads one more argument behind those in `before`, and all that follow. -/
def argumentsTail : Nat → List Expr → Cursor → Except SyntaxFault (List Expr × Cursor)
  | 0, _, c => .error (c.fault .nestedTooDeeply)
  | fuel + 1, before, c => do
    let (x, after) ← expression fuel c
    match after.current.kind with
    | .comma => argumentsTail fuel (before ++ [x]) after.advance
    | .rightParen => return (before ++ [x], after.advance)
    | kind => .error (after.fault (.expectedSeparator kind))

end

/-! ## §4. Formulas. -/

/-- Fuel that no list of `n` tokens uses up: on every path a token is read at least every eight
steps. -/
def fuelFor (n : Nat) : Nat := 8 * n + 8

/-- The tree of a list of tokens that ends with the end token. -/
def parseTokens : List Token → Except SyntaxFault Expr
  | [] => .error ⟨0, .emptyExpression⟩
  | first :: rest =>
    if first.kind = .finish then .error ⟨0, .emptyExpression⟩
    else do
      let (x, c) ← expression (fuelFor rest.length) ⟨first, rest, 0⟩
      if c.current.kind = .finish then return x
      else .error (c.fault (.unexpected c.current.kind))

/-- The tree of a formula. -/
def parse (source : String) : Except SyntaxFault Expr := do
  let ts ← tokens source
  parseTokens ts

end ShapeEstimator.Formula
