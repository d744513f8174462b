/-
  ShapeEstimator.Formula.Token
  ────────────────────────────────
  **TOKENS.**

  A formula is read character by character into tokens: numerals, names,
  operators, parentheses and commas.  White space separates and is skipped.
  Positions count characters from zero.  The list ends with one end token whose
  position is the length of the text.
-/
import ShapeEstimator.Decimal.Notation
import ShapeEstimator.Decimal.Numeral
import ShapeEstimator.Formula.Symbol
import ShapeEstimator.Text.Alphabetic
import ShapeEstimator.Text.Blank
import ShapeEstimator.Text.Numeric

namespace ShapeEstimator.Formula

/-! ## §1. Tokens. -/

/-- What a token is. -/
inductive TokenKind where
  /-- A number. -/
  | number (value : Decimal)
  /-- A name of a variable, constant or function. -/
  | name (text : String)
  /-- One of the six operators. -/
  | operator (op : Operator)
  /-- An opening parenthesis. -/
  | leftParen
  /-- A closing parenthesis. -/
  | rightParen
  /-- A comma. -/
  | comma
  /-- The end of the formula. -/
  | finish
  deriving DecidableEq, Repr

/-- The token as error messages name it. -/
def TokenKind.description : TokenKind → String
  | .number value => "number " ++ value.text
  | .name text => "'" ++ text ++ "'"
  | .operator op => "'" ++ String.singleton op.symbol ++ "'"
  | .leftParen => "'('"
  | .rightParen => "')'"
  | .comma => "','"
  | .finish => "end of expression"

/-- A token with the place where it was read. -/
structure Token where
  /-- What the token is. -/
  kind : TokenKind
  /-- The number of characters before it. -/
  position : Nat
  /-- The characters it was read from. -/
  lexeme : List Char
  deriving DecidableEq, Repr

/-! ## §2. Faults of syntax. -/

/-- What is wrong with a formula's text. -/
inductive SyntaxCause where
  /-- There is no token. -/
  | emptyExpression
  /-- No token starts with this character. -/
  | unexpectedCharacter (c : Char)
  /-- A numeral has no decimal. -/
  | numberOutOfRange (text : String)
  /-- There are more than 128 levels. -/
  | nestedTooDeeply
  /-- The token cannot stand here. -/
  | unexpected (found : TokenKind)
  /-- A parenthesis is not closed here. -/
  | expectedClosing (found : TokenKind)
  /-- An argument is followed by something else than a comma or a closing parenthesis. -/
  | expectedSeparator (found : TokenKind)
  /-- A name in front of a parenthesis is not a function. -/
  | unknownFunction (name : String)
  /-- A function is called with the wrong number of arguments. -/
  | wrongArgumentCount (function : Function) (count : Nat)
  deriving DecidableEq, Repr

/-- The wording of a cause. -/
def SyntaxCause.message : SyntaxCause → String
  | .emptyExpression => "empty expression"
  | .unexpectedCharacter c => "unexpected character '" ++ String.singleton c ++ "'"
  | .numberOutOfRange text => "number '" ++ text ++ "' is out of range"
  | .nestedTooDeeply => "expression nested too deeply"
  | .unexpected found => "unexpected " ++ found.description
  | .expectedClosing found => "expected ')', found " ++ found.description
  | .expectedSeparator found => "expected ',' or ')', found " ++ found.description
  | .unknownFunction name => "unknown function '" ++ name ++ "'"
  | .wrongArgumentCount f count =>
    s!"{f.name}() takes {f.arity.text} argument(s), got {count}"

/-- A fault of syntax and where it is. -/
structure SyntaxFault where
  /-- The position of the token or character at fault. -/
  position : Nat
  /-- What is wrong there. -/
  cause : SyntaxCause
  deriving DecidableEq, Repr

/-! ## §3. Character classes. -/

/-- The token that a single character makes by itself. -/
def simpleToken? (c : Char) : Option TokenKind :=
  match c with
  | '+' => some (.operator .add)
  | '-' => some (.operator .sub)
  | '*' => some (.operator .mul)
  | '/' => some (.operator .div)
  | '%' => some (.operator .rem)
  | '^' => some (.operator .pow)
  | '(' => some .leftParen
  | ')' => some .rightParen
  | ',' => some .comma
  | _ => none

/-- Whether a name may start with a character: a letter or a low line. -/
def isNameStart (c : Char) : Bool := Text.isAlphabetic c || c == '_'

/-- Whether a name may go on with a character: a letter, a numeric character or a low line. -/
def isNamePart (c : Char) : Bool := Text.isAlphabetic c || Text.isNumeric c || c == '_'

/-! ## §4. Reading tokens. -/

/-- The tokens of the characters from a position on. -/
def tokensFrom (position : Nat) (cs : List Char) : Except SyntaxFault (List Token) :=
  match cs with
  | [] => .ok [⟨.finish, position, []⟩]
  | c :: rest =>
    match simpleToken? c with
    | some kind => do
      let tokens ← tokensFrom (position + 1) rest
      return ⟨kind, position, [c]⟩ :: tokens
    | none =>
      if Text.isBlank c then tokensFrom (position + 1) rest
      else if _ : Numeral.startsAt (c :: rest) = true then
        let scanned := Numeral.scan (c :: rest)
        let lexeme := (c :: rest).take ((c :: rest).length - scanned.2.length)
        match scanned.1.value? with
        | none => .error ⟨position, .numberOutOfRange (String.ofList lexeme)⟩
        | some value => do
          let tokens ← tokensFrom (position + lexeme.length) scanned.2
          return ⟨.number value, position, lexeme⟩ :: tokens
      else if isNameStart c then do
        let lexeme := c :: rest.takeWhile isNamePart
        let tokens ← tokensFrom (position + lexeme.length) (rest.dropWhile isNamePart)
        return ⟨.name (String.ofList lexeme), position, lexeme⟩ :: tokens
      else .error ⟨position, .unexpectedCharacter c⟩
termination_by cs.length
decreasing_by
  · exact Nat.lt_succ_self _
  · exact Nat.lt_succ_self _
  · exact Numeral.scan_length_lt (by assumption)
  · exact Nat.lt_succ_of_le (List.dropWhile_sublist isNamePart).length_le

/-- The tokens of a formula. -/
def tokens (source : String) : Except SyntaxFault (List Token) :=
  tokensFrom 0 source.toList

end ShapeEstimator.Formula
