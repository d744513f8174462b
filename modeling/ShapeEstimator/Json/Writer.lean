/-
  ShapeEstimator.Json.Writer
  ────────────────────────────────
  **WRITING JSON TEXT.**

  Values are written without white space, or with a line for every item and
  member.  A number is written positionally as long as it has at most twenty
  places, and with a power of ten otherwise.
-/
import ShapeEstimator.Json.Value
import ShapeEstimator.Text.Positional

namespace ShapeEstimator.Json

/-! ## §1. Numbers and texts. -/

/-- The greatest number of places that is written out. -/
def maxPlaces : Nat := 20

/-- The characters of an integer. -/
def writeInt (n : Int) : List Char := Text.signed (n < 0) (Text.digits n.natAbs)

/-- The characters of a number. -/
def writeNumber (n : JsonNumber) : List Char :=
  Text.signed n.negative
    (if n.whole then Text.digits n.coefficient
    else if 0 ≤ n.exponent ∨ maxPlaces < n.exponent.natAbs then
      Text.digits n.coefficient ++ 'e' :: writeInt n.exponent
    else Text.fixedPoint n.coefficient n.exponent.natAbs)

/-- A hexadecimal digit. -/
def hexDigit (n : Nat) : Char := Nat.digitChar (n % 16)

/-- A character inside a text: quotes, backslashes and control characters are escaped. -/
def writeChar (c : Char) : List Char :=
  if c = '"' then ['\\', '"']
  else if c = '\\' then ['\\', '\\']
  else if c.toNat < 0x20 then
    ['\\', 'u', '0', '0', hexDigit (c.toNat / 16), hexDigit c.toNat]
  else [c]

/-- The characters of a text in quotes. -/
def writeText (s : String) : List Char := '"' :: (s.toList.flatMap writeChar ++ ['"'])

/-! ## §2. Values. -/

mutual

/-- The characters of a value. -/
def writeValue : Json → List Char
  | .null => "null".toList
  | .bool b => (if b then "true" else "false").toList
  | .number n => writeNumber n
  | .string s => writeText s
  | .broken => "null".toList
  | .array items => '[' :: (writeItems items ++ [']'])
  | .object members => '\x7b' :: (writeMembers members ++ ['\x7d'])

/-- The characters of a list of values with commas between them. -/
def writeItems : List Json → List Char
  | [] => []
  | [j] => writeValue j
  | j :: rest => writeValue j ++ ',' :: writeItems rest

/-- The characters of members with commas between them. -/
def writeMembers : List (String × Json) → List Char
  | [] => []
  | [(name, j)] => writeText name ++ ':' :: writeValue j
  | (name, j) :: rest => writeText name ++ ':' :: (writeValue j ++ ',' :: writeMembers rest)

end

/-- The text of a value. -/
def write (j : Json) : String := String.ofList j.writeValue

/-! ## §3. Values over lines. -/

/-- A new line, indented by two blanks for each level. -/
def newLine (level : Nat) : List Char := '\n' :: List.replicate (2 * level) ' '

mutual

/-- The characters of a value over lines. -/
def prettyValue (level : Nat) : Json → List Char
  | .array (item :: items) =>
    '[' :: (prettyItems (level + 1) (item :: items) ++ newLine level ++ [']'])
  | .object (member :: members) =>
    '\x7b' :: (prettyMembers (level + 1) (member :: members) ++ newLine level ++ ['\x7d'])
  | j => writeValue j

/-- The characters of a list of values, each on a line. -/
def prettyItems (level : Nat) : List Json → List Char
  | [] => []
  | [j] => newLine level ++ prettyValue level j
  | j :: rest => newLine level ++ prettyValue level j ++ ',' :: prettyItems level rest

/-- The characters of members, each on a line. -/
def prettyMembers (level : Nat) : List (String × Json) → List Char
  | [] => []
  | [(name, j)] => newLine level ++ writeText name ++ ':' :: ' ' :: prettyValue level j
  | (name, j) :: rest =>
    newLine level ++ writeText name ++ ':' :: ' ' :: prettyValue level j
      ++ ',' :: prettyMembers level rest

end

/-- The text of a value over lines. -/
def pretty (j : Json) : String := String.ofList (j.prettyValue 0)

end ShapeEstimator.Json
