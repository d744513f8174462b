/-
  ShapeEstimator.Json.Reader
  ────────────────────────────────
  **READING JSON TEXT.**

  Strict JSON: no comments, no trailing commas, nothing behind the value, no
  leading zeros or signs beyond the grammar.  White space is blank, tab, line
  feed and carriage return.
-/
import ShapeEstimator.Decimal.Numeral
import ShapeEstimator.Json.Value

namespace ShapeEstimator.Json

/-! ## §1. White space and words. -/

/-- Whether a character separates. -/
def isSpace (c : Char) : Bool := c == ' ' || c == '\t' || c == '\n' || c == '\r'

/-- The text behind leading white space. -/
def skipSpace (cs : List Char) : List Char := cs.dropWhile isSpace

/-- The text behind a word, if it starts with the word. -/
def afterWord? (word cs : List Char) : Option (List Char) :=
  if word.isPrefixOf cs then some (cs.drop word.length) else none

/-! ## §2. Numbers. -/

/-- The digits behind a point, at least one, and what follows; no digits without a point. -/
def readFraction (cs : List Char) : Option (List Char × List Char) :=
  match cs with
  | '.' :: rest =>
    let digits := rest.takeWhile Char.isDigit
    if digits = [] then none else some (digits, rest.dropWhile Char.isDigit)
  | _ => some ([], cs)

/-- A power of ten with at least one digit, and what follows; nothing without its letter. -/
def readPower (cs : List Char) : Option (Option Int × List Char) :=
  match cs with
  | [] => some (none, [])
  | c :: rest =>
    if c = 'e' ∨ c = 'E' then
      let signed := Numeral.scanSign rest
      let digits := signed.2.takeWhile Char.isDigit
      let value : Int := digitsValue digits
      if digits = [] then none
      else some (some (if signed.1 then -value else value), signed.2.dropWhile Char.isDigit)
    else some (none, c :: rest)

/-- The integer digits of a number: a zero alone, or digits that start with another one. -/
def readWhole (cs : List Char) : Option (List Char × List Char) :=
  match cs with
  | [] => none
  | c :: rest =>
    if c = '0' then some (['0'], rest)
    else if c.isDigit then
      some (c :: rest.takeWhile Char.isDigit, rest.dropWhile Char.isDigit)
    else none

/-- A number without its sign, and what follows. -/
def readUnsigned (negative : Bool) (cs : List Char) : Option (JsonNumber × List Char) := do
  let (whole, rest) ← readWhole cs
  let (fraction, rest) ← readFraction rest
  let (power, rest) ← readPower rest
  let number : JsonNumber :=
    { negative
      coefficient := digitsValue (whole ++ fraction)
      exponent := power.getD 0 - fraction.length
      whole := fraction.isEmpty && power.isNone }
  return (number, rest)

/-- A number, and what follows. -/
def readNumber (cs : List Char) : Option (JsonNumber × List Char) :=
  match cs with
  | '-' :: rest => readUnsigned true rest
  | _ => readUnsigned false cs

/-! ## §3. Texts. -/

/-- The value of a hexadecimal digit. -/
def hexValue? (c : Char) : Option Nat :=
  if c.isDigit then some (c.toNat - '0'.toNat)
  else if 'a' ≤ c ∧ c ≤ 'f' then some (c.toNat - 'a'.toNat + 10)
  else if 'A' ≤ c ∧ c ≤ 'F' then some (c.toNat - 'A'.toNat + 10)
  else none

/-- The value of four hexadecimal digits. -/
def hexValue4? (a b c d : Char) : Option Nat := do
  let a ← hexValue? a
  let b ← hexValue? b
  let c ← hexValue? c
  let d ← hexValue? d
  return ((a * 16 + b) * 16 + c) * 16 + d

/-- The code point of an escape of one letter. -/
def escaped? (c : Char) : Option Nat :=
  match c with
  | '"' => some 0x22
  | '\\' => some 0x5C
  | '/' => some 0x2F
  | 'b' => some 0x08
  | 'f' => some 0x0C
  | 'n' => some 0x0A
  | 'r' => some 0x0D
  | 't' => some 0x09
  | _ => none

/-- The code points of a text up to its closing quote, and what follows.  Halves of characters are
still apart. -/
def readUnits : List Char → Option (List Nat × List Char)
  | [] => none
  | c :: rest =>
    if c = '"' then some ([], rest)
    else if c = '\\' then
      match rest with
      | 'u' :: h1 :: h2 :: h3 :: h4 :: rest => do
        let n ← hexValue4? h1 h2 h3 h4
        let (units, rest) ← readUnits rest
        return (n :: units, rest)
      | e :: rest => do
        let n ← escaped? e
        let (units, rest) ← readUnits rest
        return (n :: units, rest)
      | [] => none
    else if c.toNat < 0x20 then none
    else do
      let (units, rest) ← readUnits rest
      return (c.toNat :: units, rest)

/-- Whether a number is the first half of a character. -/
def isHighHalf (n : Nat) : Bool := 0xD800 ≤ n && n < 0xDC00

/-- Whether a number is the second half of a character. -/
def isLowHalf (n : Nat) : Bool := 0xDC00 ≤ n && n < 0xE000

/-- The characters of a list of code points, two halves making one; nothing if a half is alone. -/
def joinHalves : List Nat → Option (List Char)
  | [] => some []
  | n :: rest =>
    if isHighHalf n then
      match rest with
      | low :: rest =>
        if isLowHalf low then
          (joinHalves rest).map
            (Char.ofNat (0x10000 + (n - 0xD800) * 0x400 + (low - 0xDC00)) :: ·)
        else none
      | [] => none
    else if isLowHalf n then none
    else (joinHalves rest).map (Char.ofNat n :: ·)

/-- A text behind its opening quote, and what follows.  The text is absent if it is broken. -/
def readText (cs : List Char) : Option (Option String × List Char) := do
  let (units, rest) ← readUnits cs
  return ((joinHalves units).map String.ofList, rest)

/-! ## §4. Values. -/

/-- An object with a member before those of another value. -/
def addMember (name : Option String) (value object : Json) : Json :=
  match name, object with
  | some name, .object members => .object ((name, value) :: members)
  | _, _ => .broken

mutual

/-- A value, and what follows.  The fuel bounds the recursion. -/
def readValue : Nat → List Char → Option (Json × List Char)
  | 0, _ => none
  | fuel + 1, cs =>
    match skipSpace cs with
    | [] => none
    | c :: rest =>
      if c = '"' then do
        let (text, rest) ← readText rest
        return ((text.map Json.string).getD .broken, rest)
      else if c = '[' then
        match skipSpace rest with
        | ']' :: rest => some (.array [], rest)
        | _ => do
          let (items, rest) ← readItems fuel rest
          return (.array items, rest)
      else if c = '\x7b' then
        match skipSpace rest with
        | '\x7d' :: rest => some (.object [], rest)
        | _ => readMembers fuel rest
      else if c = 'n' then (afterWord? "null".toList (c :: rest)).map (.null, ·)
      else if c = 't' then (afterWord? "true".toList (c :: rest)).map (.bool true, ·)
      else if c = 'f' then (afterWord? "false".toList (c :: rest)).map (.bool false, ·)
      else (readNumber (c :: rest)).map fun (n, rest) => (.number n, rest)

/-- The items of a list up to its closing bracket, and what follows. -/
def readItems : Nat → List Char → Option (List Json × List Char)
  | 0, _ => none
  | fuel + 1, cs => do
    let (item, rest) ← readValue fuel cs
    match skipSpace rest with
    | ',' :: rest => do
      let (items, rest) ← readItems fuel rest
      return (item :: items, rest)
    | ']' :: rest => return ([item], rest)
    | _ => none

/-- The object with the members up to its closing brace, and what follows. -/
def readMembers : Nat → List Char → Option (Json × List Char)
  | 0, _ => none
  | fuel + 1, cs =>
    match skipSpace cs with
    | '"' :: rest => do
      let (name, rest) ← readText rest
      match skipSpace rest with
      | ':' :: rest => do
        let (value, rest) ← readValue fuel rest
        match skipSpace rest with
        | ',' :: rest => do
          let (others, rest) ← readMembers fuel rest
          return (addMember name value others, rest)
        | '\x7d' :: rest => return (addMember name value (.object []), rest)
        | _ => none
      | _ => none
    | _ => none

end

/-- The value that a text holds, with nothing else but white space around it.  What lies too deep in
it is broken. -/
def read? (text : String) : Option Json := do
  let cs := text.toList
  let (value, rest) ← readValue (cs.length + 1) cs
  if skipSpace rest = [] then return value.cutBelow maxLevels else none

end ShapeEstimator.Json
