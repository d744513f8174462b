/-
  ShapeEstimator.CommandLine.Options
  ────────────────────────────────
  **OPTIONS AMONG WORDS.**

  A word that starts with two hyphens names an option in full, one that starts
  with one hyphen is a row of letters; all other words, a single hyphen among
  them, stand for themselves, and so does everything behind two hyphens alone.
  The value of an option follows an equals sign, its letter, or as a word of its
  own that does not look like an option.
-/

namespace ShapeEstimator.CommandLine

/-! ## §1. Options. -/

/-- An option. -/
structure OptionSpec where
  /-- The name behind two hyphens. -/
  long : String
  /-- The letter behind one hyphen. -/
  letter : Char
  /-- Whether it has a value. -/
  takesValue : Bool
  /-- Whether it may be given more than once. -/
  repeatable : Bool
  deriving DecidableEq, Repr

/-- An option as it is given. -/
structure Given where
  /-- The option. -/
  spec : OptionSpec
  /-- Its value, as far as it is known. -/
  value : Option String
  deriving DecidableEq, Repr

/-- Whether the next word is the value of an option. -/
def Given.needsValue (g : Given) : Bool := g.spec.takesValue && g.value.isNone

/-- Options and the other words, each in order. -/
structure Scanned where
  /-- The options. -/
  options : List Given
  /-- The other words. -/
  words : List String
  deriving DecidableEq, Repr

namespace Scanned

/-- The values of an option. -/
def values (s : Scanned) (o : OptionSpec) : List String :=
  s.options.filterMap fun g => if g.spec = o then g.value else none

/-- Whether no option is given more often than it may be. -/
def isProper (s : Scanned) : Bool :=
  s.options.all fun g =>
    g.spec.repeatable || decide ((s.options.filter fun h => h.spec = g.spec).length = 1)

end Scanned

/-! ## §2. Words. -/

/-- The option of a word behind two hyphens, with a value behind an equals sign.  An option without
a value takes none. -/
def longOption? (specs : List OptionSpec) (cs : List Char) : Option Given := do
  let spec ← specs.find? fun o => o.long.toList == cs.takeWhile (· ≠ '=')
  match cs.dropWhile (· ≠ '=') with
  | [] => some ⟨spec, none⟩
  | _ :: value => if spec.takesValue then some ⟨spec, some (String.ofList value)⟩ else none

/-- The options of a row of letters.  The first one with a value takes the rest of the row, without
an equals sign at its start. -/
def letterOptions? (specs : List OptionSpec) : List Char → Option (List Given)
  | [] => some []
  | c :: rest => do
    let spec ← specs.find? fun o => o.letter == c
    if spec.takesValue then
      match rest with
      | [] => some [⟨spec, none⟩]
      | '=' :: value => some [⟨spec, some (String.ofList value)⟩]
      | value => some [⟨spec, some (String.ofList value)⟩]
    else (letterOptions? specs rest).map (⟨spec, none⟩ :: ·)

/-- Whether a word may be the value of an option that it follows. -/
def isValue (word : String) : Bool := word == "-" || word.toList.head? != some '-'

/-- What a word gives: options, or nothing for a word that stands for itself. -/
def optionsOf? (specs : List OptionSpec) (word : String) : Option (Option (List Given)) :=
  match word.toList with
  | '-' :: '-' :: name => (longOption? specs name).map fun g => some [g]
  | '-' :: c :: rest => (letterOptions? specs (c :: rest)).map some
  | _ => some none

/-! ## §3. Scanning. -/

/-- The last of some options, with the value that it still needs. -/
def giveValue (value : String) : List Given → List Given
  | [] => []
  | [g] => [{ g with value := some value }]
  | g :: rest => g :: giveValue value rest

/-- Whether the last of some options still needs a value. -/
def awaitsValue (given : List Given) : Bool := given.getLast?.any Given.needsValue

/-- The options and the other words of a list of words. -/
def scan (specs : List OptionSpec) : List String → Option Scanned
  | [] => some ⟨[], []⟩
  | word :: rest =>
    if word = "--" then some ⟨[], rest⟩
    else
      match optionsOf? specs word with
      | none => none
      | some none => (scan specs rest).map fun s => { s with words := word :: s.words }
      | some (some given) =>
        if awaitsValue given then
          match rest with
          | [] => none
          | value :: rest =>
            if isValue value then
              (scan specs rest).map fun s =>
                { s with options := giveValue value given ++ s.options }
            else none
        else (scan specs rest).map fun s => { s with options := given ++ s.options }

/-- The words up to the first one that is no option, which is returned with what follows it. -/
def splitCommand? (specs : List OptionSpec) :
    List String → Option (List Given × String × List String)
  | [] => none
  | word :: rest =>
    if word = "--" then none
    else
      match optionsOf? specs word with
      | none => none
      | some none => some ([], word, rest)
      | some (some given) =>
        if awaitsValue given then none
        else (splitCommand? specs rest).map fun (before, command, rest) =>
          (given ++ before, command, rest)

end ShapeEstimator.CommandLine
