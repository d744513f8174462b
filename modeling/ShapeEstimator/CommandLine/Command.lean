/-
  ShapeEstimator.CommandLine.Command
  ────────────────────────────────
  **COMMANDS.**

  Five commands: list the catalog, show a shape, calculate a request, evaluate an
  expression, and check the catalog.  A sixth one explains them.  Words that are
  no command are a mistake of usage, which is all that is said about them.
-/
import ShapeEstimator.CommandLine.Options

namespace ShapeEstimator.CommandLine

/-! ## §1. Options. -/

/-- Says more about what is done; every command has it. -/
def verbose : OptionSpec := ⟨"verbose", 'v', false, false⟩

/-- The group of shapes to list. -/
def groupOption : OptionSpec := ⟨"group", 'g', true, false⟩

/-- The file of settings. -/
def settingsOption : OptionSpec := ⟨"settings", 's', true, false⟩

/-- The value of a variable. -/
def setOption : OptionSpec := ⟨"set", 's', true, true⟩

/-! ## §2. Commands. -/

/-- What to do. -/
inductive Command where
  /-- List the shapes of a group. -/
  | list (group : String)
  /-- Show the shape with a key. -/
  | display (key : String)
  /-- Calculate the request in a file, with the settings in another. -/
  | calculate (request : String) (settings : Option String)
  /-- Evaluate an expression with bindings of its variables. -/
  | evaluate (expression : String) (bindings : List String)
  /-- Check every shape of the catalog. -/
  | check
  /-- Explain the commands, or one of them. -/
  | help (topic : Option String)
  deriving DecidableEq, Repr

namespace Command

/-- The words of a command with its own options, if no option is given too often. -/
def scanWith (own : List OptionSpec) (args : List String) : Option Scanned :=
  (scan (verbose :: own) args).filter Scanned.isProper

/-- The names of the commands. -/
def names : List String := ["list", "show", "calc", "eval", "check", "help"]

/-- The request for help on at most one command.  No word is an option here. -/
def helpOn? : List String → Option Command
  | [] => some (.help none)
  | [topic] => if topic ∈ names then some (.help (some topic)) else none
  | _ => none

/-- The command with the given name and words. -/
def ofWords? (name : String) (args : List String) : Option Command :=
  match name with
  | "list" => do
    let s ← scanWith [groupOption] args
    match s.words with
    | [] => some (.list ((s.values groupOption).head?.getD "all"))
    | _ => none
  | "show" => do
    let s ← scanWith [] args
    match s.words with
    | [key] => some (.display key)
    | _ => none
  | "calc" => do
    let s ← scanWith [settingsOption] args
    let settings := (s.values settingsOption).head?
    match s.words with
    | [request] =>
      if request = "" ∨ settings = some "" then none else some (.calculate request settings)
    | _ => none
  | "eval" => do
    let s ← scanWith [setOption] args
    match s.words with
    | [expression] => some (.evaluate expression (s.values setOption))
    | _ => none
  | "check" => do
    let s ← scanWith [] args
    match s.words with
    | [] => some .check
    | _ => none
  | "help" => helpOn? args
  | _ => none

/-- The command of a list of words. -/
def ofArgs? (args : List String) : Option Command := do
  let (before, name, rest) ← splitCommand? [verbose] args
  if (Scanned.mk before []).isProper then ofWords? name rest else none

end Command

end ShapeEstimator.CommandLine
