/-
  ShapeEstimator.Main
  ────────────────────────────────
  **THE PROGRAM.**

  Reads the files of a command, runs it, prints its answer, and says on the error
  stream why it fails.  The exit code is 0 for an answer or help, 1 for a failure,
  2 for words that are no command, and 101 for a command that is aborted.
-/
import ShapeEstimator.CommandLine.Run
import ShapeEstimator.Json.Writer

namespace ShapeEstimator.CommandLine

/-- The text behind a path, a single hyphen being the input stream. -/
def readPath (path : String) : IO (Option String) := do
  try
    if path = "-" then return some (← (← IO.getStdin).readToEnd)
    else return some (← IO.FS.readFile path)
  catch _ => return none

/-- The texts that a command reads, the settings first. -/
def readSources : Command → IO Sources
  | .calculate request settings => do
    let settings ← match settings with
      | some path => readPath path
      | none => pure none
    return ⟨settings, ← readPath request⟩
  | _ => return ⟨none, none⟩

/-- How the program is used. -/
def usage : String :=
  "usage: shape [-v] list [-g GROUP] | show KEY | calc REQUEST [-s SETTINGS]"
    ++ " | eval EXPRESSION [-s NAME=VALUE]... | check | help [COMMAND]"

/-- Runs the command of a list of words. -/
def runArgs (args : List String) : IO UInt32 := do
  match Command.ofArgs? args with
  | none =>
    IO.eprintln usage
    return 2
  | some (.help _) =>
    IO.println usage
    return 0
  | some command =>
    match command.run Catalog.standard (← readSources command) with
    | .error _ => return 101
    | .ok outcome =>
      if let some answer := outcome.answer then IO.println answer.pretty
      match outcome.failure with
      | none => return 0
      | some failure =>
        IO.eprintln ("Error: " ++ failure.message)
        return 1

end ShapeEstimator.CommandLine

/-- Runs the program. -/
def main (args : List String) : IO UInt32 := ShapeEstimator.CommandLine.runArgs args
