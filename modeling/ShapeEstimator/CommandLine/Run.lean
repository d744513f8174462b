/-
  ShapeEstimator.CommandLine.Run
  ────────────────────────────────
  **RUNNING A COMMAND.**

  A command answers with JSON or fails with a line of text; help is neither.  A
  command whose formulas abort does not come to an outcome.  What a command reads
  from files is given to it, so running is a function.
-/
import ShapeEstimator.Binary64.Numeric
import ShapeEstimator.Catalog.Standard
import ShapeEstimator.Catalog.Structure
import ShapeEstimator.CommandLine.Command
import ShapeEstimator.CommandLine.Request
import ShapeEstimator.Estimate.Run
import ShapeEstimator.Text.Blank

namespace ShapeEstimator.CommandLine

/-! ## §1. Failures. -/

/-- Why a command fails. -/
inductive CommandFailure where
  /-- A fault of the library. -/
  | fault (f : Fault)
  /-- A file cannot be read. -/
  | unreadableFile (path : String)
  /-- The settings in a file are not valid. -/
  | invalidSettings (path : String)
  /-- The request is not one. -/
  | invalidRequest
  /-- A binding has no equals sign. -/
  | noBinding (binding : String)
  /-- The value of a binding is no number. -/
  | noNumber (binding : String)
  /-- Shapes of the catalog have problems. -/
  | problems (failing total : Nat)
  deriving DecidableEq, Repr

/-- The failure in words. -/
def CommandFailure.message : CommandFailure → String
  | .fault f => f.message
  | .unreadableFile "-" => "failed to read stdin"
  | .unreadableFile path => "failed to read " ++ path
  | .invalidSettings path => "invalid settings in " ++ path
  | .invalidRequest => "request is not a valid calculation request"
  | .noBinding binding => "binding '" ++ binding ++ "' is not NAME=VALUE"
  | .noNumber binding => "binding '" ++ binding ++ "' has a non-numeric value"
  | .problems failing total => s!"{failing} of {total} shapes have problems"

/-- What a command answers and why it fails; a check may do both. -/
structure Outcome where
  /-- The answer. -/
  answer : Option Json
  /-- Why the command fails, if it does. -/
  failure : Option CommandFailure

/-- The outcome of an answer or a failure. -/
def Outcome.ofExcept : Except CommandFailure Json → Outcome
  | .ok j => ⟨some j, none⟩
  | .error f => ⟨none, some f⟩

/-- The outcome of a run, whose failure is caught. -/
def Outcome.ofRun (x : Except (Stop CommandFailure) Json) : Except Abort Outcome :=
  (caught x).map .ofExcept

/-- A result of the library inside a command. -/
def orFault {α : Type} (x : Except Fault α) : Except CommandFailure α :=
  match x with
  | .ok x => .ok x
  | .error f => .error (.fault f)

/-- A result of the library that formulas may abort, inside a command. -/
def orStop {α : Type} (x : Except (Stop Fault) α) : Except (Stop CommandFailure) α :=
  x.mapError (·.map .fault)

/-! ## §2. The catalog. -/

/-- A shape in a list. -/
def summary (s : Shape) : Json :=
  .object
    [("code", Json.ofOption .string s.code), ("key", .string s.key), ("name", .string s.name),
      ("category", s.category.toJson), ("id", Json.ofOption Identifier.toJson s.id),
      ("parameters", Json.ofStrings (s.parameters.map (·.name)))]

/-- The shapes of a group. -/
def runList (catalog : Catalog) (group : String) : Except CommandFailure Json := do
  let shapes ← orFault (catalog.shapesByGroupName group)
  return .array (shapes.map summary)

/-- The shape with a key. -/
def runDisplay (catalog : Catalog) (key : String) : Except CommandFailure Json := do
  let s ← orFault (catalog.find key)
  return s.toJson

/-- What is wrong with the structure of a shape. -/
def structureText? (s : Shape) : Option String :=
  match s.checkStructure with
  | .ok _ => none
  | .error f => some f.message

/-- Whether something is wrong with a shape. -/
def hasProblems (s : Shape) : Bool :=
  (structureText? s).isSome || !s.consistencyIssues.isEmpty

/-- The report about a shape. -/
def report (s : Shape) : Json :=
  Json.ofFields
    [("shape", some (.string s.key)), ("structure", (structureText? s).map .string),
      ("issues", listUnlessEmpty ConsistencyIssue.toJson s.consistencyIssues)]

/-- The reports about all shapes, and a failure if something is wrong with one of them. -/
def runCheck (catalog : Catalog) : Outcome :=
  let shapes := catalog.shapesIn .all
  let failing := shapes.filter hasProblems
  { answer := some (.array (shapes.map report))
    failure :=
      if failing.isEmpty then none else some (.problems failing.length shapes.length) }

/-! ## §3. Expressions. -/

/-- The name and the value of a binding. -/
def readBinding (binding : String) : Except CommandFailure (String × Float) :=
  let cs := binding.toList
  match cs.dropWhile (· ≠ '=') with
  | [] => .error (.noBinding binding)
  | _ :: value =>
    match Binary64.ofText? (Text.trimBlanks (String.ofList value)) with
    | some x => .ok (Text.trimBlanks (String.ofList (cs.takeWhile (· ≠ '='))), x)
    | none => .error (.noNumber binding)

/-- The result of an expression for bindings of its variables. -/
def runEvaluate (expression : String) (bindings : List String) :
    Except (Stop CommandFailure) Json := do
  let values ← orFail (bindings.mapM readBinding)
  let declared ← orFail (orFault (Formula.extractVariables expression))
  let formula : Formula.Definition := { expression, declared, unit := "" }
  let result ← orStop (formula.evaluate (NameMap.ofList values) none)
  return result.toJson

/-! ## §4. Estimates. -/

/-- The texts behind the paths of a calculation, absent where they cannot be read. -/
structure Sources where
  /-- The text of the settings. -/
  settings : Option String
  /-- The text of the request. -/
  request : Option String

/-- The settings in a file, or the usual ones without a file. -/
def readSettings (path : Option String) (text : Option String) :
    Except CommandFailure Settings :=
  match path, text with
  | none, _ => .ok {}
  | some path, none => .error (.unreadableFile path)
  | some path, some text =>
    match Settings.ofText text with
    | .ok s => .ok s
    | .error _ => .error (.invalidSettings path)

/-- The request in a file. -/
def readRequest (path : String) (text : Option String) : Except CommandFailure Request :=
  match text with
  | none => .error (.unreadableFile path)
  | some text =>
    match (Json.read? text).bind Request.ofJson? with
    | some r => .ok r
    | none => .error .invalidRequest

/-- The estimate that a request asks for. -/
def runCalculate (catalog : Catalog) (request : String) (settings : Option String)
    (sources : Sources) : Except (Stop CommandFailure) Json := do
  let s ← orFail (readSettings settings sources.settings)
  let r ← orFail (readRequest request sources.request)
  let input ← orFail (orFault (r.toInput catalog))
  let estimate ← orStop (input.estimate s)
  return estimate.toJson

/-! ## §5. Commands. -/

/-- Runs a command over a catalog. -/
def Command.run (catalog : Catalog) (sources : Sources) : Command → Except Abort Outcome
  | .list group => .ok (.ofExcept (runList catalog group))
  | .display key => .ok (.ofExcept (runDisplay catalog key))
  | .calculate request settings => Outcome.ofRun (runCalculate catalog request settings sources)
  | .evaluate expression bindings => Outcome.ofRun (runEvaluate expression bindings)
  | .check => .ok (runCheck catalog)
  | .help _ => .ok ⟨none, none⟩

end ShapeEstimator.CommandLine
