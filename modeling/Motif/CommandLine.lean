import Motif.CommandLine.Arguments
import Motif.Document
import Motif.Report

/-!
# The command line program

`CommandLine.run` says what the program writes and with which status it ends, given its arguments
and the files it may read. A pattern is loaded and compiled first, then the data are read, then
every datum is matched, and only then is anything written; so a fault on the way leaves the output
untouched.
-/

namespace Motif.CommandLine

/-- What keeps a command from its end. -/
inductive Fault where
  | document (e : DocumentError)
  | literal (e : LiteralError)
  | file (e : FileError)
  | unwritable (e : Json.WriteError)
  | interrupted (e : Interrupt)
  /-- A path was left without a value. -/
  | noPath
  /-- The ceiling on nested references was left without a value, and a reference is to be opened. -/
  | noCeiling

/-- The text that the program reports a fault with. Of some faults it does not: they lie in its
own use of what it read and end it at once. -/
def Fault.message? : Fault → Option Text
  | .document e => if e.ofDocument then some (Text.ofString e.message) else none
  | .literal e => some e.message
  | .file e => if e.ofFiles then some (Text.ofString e.message) else none
  | .unwritable _ | .interrupted _ | .noPath | .noCeiling => none

/-- A command under way: it logs lines, and may be kept from its end by a fault. -/
abbrev Work (α : Type) := ExceptT Fault (StateM (List String)) α

/-- Adds a line to the log. -/
def log (source text : String) : Work Unit :=
  modify fun lines => lines ++ ["DEBUG structmatch.engine." ++ source ++ ": " ++ text]

/-- The value of a step, or a fault made from its error. -/
def attempt {ε α : Type} (fault : ε → Fault) : Except ε α → Work α
  | .ok a => pure a
  | .error e => throw (fault e)

/-- The path that a setting holds. -/
def requirePath : Option Text → Work Text
  | some path => pure path
  | none => throw .noPath

/-- The compiled pattern in a file. -/
def loadMatcher (files : Files) (path : Text) : Work Matcher := do
  let literal ← attempt .document (Document.loadPattern files path)
  let matcher ← attempt .literal literal.compile
  log "compiler"
    ("compiled " ++ literal.literalKind.name ++ " pattern into " ++ matcher.typeName)
  return matcher

/-- Limits of a run under a ceiling. Without one there is room for no reference. -/
def limitsUnder : Option Int → Limits
  | some maxDepth => { maxDepth }
  | none => { maxDepth := 1, stack := some 0 }

/-- Matches one datum and logs how that went. -/
def matchLogged (ceiling : Option Int) (matcher : Matcher) (datum : Value) : Work Outcome := do
  let start : Except Interrupt (Verdict Success) :=
    matcher.start (limitsUnder ceiling) datum Success.keep
  match start with
  | .ok verdict =>
    let outcome := Outcome.ofVerdict verdict
    log "driver" (match outcome with
      | .success _ => "match succeeded with MatchResult"
      | .failure f => "match failed: " ++ f.top.describe)
    return outcome
  | .error interrupt =>
    if ceiling.isNone && interrupt == .stackExhausted then throw .noCeiling
    match interrupt.failure? matcher datum with
    | some f =>
      log "driver"
        ("match abandoned: interpreter recursion limit reached in " ++ matcher.text)
      return .failure f
    | none => throw (.interrupted interrupt)

/-- Text of a report: one block for each outcome, numbered if there are several. -/
def reportText (outcomes : List Outcome) : Text :=
  let numbered := 1 < outcomes.length
  let blocks := outcomes.zipIdx.map fun (outcome, i) =>
    if numbered then Text.ofString ("[" ++ toString i ++ "] ") ++ outcome.explain
    else outcome.explain
  Text.separated "\n" blocks ++ [.char '\n']

/-- A report as a dictionary. -/
def reportDict (outcomes : List Outcome) : Value :=
  .ofTable [("results", .list (outcomes.map Outcome.toDict))]

/-- Writes a report in a format. -/
def writeReport (files : Files) (format : Format) (out : Text) (outcomes : List Outcome) :
    Work Output :=
  match format with
  | .text => attempt .file (Output.ofText files (reportText outcomes) out)
  | .json =>
    attempt
      (fun
        | .file e => .file e
        | .value e => .unwritable e)
      (Document.ofValue files (reportDict outcomes) out)

/-- Status of a report: 0 if every datum matched and 1 otherwise. -/
def reportStatus (outcomes : List Outcome) : Nat := if outcomes.all Outcome.matched then 0 else 1

/-- Carries a command out. -/
def perform (files : Files) : Command → Work (Nat × Output)
  | .report pattern data format maxDepth out => do
    let matcher ← loadMatcher files (← requirePath pattern)
    let inputs ← attempt .document (Document.readInputs files (← requirePath data))
    let outcomes ← inputs.mapM (matchLogged maxDepth matcher)
    return (reportStatus outcomes, ← writeReport files format (← requirePath out) outcomes)
  | .dump pattern => do
    let matcher ← loadMatcher files (← requirePath pattern)
    return (0, { stdout := Output.endLine matcher.text })

/-- How the program ends. -/
inductive Ending where
  /-- With a status of its own. -/
  | finished (status : Nat) (output : Output) (stderr : Text)
  /-- While it read its arguments. -/
  | stopped (reason : Stop)
  /-- By a fault that it does not report. -/
  | broken (fault : Fault)

/-- Lines of text, each with a line break after it. -/
def unlines (lines : List Text) : Text := lines.flatMap (· ++ [.char '\n'])

/-- Runs the program. -/
def run (files : Files) (args : List Text) : Ending :=
  match readArguments args with
  | .error reason => .stopped reason
  | .ok request =>
    let (result, lines) := Id.run ((perform files request.command).run.run [])
    let logged := if request.verbose then lines.map Text.ofString else []
    match result with
    | .ok (status, output) => .finished status output (unlines logged)
    | .error fault =>
      match fault.message? with
      | some message =>
        .finished 2 {} (unlines (logged ++ [Text.ofString "structmatch: " ++ message]))
      | none => .broken fault

/-- What the program prints for its version. -/
def versionText : String := "structmatch 0.1\n"

/-- Status of a program stopped by its arguments, and what it prints then. -/
def Stop.answer : Stop → Nat × String
  | .refused _ => (2, "")
  | .helpShown => (0, "")
  | .versionShown => (0, versionText)

end Motif.CommandLine
