import Motif.Text.Integer
import Motif.Environment

/-!
# Command line arguments

The arguments are flags of the program, then a command, then flags of the command. A long flag may
be shortened as far as it stays the only one with that start, and its value may follow after an
equals sign; short flags may be run together. What looks like a flag is never taken for a value,
except a negative number or a text with a space in it. A value that is attached to its flag may be
any text, but `--` there means that the flag is left without one.
-/

namespace Motif.CommandLine

/-- What flags stand for. -/
inductive Flag where
  | help
  | version
  | verbose
  | pattern
  | data
  | format
  | maxDepth
  | out
  deriving DecidableEq

/-- Whether a flag is followed by a value. -/
def Flag.takesValue : Flag → Bool
  | .help | .version | .verbose => false
  | .pattern | .data | .format | .maxDepth | .out => true

/-- The spellings of flags. -/
abbrev Flags := List (Text × Flag)

/-- Flags of the program. -/
def programFlags : Flags := [
  ("-h", .help), ("--help", .help), ("-V", .version), ("--version", .version),
  ("-v", .verbose), ("--verbose", .verbose)]

/-- Name of the command that matches. -/
def matchName : Text := "match"

/-- Name of the command that shows a compiled pattern. -/
def dumpName : Text := "dump"

/-- Flags of the command that matches. -/
def matchFlags : Flags := [
  ("-h", .help), ("--help", .help), ("--pattern", .pattern), ("--data", .data),
  ("--format", .format), ("--max-depth", .maxDepth), ("--out", .out)]

/-- Flags of the command that shows a compiled pattern. -/
def dumpFlags : Flags := [("-h", .help), ("--help", .help), ("--pattern", .pattern)]

/-- What ends the reading of arguments early. -/
inductive Stop where
  /-- The arguments are refused, some with a complaint of the program's own. -/
  | refused (complaint : Option Text)
  | helpShown
  | versionShown

/-! ### Single arguments -/

/-- What an argument is taken for. -/
inductive Reading where
  | plain
  | flag (spelling : Text) (flag : Flag) (attached : Option Text)
  | unknown
  | ambiguous

/-- The argument that is neither a flag nor a value. -/
def noValue : Text := "--"

/-- Whether a text starts with another. -/
def startsWith (text start : Text) : Bool := start.isPrefixOf text

/-- The text before the first equals sign, and the text after it if there is one. -/
def splitEquals (arg : Text) : Text × Option Text :=
  (arg.takeWhile (· != .char '='),
    if arg.contains (.char '=') then some ((arg.dropWhile (· != .char '=')).drop 1) else none)

/-- The flags that an argument may be short for, each with the text attached to it. -/
def shortFor (flags : Flags) (arg : Text) : List Reading :=
  if startsWith arg "--" then
    let (start, attached) := splitEquals arg
    flags.filterMap fun (spelling, f) =>
      if startsWith spelling start then some (.flag spelling f attached) else none
  else
    let letter := arg.take 2
    let attached := arg.drop 2
    flags.filterMap fun (spelling, f) =>
      if spelling = letter then some (.flag spelling f (some attached))
      else if startsWith spelling arg then some (.flag spelling f none)
      else none

/-- A text without the line break that it may end in. -/
def dropBreak (t : Text) : Text := if t.getLast? = some (.char '\n') then t.dropLast else t

/-- Whether a code point is a decimal digit. -/
def isDigit (c : CodePoint) : Bool := (c.char?.bind Text.digitValue?).isSome

/-- Whether a text is a number after its leading dash: digits, or digits with one point before the
last of them. One line break may follow. -/
def isNegativeNumber (arg : Text) : Bool :=
  let body := dropBreak (arg.drop 1)
  let whole := body.takeWhile isDigit
  match body.dropWhile isDigit with
  | [] => !whole.isEmpty
  | .char '.' :: fraction => !fraction.isEmpty && fraction.all isDigit
  | _ => false

/-- What an argument is taken for among some flags. -/
def readArgument (flags : Flags) (arg : Text) : Reading :=
  if !startsWith arg "-" then .plain
  else
    match flags.lookup arg with
    | some f => .flag arg f none
    | none =>
      if arg = "-" then .plain
      else
        let (spelling, attached) := splitEquals arg
        match flags.lookup spelling, shortFor flags arg with
        | some f, _ => .flag spelling f attached
        | none, [reading] => reading
        | none, _ :: _ => .ambiguous
        | none, [] =>
          if isNegativeNumber arg || arg.contains (.char ' ') then .plain else .unknown

/-- Refuses arguments some of which are short for several flags. What follows a bare `--` is not
looked at. -/
def checkAmbiguous (flags : Flags) (args : List Text) : Except Stop Unit :=
  if (args.takeWhile (· != noValue)).any fun arg =>
      match readArgument flags arg with
      | .ambiguous => true
      | _ => false
  then .error (.refused none)
  else .ok ()

/-- The value in a text attached to a flag. A bare `--` is no value. -/
def attachedValue (text : Text) : Option Text := if text = noValue then none else some text

/-- What an argument says whose flag has text attached: flags, some with values. The text is the
value of a flag that takes one; otherwise it goes on with the letters of short flags, and each of
them must be known. -/
def runTogether (flags : Flags) (spelling : Text) (f : Flag) :
    Text → Except Stop (List (Flag × Option Text))
  | [] => if f.takesValue then .ok [(f, some [])] else .error (.refused none)
  | c :: cs =>
    if f.takesValue then .ok [(f, attachedValue (c :: cs))]
    else if startsWith spelling "--" then .error (.refused none)
    else
      let next : Text := [.char '-', c]
      match flags.lookup next, cs with
      | none, _ => .error (.refused none)
      | some g, [] => if g.takesValue then .error (.refused none) else .ok [(f, none), (g, none)]
      | some g, c' :: cs' => do
        return (f, none) :: (← runTogether flags next g (c' :: cs'))

/-! ### Settings -/

/-- The forms of a report. -/
inductive Format where
  | text
  | json
  deriving DecidableEq, Inhabited

/-- What the flags have said so far. A path or a ceiling that was asked for without a value is
`none`. -/
structure Settings where
  verbose : Bool := false
  pattern : Option (Option Text) := none
  data : Option (Option Text) := none
  format : Format := .text
  maxDepth : Option Int := some Environment.defaultMaxDepth
  out : Option Text := some "-"
  /-- Whether there were arguments that nothing can be done with. -/
  surplus : Bool := false
  deriving Inhabited

/-- Reads a ceiling on nested references. -/
def readMaxDepth (value : Text) : Except Stop Int :=
  match Text.readInteger value with
  | none => .error (.refused none)
  | some n =>
    if n < 1 then
      .error (.refused
        (some (Text.ofString "argument --max-depth: expected a positive integer, got " ++ value)))
    else .ok n

/-- Reads the form of a report. -/
def readFormat (value : Text) : Except Stop Format :=
  if value = "text" then .ok .text
  else if value = "json" then .ok .json
  else .error (.refused none)

/-- Does what a flag with its value says. A form that is not named is text. -/
def Settings.apply (s : Settings) (f : Flag) (value : Option Text) : Except Stop Settings :=
  match f with
  | .help => .error .helpShown
  | .version => .error .versionShown
  | .verbose => .ok { s with verbose := true }
  | .pattern => .ok { s with pattern := some value }
  | .data => .ok { s with data := some value }
  | .format => do return { s with format := (← value.mapM readFormat).getD .text }
  | .maxDepth => do return { s with maxDepth := ← value.mapM readMaxDepth }
  | .out => .ok { s with out := value }

/-- Does what several flags say, in order. -/
def Settings.applyAll (s : Settings) (flags : List (Flag × Option Text)) :
    Except Stop Settings :=
  flags.foldlM (fun s (f, value) => s.apply f value) s

/-! ### All arguments -/

/-- Does what the flags among the arguments say, up to the first plain argument if `stopAtPlain`
holds; that argument and those after it are given back. -/
def readFlags (flags : Flags) (stopAtPlain : Bool) :
    Settings → List Text → Except Stop (Settings × List Text)
  | s, [] => .ok (s, [])
  | s, arg :: args =>
    if arg = noValue then
      if stopAtPlain then .ok (s, arg :: args)
      else .ok ({ s with surplus := true }, [])
    else
      match readArgument flags arg with
      | .plain =>
        if stopAtPlain then .ok (s, arg :: args)
        else readFlags flags stopAtPlain { s with surplus := true } args
      | .unknown | .ambiguous => readFlags flags stopAtPlain { s with surplus := true } args
      | .flag spelling f (some attached) => do
        let said ← runTogether flags spelling f attached
        readFlags flags stopAtPlain (← s.applyAll said) args
      | .flag _ f none =>
        if f.takesValue then
          match args with
          | [] => .error (.refused none)
          | value :: args =>
            match if value = noValue then .unknown else readArgument flags value with
            | .plain => do readFlags flags stopAtPlain (← s.apply f (some value)) args
            | _ => .error (.refused none)
        else do readFlags flags stopAtPlain (← s.apply f none) args

/-- What the program is asked to do. Paths and the ceiling may be left without a value. -/
inductive Command where
  /-- Match the documents of a file against a pattern and report on them. -/
  | report (pattern data : Option Text) (format : Format) (maxDepth : Option Int)
      (out : Option Text)
  /-- Show a compiled pattern. -/
  | dump (pattern : Option Text)

/-- A command and whether it is to log its steps. -/
structure Request where
  verbose : Bool
  command : Command

/-- The command that complete settings ask for. -/
def Settings.command? (s : Settings) (name : Text) : Option Command :=
  if name = matchName then do
    return .report (← s.pattern) (← s.data) s.format s.maxDepth s.out
  else if name = dumpName then do return .dump (← s.pattern)
  else none

/-- Reads all arguments. -/
def readArguments (args : List Text) : Except Stop Request := do
  checkAmbiguous programFlags args
  match ← readFlags programFlags true {} args with
  | (_, []) => throw (.refused none)
  | (s, name :: args) =>
    let flags ←
      if name = matchName then pure matchFlags
      else if name = dumpName then pure dumpFlags
      else throw (.refused none)
    checkAmbiguous flags args
    let (s, _) ← readFlags flags false s args
    match s.command? name with
    | some command => if s.surplus then throw (.refused none) else return ⟨s.verbose, command⟩
    | none => throw (.refused none)

end Motif.CommandLine
