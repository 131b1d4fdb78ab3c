import Motif.CommandLine

/-!
# The program

Reads the files that the arguments name, runs `CommandLine.run` on them, and writes what it says.
-/

namespace Motif

namespace CommandLine

/-- Paths that a command reads. -/
def Command.reads : Command → List Text
  | .report pattern data .. => pattern.toList ++ data.toList
  | .dump pattern => pattern.toList

end CommandLine

/-- The file error that a failed operation on a path stands for. -/
def FileError.ofFailed (path : Text) : IO.Error → FileError
  | .inappropriateType _ 20 _ => .notAFolder path
  | .inappropriateType .. => .isAFolder path
  | .invalidArgument _ 36 _ => .nameTooLong path
  | _ => .notFound path

/-- Does an operation on a path, or says why it failed. -/
def onPath {α : Type} (path : Text) (operation : IO α) : IO (Except FileError α) := do
  try
    return .ok (← operation)
  catch e =>
    return .error (FileError.ofFailed path e)

/-- The files at some paths. Whether a path can be written shows only when it is. -/
def readFiles (paths : List Text) : IO Files := do
  let texts ← paths.mapM fun path => return (path, ← onPath path (IO.FS.readFile path.shown))
  return {
    read := fun path => (texts.lookup path).getD (.error (.notFound path))
    writable := fun _ => .ok () }

/-- Writes what the program says and gives its status. -/
def deliver (status : Nat) (output : Output) : IO UInt32 := do
  IO.print output.stdout.shown
  for (path, text) in output.written do
    if let .error e ← onPath path (IO.FS.writeFile path.shown text) then
      IO.eprintln ("structmatch: " ++ e.message)
      return 2
  return status.toUInt32

/-- Ends the program. -/
def CommandLine.Ending.carryOut : CommandLine.Ending → IO UInt32
  | .finished status output stderr => do
    IO.eprint stderr.shown
    deliver status output
  | .stopped reason => do
    if let .refused complaint := reason then
      let complaint := complaint.getD "cannot make sense of the arguments"
      IO.eprintln ("structmatch: error: " ++ complaint.shown)
    let (status, text) := reason.answer
    deliver status { stdout := text }
  | .broken _ => do
    IO.eprintln "structmatch: cannot go on"
    return 1

end Motif

/-- The command line program. -/
def main (args : List String) : IO UInt32 := do
  let args := args.map Motif.Text.ofString
  let paths := match Motif.CommandLine.readArguments args with
    | .ok request => request.command.reads
    | .error _ => []
  (Motif.CommandLine.run (← Motif.readFiles paths) args).carryOut
