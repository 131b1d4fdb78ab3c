import Motif.Files
import Motif.Json.Reader
import Motif.Json.Writer
import Motif.Notation
import Motif.Text.Blank

/-!
# Documents in files

Patterns and data are read from JSON files. A file whose name ends in `.jsonl` holds one document
a line, and any other file one document in all. In every file the three kinds of line break count
the same.
-/

namespace Motif

/-- Why a document cannot be read. -/
inductive DocumentError where
  | file (e : FileError)
  /-- The text cannot be read as JSON. -/
  | json (e : Json.ReadError)
  /-- The document stands for no pattern. -/
  | pattern (e : Notation.Error)

/-- Wording of an error in reading JSON. What is wrong with a malformed text is not said. -/
def Json.ReadError.message : Json.ReadError → String
  | .malformed => "<JSON error>"
  | .tooManyDigits count =>
    "Exceeds the limit (" ++ toString Text.maxDigits ++
      " digits) for integer string conversion: value has " ++ toString count ++
      " digits; use sys.set_int_max_str_digits() to increase the limit"

/-- Wording of a document error. -/
def DocumentError.message : DocumentError → String
  | .file e => e.message
  | .json e => e.message
  | .pattern e => e.message

/-- Whether a document error lies in the files or in what they hold, and not in the program's own
use of it. -/
def DocumentError.ofDocument : DocumentError → Bool
  | .file e => e.ofFiles
  | .json e => e = .malformed
  | .pattern e => e.ofPattern

namespace Document

/-! ### Lines -/

/-- Text in which every line break is a line feed. -/
def plainBreaks : List Char → List Char
  | '\r' :: '\n' :: cs => '\n' :: plainBreaks cs
  | '\r' :: cs => '\n' :: plainBreaks cs
  | c :: cs => c :: plainBreaks cs
  | [] => []

/-- The lines of a text, divided at line feeds. -/
def lines (text : List Char) : List (List Char) := Text.divide '\n' text

/-- The lines that hold more than white space, without the white space around them. -/
def records (text : List Char) : List (List Char) :=
  ((lines text).map Text.strip).filter (!·.isEmpty)

/-! ### Names -/

/-- The last part of a path. -/
def baseName (path : Text) : Text := (path.reverse.takeWhile (· != .char '/')).reverse

/-- The ending of a file name: its last dot and what follows. Dots at the start of a name begin no
ending. -/
def ending (path : Text) : Text :=
  let name := (baseName path).dropWhile (· == .char '.')
  if name.contains (.char '.') then
    .char '.' :: (name.reverse.takeWhile (· != .char '.')).reverse
  else []

/-- Whether a file of this name holds one document a line. -/
def holdsLines (path : Text) : Bool :=
  ((ending path).chars?.getD []).map Char.toLower == ".jsonl".toList

/-! ### Reading and writing -/

/-- Decodes a document. -/
def decode (text : List Char) : Except DocumentError Value :=
  match Json.decode text with
  | .ok v => .ok v
  | .error e => .error (.json e)

/-- The documents in a text, one a line or one in all. -/
def decodeAll (byLine : Bool) (text : List Char) : Except DocumentError (List Value) :=
  if byLine then (records text).mapM decode else do return [← decode text]

/-- The text of a file with plain line breaks. -/
def load (files : Files) (path : Text) : Except DocumentError (List Char) :=
  match files.read path with
  | .ok text => .ok (plainBreaks text.toList)
  | .error e => .error (.file e)

/-- The documents that a file holds. -/
def readInputs (files : Files) (path : Text) : Except DocumentError (List Value) := do
  decodeAll (holdsLines path) (← load files path)

/-- The pattern literal that a file holds. -/
def loadPattern (files : Files) (path : Text) : Except DocumentError Value := do
  let node ← decode (← load files path)
  match Notation.translate node with
  | .ok literal => return literal
  | .error e => throw (.pattern e)

/-- Why a document cannot be written. -/
inductive WriteError where
  | file (e : FileError)
  | value (e : Json.WriteError)

/-- Text of a document, with a line break at the end. -/
def text (v : Value) : Except WriteError String :=
  match Json.render v with
  | .ok text => .ok (text ++ "\n")
  | .error e => .error (.value e)

/-- Writes a value as a JSON document. A path is opened before the value is looked at. -/
def ofValue (files : Files) (v : Value) (path : Text) : Except WriteError Output := do
  if path = Output.stdoutPath then
    return { stdout := ← text v }
  else
    match files.writable path with
    | .error e => throw (.file e)
    | .ok () => return { written := [(path, ← text v)] }

end Document

end Motif
