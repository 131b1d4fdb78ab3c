import Motif.Table
import Motif.Text.Stray

/-!
# Files

What a program may read and where it may write, as `Files`: a text or an error for each path.
-/

namespace Motif

/-- Why a path cannot be opened. -/
inductive FileError where
  | notFound (path : Text)
  | notAFolder (path : Text)
  | isAFolder (path : Text)
  | nameTooLong (path : Text)
  /-- A null character stands in the path, which is then no path at all. -/
  | nullCharacter
  /-- Surrogates stand in the path or in what is to be written to it. -/
  | surrogates (s : Text.Stray)

namespace FileError

/-- Wording of a file error. -/
def message : FileError → String
  | .notFound path => "[Errno 2] No such file or directory: " ++ Text.quoted path
  | .notAFolder path => "[Errno 20] Not a directory: " ++ Text.quoted path
  | .isAFolder path => "[Errno 21] Is a directory: " ++ Text.quoted path
  | .nameTooLong path => "[Errno 36] File name too long: " ++ Text.quoted path
  | .nullCharacter => "embedded null byte"
  | .surrogates s => s.message

/-- Whether an error says something about the files, and not about the program that asks. -/
def ofFiles : FileError → Bool
  | .notFound _ | .notAFolder _ | .isAFolder _ | .nameTooLong _ => true
  | .nullCharacter | .surrogates _ => false

end FileError

/-- The files around a program. -/
structure Files where
  /-- The text of the file at a path. -/
  read : Text → Except FileError String
  /-- Whether a file can be written at a path. -/
  writable : Text → Except FileError Unit

/-- What a program writes: text on the standard output, and strings to paths. -/
structure Output where
  stdout : Text := []
  written : Table String := []
  deriving Inhabited

namespace Output

/-- The path that stands for the standard output. -/
def stdoutPath : Text := "-"

/-- Text with a line break at the end. -/
def endLine (text : Text) : Text :=
  if text.getLast? = some (.char '\n') then text else text ++ [.char '\n']

/-- Writes text to a path. On the standard output it ends with a line break in any case. A file is
opened before the text is looked at. -/
def ofText (files : Files) (text path : Text) : Except FileError Output := do
  if path = stdoutPath then return { stdout := endLine text }
  else
    files.writable path
    match text.encode with
    | .ok s => return { written := [(path, s)] }
    | .error s => throw (.surrogates s)

end Output

end Motif
