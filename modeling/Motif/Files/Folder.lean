import Motif.Files

/-!
# Folders

The simplest source of files is a folder of texts by name, with no folders inside. A path is walked
part by part, from the folder itself or from the root; each part is looked for in the folder that
the parts before it lead to. Of what lies outside little is known: the folder stands in the one for
temporary files, and there is the null device.
-/

namespace Motif

/-- Files by name. -/
abbrev Folder := Table String

/-- What a path leads to. -/
inductive Place where
  /-- The folder itself. -/
  | home
  /-- The folder for temporary files, in which the folder stands. -/
  | above
  | root
  | devices
  /-- The device that is always empty and takes every text. -/
  | nullDevice
  /-- A file in the folder. -/
  | file (name : Text)
  /-- Nothing yet, but a file of this name can be made in the folder. -/
  | free (name : Text)
  /-- Nothing yet, but a file can be made there, outside. -/
  | vacant

namespace Place

/-- Whether a place is a folder. -/
def isFolder : Place → Bool
  | .home | .above | .root | .devices => true
  | .nullDevice | .file _ | .free _ | .vacant => false

/-- Whether anything is at a place. -/
def isTaken : Place → Bool
  | .free _ | .vacant => false
  | _ => true

end Place

namespace Folder

/-! ### Paths -/

/-- How many bytes a name may have. -/
def maxName : Nat := 255

/-- How many bytes a path may have. -/
def maxPath : Nat := 4095

/-- The parts of a path. Slashes that follow one another count once. -/
def parts (path : Text) : List Text := (Text.divide (.char '/') path).filter (!·.isEmpty)

/-- Where a path starts. -/
def start (path : Text) : Place := if path.head? = some (.char '/') then .root else .home

/-- Whether a path ends with a slash. -/
def endsOpen (path : Text) : Bool := path.getLast? == some (.char '/')

/-- Whether a surrogate may stand in a path. Some do, each for one byte that is no character. -/
def isByte (c : CodePoint) : Bool := 0xdc80 ≤ c.number && c.number ≤ 0xdcff

/-- How many bytes a text takes in a path. -/
def byteCount (t : Text) : Nat :=
  t.foldl (fun count c => count + match c with
    | .char c => c.utf8Size
    | .surrogate _ => 1) 0

/-- The part that stays in a folder. -/
def here : Text := "."

/-- The part that leads out of a folder. -/
def out : Text := ".."

/-- What a part of a path leads to from a place that is a folder. -/
def step (folder : Folder) (place : Place) (part : Text) : Place :=
  if part = here then place
  else if part = out then
    match place with
    | .home => .above
    | _ => .root
  else
    match place with
    | .home => if folder.names.contains part then .file part else .free part
    | .root => if part = "tmp" then .above else if part = "dev" then .devices else .vacant
    | .devices => if part = "null" then .nullDevice else .vacant
    | _ => .vacant

/-- What parts of a path lead to from a place. Only a folder has parts. -/
def walk (folder : Folder) (path : Text) : Place → List Text → Except FileError Place
  | place, [] => .ok place
  | place, part :: parts =>
    if !place.isTaken then .error (.notFound path)
    else if !place.isFolder then .error (.notAFolder path)
    else if maxName < byteCount part then .error (.nameTooLong path)
    else walk folder path (folder.step place part) parts

/-- Refuses a text that is no path. -/
def checkPath (path : Text) : Except FileError Unit :=
  match path.stray? isByte with
  | some s => .error (.surrogates s)
  | none =>
    if path.contains (.char '\x00') then .error .nullCharacter
    else if path.isEmpty then .error (.notFound path)
    else if maxPath < byteCount path then .error (.nameTooLong path)
    else .ok ()

/-- What a path leads to. A slash at its end leads to a folder or nowhere. -/
def locate (folder : Folder) (path : Text) : Except FileError Place := do
  checkPath path
  folder.walk path (start path) (parts path ++ if endsOpen path then [here] else [])

/-- What a path leads to that is to be written. A slash at its end makes it a folder, whatever its
last part stands for. -/
def locateTarget (folder : Folder) (path : Text) : Except FileError Place := do
  checkPath path
  let parts := if endsOpen path then (parts path).dropLast ++ [here] else parts path
  let place ← folder.walk path (start path) parts
  if place.isFolder then throw (.isAFolder path) else return place

/-! ### Files -/

/-- The text of the file at a path. -/
def read (folder : Folder) (path : Text) : Except FileError String := do
  match ← folder.locate path with
  | .file name => return (folder.lookup name).getD ""
  | .nullDevice => return ""
  | .free _ | .vacant => throw (.notFound path)
  | .home | .above | .root | .devices => throw (.isAFolder path)

/-- The folder after a text is written to a path. What is written outside is not seen. -/
def write (folder : Folder) (path : Text) (text : String) : Except FileError Folder := do
  match ← folder.locateTarget path with
  | .file name | .free name => return folder.insert name text
  | _ => return folder

/-- The folder after texts are written to paths, one after the other. -/
def writeAll (folder : Folder) (texts : Table String) : Except FileError Folder :=
  texts.foldlM (fun folder (path, text) => folder.write path text) folder

/-- A folder as files. -/
def files (folder : Folder) : Files where
  read := folder.read
  writable path := discard (folder.locateTarget path)

end Folder

end Motif
