import Motif.Text.Quoted
import Motif.Value.Equality
import Motif.Value.Text

/-!
# Writing JSON

`Json.render` writes a value over several lines, two places deeper for each level, in ASCII alone.
Tuples are written as lists. The entries of a dictionary are sorted by their keys as they are, and
only then are the keys turned into text; so keys of types that have no common order cannot be
written, and the first two of them to be compared are named.
-/

namespace Motif.Json

/-- Why a value has no JSON text. -/
inductive WriteError where
  /-- Two keys of these types have no order. -/
  | unordered (left right : String)
  /-- A key of this type has no text. -/
  | unwritableKey (type : String)
  /-- A value of this type has no text. -/
  | unwritable (type : String)

/-- Wording of a write error. -/
def WriteError.message : WriteError → String
  | .unordered left right =>
    "'<' not supported between instances of " ++ Text.quoted left ++ " and " ++ Text.quoted right
  | .unwritableKey type => "keys must be str, int, float, bool or None, not " ++ type
  | .unwritable type => "Object of type " ++ type ++ " is not JSON serializable"

/-- Name of a value's type. -/
def typeName : Value → String
  | .null => "NoneType"
  | .bool _ => "bool"
  | .int _ => "int"
  | .float _ => "float"
  | .str _ => "str"
  | .seq .list _ => "list"
  | .seq .tuple _ => "tuple"
  | .dict _ => "dict"
  | .rest => "ellipsis"
  | .form _ => "Form"
  | .matcher m => m.typeName

/-! ### Order of keys -/

mutual

/-- Whether one key comes before another. Numbers are ordered among themselves, and so are texts
and sequences of one shape. -/
def before : Value → Value → Except WriteError Bool
  | .str s, .str t => .ok (s < t)
  | .seq shape items, .seq shape' items' =>
    if shape = shape' then itemsBefore items items'
    else .error (.unordered (typeName (.seq shape items)) (typeName (.seq shape' items')))
  | v, w =>
    match v.quantity?, w.quantity? with
    | some p, some q => .ok (p.less q)
    | _, _ => .error (.unordered (typeName v) (typeName w))

/-- Order of sequences: that of the first items that differ, or else of the lengths. -/
def itemsBefore : List Value → List Value → Except WriteError Bool
  | [], [] => .ok false
  | [], _ :: _ => .ok true
  | _ :: _, [] => .ok false
  | v :: vs, w :: ws => if v.alike w then itemsBefore vs ws else before v w

end

variable {α : Type}

/-- Splits off the longest start of the entries in which each comes before the one in front of it,
or, where `descending` does not hold, in which none does. -/
def takeRun (descending : Bool) (last : Value × α) :
    List (Value × α) → Except WriteError (List (Value × α) × List (Value × α))
  | [] => .ok ([], [])
  | e :: entries => do
    if (← before e.1 last.1) = descending then
      let (run, rest) ← takeRun descending e entries
      return (e :: run, rest)
    else return ([], e :: entries)

/-- Place of a key among sorted entries between `low` and `high`, found by halving. -/
def place (key : Value) (sorted : List (Value × α)) :
    (steps low high : Nat) → Except WriteError Nat
  | 0, low, _ => .ok low
  | steps + 1, low, high =>
    if low < high then do
      let middle := (low + high) / 2
      match sorted[middle]? with
      | none => return low
      | some other =>
        if ← before key other.1 then place key sorted steps low middle
        else place key sorted steps (middle + 1) high
    else .ok low

/-- Inserts entries one by one at their places among sorted ones. -/
def insertSorted : (sorted entries : List (Value × α)) → Except WriteError (List (Value × α))
  | sorted, [] => .ok sorted
  | sorted, e :: entries => do
    let i ← place e.1 sorted (sorted.length + 1) 0 sorted.length
    insertSorted (sorted.take i ++ e :: sorted.drop i) entries

/-- Entries in the order of their keys: the run that the entries start with is kept or reversed,
and the rest are inserted into it. -/
def sortEntries : List (Value × α) → Except WriteError (List (Value × α))
  | first :: second :: entries => do
    let descending ← before second.1 first.1
    let (run, rest) ← takeRun descending second entries
    let run := first :: second :: run
    insertSorted (if descending then run.reverse else run) rest
  | entries => .ok entries

/-! ### Text -/

/-- A code unit as an escape of four hexadecimal digits. -/
def unitEscape (unit : Nat) : List Char := '\\' :: 'u' :: Text.hexadecimal 4 unit

/-- A code point by its number. Beyond the first plane it takes a surrogate pair. -/
def numberEscape (n : Nat) : List Char :=
  if n < 0x10000 then unitEscape n
  else unitEscape (0xd800 + (n - 0x10000) / 0x400) ++ unitEscape (0xdc00 + (n - 0x10000) % 0x400)

/-- A code point inside a string. -/
def escape : CodePoint → List Char
  | .char c =>
    if c = '\"' ∨ c = '\\' then ['\\', c]
    else if c = '\n' then ['\\', 'n']
    else if c = '\r' then ['\\', 'r']
    else if c = '\t' then ['\\', 't']
    else if c = '\x0c' then ['\\', 'f']
    else if c = '\x08' then ['\\', 'b']
    else if ' ' ≤ c ∧ c ≤ '~' then [c]
    else numberEscape c.toNat
  | .surrogate index => numberEscape (CodePoint.surrogate index).number

/-- A string between quotes. -/
def stringText (t : Text) : String := String.ofList ('\"' :: t.flatMap escape ++ ['\"'])

/-- A binary number; what is not finite is written as a word. -/
def numberText : Binary64 → String
  | .nan => "NaN"
  | .infinity negative => if negative then "-Infinity" else "Infinity"
  | x => x.text

/-- Text of a key. -/
def keyText : Value → Except WriteError Text
  | .null => .ok "null"
  | .bool b => .ok (if b then "true" else "false")
  | .int n => .ok (toString n)
  | .float x => .ok (numberText x)
  | .str s => .ok s
  | v => .error (.unwritableKey (typeName v))

/-- A line break and the indentation of a level. -/
def newLine (level : Nat) : String := "\n" ++ String.ofList (List.replicate (2 * level) ' ')

/-- Texts between brackets, each on a line of its own one level deeper. -/
def block (opening closing : String) (level : Nat) (texts : List String) : String :=
  if texts.isEmpty then opening ++ closing
  else
    opening ++ newLine (level + 1) ++ (("," ++ newLine (level + 1)).intercalate texts)
      ++ newLine level ++ closing

mutual

/-- Text of a value at a level. -/
def write : Value → Nat → Except WriteError String
  | .null, _ => .ok "null"
  | .bool b, _ => .ok (if b then "true" else "false")
  | .int n, _ => .ok (toString n)
  | .float x, _ => .ok (numberText x)
  | .str s, _ => .ok (stringText s)
  | .seq _ items, level => do return block "[" "]" level (← writeItems items (level + 1))
  | .dict entries, level => do
    let texts ← (← sortEntries (memberWriters entries)).mapM fun (key, writer) => do
      let name ← keyText key
      return stringText name ++ ": " ++ (← writer (level + 1))
    return block "\x7b" "\x7d" level texts
  | v, _ => .error (.unwritable (typeName v))

/-- Texts of items in order. -/
def writeItems : List Value → Nat → Except WriteError (List String)
  | [], _ => .ok []
  | v :: vs, level => do
    let text ← write v level
    return text :: (← writeItems vs level)

/-- The keys of a dictionary with the writers of their values. -/
def memberWriters : List (Value × Value) → List (Value × (Nat → Except WriteError String))
  | [] => []
  | (key, v) :: entries => (key, write v) :: memberWriters entries

end

/-- Text of a value as a document. -/
def render (v : Value) : Except WriteError String := write v 0

end Motif.Json
