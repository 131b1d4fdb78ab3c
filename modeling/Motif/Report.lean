import Motif.Outcome
import Motif.Value.Text

/-!
# Reports on outcomes

An outcome is explained either as a dictionary of plain values, which can be written as JSON, or as
a text of a few lines.
-/

namespace Motif

mutual

/-- A value in terms of those that JSON knows: keys become text, tuples lists, and what has no
counterpart is replaced by its text. -/
def Value.plain : Value → Value
  | .seq _ items => .list (plainItems items)
  | .dict entries => Value.ofEntries (plainEntries entries)
  | .rest => .str (Value.rest).text
  | .form f => .str (Value.form f).text
  | .matcher m => .str m.text
  | v => v

/-- Plain items in order. -/
def plainItems : List Value → List Value
  | [] => []
  | v :: vs => v.plain :: plainItems vs

/-- Plain entries in order. -/
def plainEntries : List (Value × Value) → List (Value × Value)
  | [] => []
  | (.str key, v) :: entries => (.str key, v.plain) :: plainEntries entries
  | (key, v) :: entries => (.str key.text, v.plain) :: plainEntries entries

end

/-- A dictionary with textual keys. -/
def Value.ofTable (t : Table Value) : Value := .dict (t.map fun (name, v) => (.str name, v))

/-- Text of an environment: its data. -/
def Environment.text (env : Environment) : String :=
  "Environment(" ++ (Value.ofTable env.bindings).text ++ ")"

namespace Failure

/-- One line on an entry. -/
def Entry.describe (e : Entry) : String :=
  e.matcher.name ++ ": " ++ e.reason.name ++ " at " ++ toString e.offset
    ++ " (" ++ e.fragment.text ++ ")"

/-- An entry as a dictionary. -/
def Entry.toDict (e : Entry) : Value :=
  .ofTable [
    ("matcher", .str e.matcher.name),
    ("reason", .str e.reason.name),
    ("offset", .int e.offset),
    ("fragment", e.fragment.plain)]

/-- A failure as a dictionary. -/
def toDict (f : Failure) : Value :=
  .ofTable [
    ("matched", .bool false),
    ("chain", .list (f.chain.map Entry.toDict)),
    ("root", f.root.toDict)]

/-- Lines of a chain, each indented two places more than the one before. -/
def chainLines : (indent : Nat) → List Entry → List String
  | _, [] => []
  | indent, e :: entries =>
    (String.ofList (List.replicate indent ' ') ++ e.describe) :: chainLines (indent + 2) entries

/-- A failure as text. -/
def explain (f : Failure) : String :=
  "\n".intercalate
    (("NO MATCH: " ++ f.root.reason.name ++ " in " ++ f.root.matcher.name ++ " at offset "
        ++ toString f.root.offset)
      :: "CHAIN:" :: chainLines 2 f.chain)

end Failure

namespace Success

/-- A success as a dictionary. -/
def toDict (s : Success) : Value :=
  .ofTable [
    ("matched", .bool true),
    ("consumed", .int s.consumed),
    ("bindings", (Value.ofTable s.environment.bindings).plain)]

/-- A line on a binding. -/
def bindingLine (name : Text) (v : Value) : Text :=
  Text.ofString "  " ++ name ++ Text.ofString (" = " ++ v.text)

/-- A success as text. -/
def explain (s : Success) : Text :=
  Text.separated "\n"
    (Text.ofString ("MATCH: consumed " ++ toString s.consumed ++ ", "
        ++ toString s.environment.bindings.length ++ " binding(s)")
      :: s.environment.bindings.map fun (name, v) => bindingLine name v)

end Success

namespace Outcome

/-- An outcome as a dictionary. -/
def toDict : Outcome → Value
  | .success s => s.toDict
  | .failure f => f.toDict

/-- An outcome as text. -/
def explain : Outcome → Text
  | .success s => s.explain
  | .failure f => f.explain

end Outcome

end Motif
