import Motif.Environment

/-!
# Workspaces of environments

A workspace keeps the environments that came up in some work, each with the number of the rule table
that it uses. Operations that only read the rules share the table of their environment; those that
add rules, and fresh environments, have a table of their own, even where the rules are equal. An
operation that changes nothing gives back the environment it was asked of.
-/

namespace Motif

/-- The environments so far, each with the number of its rule table, and how many tables there
are. -/
structure Workspace where
  environments : List (Environment × Nat)
  tables : Nat
  deriving Inhabited

namespace Workspace

/-- Where the result of an operation stands. -/
inductive Place where
  | new (index : Nat)
  | same (index : Nat)

/-- Index of a place. -/
def Place.index : Place → Nat
  | .new i => i
  | .same i => i

/-- A workspace with one empty environment. -/
def start (maxDepth : Int) : Workspace := ⟨[(.empty maxDepth, 0)], 1⟩

/-- The environment at an index. -/
def environment? (w : Workspace) (index : Nat) : Option Environment :=
  (w.environments[index]?).map Prod.fst

/-- Adds an environment that uses a table in use. -/
def share (w : Workspace) (env : Environment) (table : Nat) : Workspace × Place :=
  ({ w with environments := w.environments ++ [(env, table)] }, .new w.environments.length)

/-- Adds an environment with a table of its own. -/
def own (w : Workspace) (env : Environment) : Workspace × Place :=
  ({ w with tables := w.tables + 1 }).share env w.tables

/-- Adds a fresh environment. -/
def create (w : Workspace) (maxDepth : Int) : Workspace × Place := w.own (.empty maxDepth)

/-- Binds a name in the environment at an index. -/
def extend (w : Workspace) (index : Nat) (name : Text) (value : Value) :
    Option (Workspace × Place) := do
  let (env, table) ← w.environments[index]?
  return w.share (env.extend name value) table

/-- Opens a reference in the environment at an index. -/
def descend (w : Workspace) (index : Nat) : Option (Workspace × Place) := do
  let (env, table) ← w.environments[index]?
  return w.share env.descend table

/-- Adds rules to the environment at an index. -/
def define (w : Workspace) (index : Nat) (rules : Table Matcher) : Option (Workspace × Place) := do
  let (env, _) ← w.environments[index]?
  return w.own (env.define rules)

/-- Puts the rules of one environment in scope in another, which is given back as it is if it uses
their table already. -/
def scopedTo (w : Workspace) (index outer : Nat) : Option (Workspace × Place) := do
  let (env, table) ← w.environments[index]?
  let (env', table') ← w.environments[outer]?
  if table = table' then return (w, .same index)
  else return w.share (env.scopedTo env') table'

/-- Adds what became of the environment at an index, unless it is the very same. -/
def follow (w : Workspace) (index : Nat) (result : Environment) : Option (Workspace × Place) := do
  let (env, table) ← w.environments[index]?
  if result.revision = env.revision then return (w, .same index)
  else return w.share result table

/-- Puts the depth of the environment at an index. -/
def atDepth (w : Workspace) (index : Nat) (depth : Int) : Option (Workspace × Place) := do
  w.follow index ((← w.environment? index).atDepth depth)

end Workspace

end Motif
