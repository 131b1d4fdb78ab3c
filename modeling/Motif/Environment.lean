import Motif.Table
import Motif.Value

/-!
# Environments

An environment holds what a search knows at one point: the data bound so far in binding order, the
rules in scope, how many references are open, and the ceiling on them. Environments are never
changed; every operation gives a new one, and `revision` counts the operations behind it. A search
that hands on the very environment it was given therefore hands on the same revision, and one that
comes back to an equal environment by way of a rule does not.
-/

namespace Motif

/-- What a search knows at one point. -/
structure Environment where
  bindings : Table Value
  rules : Table Matcher
  depth : Int
  maxDepth : Int
  revision : Nat
  deriving Inhabited

namespace Environment

/-- Stack frames that one reference takes in a typical search. -/
def framesPerReference : Int := 20

/-- Ceiling on nested references that suits a stack of `frames` frames: at least one. -/
def depthForStack (frames : Int) : Int := max 1 (frames.fdiv framesPerReference)

/-- The ceiling where none is asked for, which suits the usual stack of 1000 frames. -/
def defaultMaxDepth : Int := depthForStack 1000

/-- The environment in which nothing is known. -/
def empty (maxDepth : Int) : Environment := ⟨[], [], 0, maxDepth, 0⟩

/-- The value that `name` stands for: a datum bound to it, or else the rule of that name. -/
def get? (env : Environment) (name : Text) : Option Value :=
  match env.bindings.lookup name with
  | some v => some v
  | none => (env.rules.lookup name).map .matcher

/-- The matcher that `name` stands for, if it stands for a matcher at all. -/
def matcher? (env : Environment) (name : Text) : Option Matcher :=
  match env.get? name with
  | some (.matcher m) => some m
  | _ => none

/-- Binds `name` to a datum. -/
def extend (env : Environment) (name : Text) (value : Value) : Environment :=
  { env with bindings := env.bindings.insert name value, revision := env.revision + 1 }

/-- Adds rules to those in scope; a rule of the same name is replaced. -/
def define (env : Environment) (rules : Table Matcher) : Environment :=
  { env with rules := env.rules.insertAll rules, revision := env.revision + 1 }

/-- Puts the rules of `outer` back in scope and keeps the data. -/
def scopedTo (env outer : Environment) : Environment :=
  { env with rules := outer.rules, revision := env.revision + 1 }

/-- Opens a reference. -/
def descend (env : Environment) : Environment :=
  { env with depth := env.depth + 1, revision := env.revision + 1 }

/-- Puts the number of open references at `depth`. -/
def atDepth (env : Environment) (depth : Int) : Environment :=
  if depth = env.depth then env else { env with depth, revision := env.revision + 1 }

/-- The data by position, in the order in which it was bound. -/
def arguments (env : Environment) : List Value := env.bindings.map Prod.snd

/-- Whether no further reference may be opened. -/
def exhausted (env : Environment) : Bool := env.maxDepth ≤ env.depth

/-- How many references may still be opened inside one another. -/
def room (env : Environment) : Nat := (env.maxDepth - env.depth).toNat

theorem exhausted_iff_room (env : Environment) : env.exhausted = true ↔ env.room = 0 := by
  simp only [exhausted, room, decide_eq_true_eq]
  omega

end Environment

end Motif
