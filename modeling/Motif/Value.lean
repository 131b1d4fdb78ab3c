import Motif.Number.Binary64
import Motif.Text

/-!
# Values and matchers

The data that is searched and the matchers that search it. The two types refer to each other: a
matcher may look for any value, and a value may itself be a matcher, since patterns are written as
values and rules can be looked up like bound variables.
-/

namespace Motif

/-- The two list shapes. They hold the same items but are never equal to each other. -/
inductive Shape where
  | list
  | tuple
  deriving DecidableEq, Inhabited

/-- The tests that a variable may put on the items it is bound to: those of the registry, which
have names in notation, and any other predicate, told from others by what it is called. -/
inductive Restriction where
  | string
  | number
  | integer
  | boolean
  | list
  | scalar
  | custom (called : String)
  deriving DecidableEq

/-- Tags that make a list literal a special form when they stand first in it. -/
inductive Form where
  | letrec
  | choose
  deriving DecidableEq

mutual

/-- A datum or a pattern literal. -/
inductive Value where
  | null
  | bool (b : Bool)
  | int (n : Int)
  | float (x : Binary64)
  | str (s : Text)
  | seq (shape : Shape) (items : List Value)
  | dict (entries : List (Value × Value))
  | rest
  | form (f : Form)
  | matcher (m : Matcher)

/-- A compiled pattern. -/
inductive Matcher where
  /-- One item equal to `value`. -/
  | constant (value : Value)
  /-- One item, bound to `name`. -/
  | element (name : Text) (only : Option Restriction)
  /-- A run of one or more items, bound to `name` as a list. -/
  | segment (name : Text) (only : Option Restriction)
  /-- A segment that must reach the end of its list. -/
  | segmentExact (name : Text) (only : Option Restriction)
  /-- Any run of items, bound to nothing. -/
  | rest
  /-- One list whose contents split into runs for `elements`. -/
  | array (elements : List Matcher)
  /-- The first of `alternatives` after which the search succeeds. -/
  | choice (alternatives : List Matcher)
  /-- The rule called `name` where the reference is met. -/
  | reference (name : Text)
  /-- `body` with `rules` in scope. Only a textual name can be referred to. -/
  | letrec (rules : List (Value × Matcher)) (body : Matcher)
  /-- A matcher without a search of its own, told from others of its kind by `stamp`. -/
  | abstract (stamp : Nat)

end

instance : Inhabited Value := ⟨.null⟩

instance : Inhabited Matcher := ⟨.rest⟩

namespace Value

/-- The list of `items`. -/
@[match_pattern]
abbrev list (items : List Value) : Value := .seq .list items

/-- The tuple of `items`. -/
@[match_pattern]
abbrev tuple (items : List Value) : Value := .seq .tuple items

/-- The items of a list-shaped value. -/
def items? : Value → Option (List Value)
  | .seq _ items => some items
  | _ => none

/-- Whether a value counts as true where a yes or no is asked for: all do but nothing, zero and
what is empty. -/
def truthy : Value → Bool
  | .null => false
  | .bool b => b
  | .int n => n != 0
  | .float x => !x.isZero
  | .str s => !s.isEmpty
  | .seq _ items => !items.isEmpty
  | .dict entries => !entries.isEmpty
  | .rest | .form _ | .matcher _ => true

end Value

/-- What the predicates outside of the registry say of values. Everything that is said of searches
holds whatever they are. -/
class Predicates where
  holds : String → Value → Bool

/-- Where there are no predicates outside of the registry, none of them holds. -/
instance (priority := low) Predicates.registryOnly : Predicates := ⟨fun _ _ => false⟩

/-- Whether a restriction allows a value. A truth value is no number here. -/
def Restriction.allows [Predicates] : Restriction → Value → Bool
  | .string, .str _ => true
  | .number, .int _ | .number, .float _ => true
  | .integer, .int _ => true
  | .boolean, .bool _ => true
  | .list, .seq .. => true
  | .scalar, .seq .. | .scalar, .dict _ => false
  | .scalar, _ => true
  | .custom called, v => Predicates.holds called v
  | _, _ => false

end Motif
