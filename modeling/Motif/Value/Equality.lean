import Motif.Value

/-!
# Equality of values

Numbers are equal when they stand for the same quantity, whatever their type: a truth value counts
as 0 or 1, and whole and binary numbers are compared exactly. Lists and tuples are told apart,
dictionaries are compared without regard to order.

There is one value that is not a number and is equal to no number, itself included. Inside a
container it is nevertheless found again as the same thing, so there are two relations:
`Value.alike`, an equivalence, for what stands inside a container, and `Value.equal` for two values
compared on their own.
-/

namespace Motif

namespace Value

/-- The quantity of a value that counts as a number. -/
def quantity? : Value → Option Quantity
  | .bool b => some (.ofInt (if b then 1 else 0))
  | .int n => some (.ofInt n)
  | .float x => some x.quantity
  | _ => none

end Value

mutual

/-- Equality of what stands inside a container. -/
def Value.alike : Value → Value → Bool
  | .null, .null => true
  | .bool b, w => (Value.bool b).quantity? == w.quantity?
  | .int n, w => (Value.int n).quantity? == w.quantity?
  | .float x, w => (Value.float x).quantity? == w.quantity?
  | .str s, .str t => s == t
  | .seq shape items, .seq shape' items' => shape == shape' && alikeItems items items'
  | .dict entries, .dict entries' =>
    entries.length == entries'.length && alikeEntries entries entries'
  | .rest, .rest => true
  | .form f, .form g => f == g
  | .matcher m, .matcher m' => m.alike m'
  | _, _ => false

/-- Items alike one by one. -/
def alikeItems : List Value → List Value → Bool
  | [], [] => true
  | v :: vs, w :: ws => v.alike w && alikeItems vs ws
  | _, _ => false

/-- Every entry has one alike among `others`. -/
def alikeEntries : List (Value × Value) → List (Value × Value) → Bool
  | [], _ => true
  | (k, v) :: entries, others =>
    others.any (fun other => k.alike other.1 && v.alike other.2) && alikeEntries entries others

/-- Equality of matchers: the same kind with parts that are alike. -/
def Matcher.alike : Matcher → Matcher → Bool
  | .constant v, .constant w => v.alike w
  | .element n r, .element n' r' => n == n' && r == r'
  | .segment n r, .segment n' r' => n == n' && r == r'
  | .segmentExact n r, .segmentExact n' r' => n == n' && r == r'
  | .rest, .rest => true
  | .array es, .array es' => alikeMatchers es es'
  | .choice as, .choice as' => alikeMatchers as as'
  | .reference n, .reference n' => n == n'
  | .letrec rules body, .letrec rules' body' => alikeRules rules rules' && body.alike body'
  | .abstract i, .abstract j => i == j
  | _, _ => false

/-- Matchers alike one by one. -/
def alikeMatchers : List Matcher → List Matcher → Bool
  | [], [] => true
  | m :: ms, m' :: ms' => m.alike m' && alikeMatchers ms ms'
  | _, _ => false

/-- Rules alike one by one, names and matchers. -/
def alikeRules : List (Value × Matcher) → List (Value × Matcher) → Bool
  | [], [] => true
  | (n, m) :: rs, (n', m') :: rs' => n.alike n' && m.alike m' && alikeRules rs rs'
  | _, _ => false

end

namespace Value

/-- Equality of two values compared on their own: as inside a container, except that what is not a
number equals nothing. -/
def equal (v w : Value) : Bool :=
  match v with
  | .float .nan => false
  | _ => v.alike w

/-- The first key of a dictionary that is alike to `key` has its value replaced; without one, the
entry goes to the end. -/
def insertEntry (key value : Value) : List (Value × Value) → List (Value × Value)
  | [] => [(key, value)]
  | (k, v) :: entries =>
    if k.alike key then (k, value) :: entries else (k, v) :: insertEntry key value entries

/-- The dictionary of some entries in order: of alike keys the first stands and the last value
counts. -/
def ofEntries (entries : List (Value × Value)) : Value :=
  .dict (entries.foldl (fun acc (k, v) => insertEntry k v acc) [])

/-- The value of a textual key. -/
def lookupKey (key : Text) : List (Value × Value) → Option Value
  | [] => none
  | (.str k, v) :: entries => if k == key then some v else lookupKey key entries
  | _ :: entries => lookupKey key entries

end Value

end Motif
