import Motif.Environment
import Motif.Failure

/-!
# The search

A matcher is run on the items that remain of a list and hands every way in which it can match to a
continuation: the environment after the match and the number of items used. The continuation runs
the rest of the pattern and answers; an answer that is no failure ends the search, and after any
other the matcher tries its next way.

What a search comes back with is a `Verdict`: an answer of its continuation, handed on as it is, or
a failure of the search's own. The difference matters to arrays, which place and wrap the failures
of their elements but leave alone what comes from outside.

The search never looks a rule up by itself; `Matcher.search` takes what references do as a
parameter, and `callRule` ties the two together with one level less for each open reference.
-/

namespace Motif

/-- The items that remain of a list, of the same shape as the list. -/
structure Input where
  shape : Shape
  items : List Value
  deriving Inhabited

namespace Input

/-- The input as a value. -/
def toValue (input : Input) : Value := .seq input.shape input.items

/-- What is left after the first `n` items. -/
def drop (n : Nat) (input : Input) : Input := { input with items := input.items.drop n }

/-- The input that consists of one item. -/
def single (item : Value) : Input := ⟨.list, [item]⟩

/-- Whether this is the tuple without items. -/
def isEmptyTuple : Input → Bool
  | ⟨.tuple, []⟩ => true
  | _ => false

end Input

/-- Types of answers among which failures are told from the rest. -/
class Answer (κ : Type) where
  /-- The failure that an answer is, if it is one. -/
  failure? : κ → Option Failure

export Answer (failure?)

/-- How a search ends: with a failure of its own or with an answer of its continuation. -/
inductive Verdict (κ : Type) where
  | own (f : Failure)
  | passed (x : κ)

namespace Verdict

variable {κ : Type}

instance [Answer κ] : Answer (Verdict κ) where
  failure?
    | .own f => some f
    | .passed x => failure? x

/-- A verdict whose answer is a verdict. -/
def join : Verdict (Verdict κ) → Verdict κ
  | .own f => .own f
  | .passed v => v

end Verdict

/-- What ends a run from within, without an answer. -/
inductive Interrupt where
  /-- Too many references are open for the stack. -/
  | stackExhausted
  /-- A matcher without a search of its own was run. -/
  | unimplemented
  deriving DecidableEq

/-- A continuation, given the environment after a match and the number of items used. -/
abbrev Continuation (m : Type → Type) (κ : Type) := Environment → Nat → m κ

/-- A way to search an input, for continuations with answers of any type. -/
abbrev Searcher (m : Type → Type) :=
  {κ : Type} → [Answer κ] → Input → Environment → Continuation m κ → m (Verdict κ)

variable {m : Type → Type} [Monad m]

/-- Hands `attempts` to `k` in order up to the first one that it accepts. If it accepts none, the
best of its failures and `best` remains. -/
def offer {α κ : Type} [Answer κ] (k : α → m κ) :
    List α → Option Failure → m (Except (Option Failure) κ)
  | [], best => pure (.error best)
  | a :: attempts, best => do
    let x ← k a
    match failure? x with
    | none => pure (.ok x)
    | some f => offer k attempts (some (Failure.better best f))

variable [Predicates]

/-! ### Runs of items -/

/-- Whether a restriction, if there is one, allows a value. -/
def allowed (only : Option Restriction) (v : Value) : Bool := only.all (·.allows v)

/-- Lengths that an unbound segment may take: up to the first item that is not allowed. -/
def segmentLengths (only : Option Restriction) (items : List Value) : List Nat :=
  (List.range (items.takeWhile (allowed only)).length).map (· + 1)

/-- The failure of an unbound segment all of whose lengths were refused. -/
def segmentStopped (only : Option Restriction) (input : Input) (best : Option Failure) : Failure :=
  let n := (input.items.takeWhile (allowed only)).length
  match input.items[n]? with
  | some item => .report .segment .restrictionNotSatisfied item n best
  | none => .report .segment .indexOutOfRange input.toValue input.items.length best

/-- Why the items of a bound segment do not stand at the head of the input again, if they do not:
the first difference in items or restriction, `index` items having been compared. -/
def replayConflict (only : Option Restriction) (input : Input) :
    (index : Nat) → (expected items : List Value) → Option Failure
  | _, [], _ => none
  | index, _ :: _, [] => some (.report .segment .unexpectedEnd input.toValue index none)
  | index, v :: expected, item :: items =>
    if !item.equal v then
      some (.report .segment .bindingConflict (.tuple [item, v]) index none)
    else if !allowed only item then
      some (.report .segment .restrictionNotSatisfied item index none)
    else replayConflict only input (index + 1) expected items

/-- The search of a segment. Unbound, it takes one item, then two, and so on; bound, it must see the
same items again. A segment is never empty. -/
def searchSegment (name : Text) (only : Option Restriction) : Searcher m := fun input env k =>
  match input.items, env.get? name with
  | [], _ => pure (.own (.report .segment .unexpectedEnd input.toValue 0 none))
  | _ :: _, none => do
    let grown (n : Nat) := k (env.extend name (.list (input.items.take n))) n
    match ← offer grown (segmentLengths only input.items) none with
    | .ok x => pure (.passed x)
    | .error best => pure (.own (segmentStopped only input best))
  | item :: _, some bound =>
    match bound with
    | .seq _ (first :: others) =>
      match replayConflict only input 0 (first :: others) input.items with
      | some f => pure (.own f)
      | none => .passed <$> k env (others.length + 1)
    | _ => pure (.own (.report .segment .bindingConflict (.tuple [item, bound]) 0 none))

/-- The search of a segment that must own what is left of the input. -/
def searchSegmentExact (name : Text) (only : Option Restriction) : Searcher m :=
  fun input env k => do
    let whole : Continuation m (Verdict _) := fun env' n =>
      if n = input.items.length then .passed <$> k env' n
      else pure (.own (.report .segment .keepTrying input.toValue n none))
    Verdict.join <$> searchSegment name only input env whole

/-- The search of unbound filler: no item, one item, and so on to the end of the input. -/
def searchRest : Searcher m := fun input env k => do
  match ← offer (k env) (List.range (input.items.length + 1)) none with
  | .ok x => pure (.passed x)
  | .error best =>
    pure (.own (.report .rest .indexOutOfRange input.toValue input.items.length best))

/-! ### Single items -/

/-- The search of one item that equals `value`. -/
def searchConstant (value : Value) : Searcher m := fun input env k =>
  match input.items with
  | [] => pure (.own (.report .constant .unexpectedEnd input.toValue 0 none))
  | item :: _ =>
    if item.equal value then .passed <$> k env 1
    else pure (.own (.report .constant .unexpectedValue (.tuple [item, value]) 0 none))

/-- The search of one item for a variable, which is bound to it or must already be. -/
def searchElement (name : Text) (only : Option Restriction) : Searcher m := fun input env k =>
  match input.items with
  | [] => pure (.own (.report .element .unexpectedEnd input.toValue 0 none))
  | item :: _ =>
    if !allowed only item then
      pure (.own (.report .element .restrictionNotSatisfied item 0 none))
    else
      match env.get? name with
      | none => .passed <$> k (env.extend name item) 1
      | some bound =>
        if bound.equal item then .passed <$> k env 1
        else pure (.own (.report .element .bindingConflict (.tuple [item, bound]) 0 none))

/-! ### Arrays -/

/-- How the search of an array's contents ends. -/
inductive Landing (κ : Type) where
  /-- An answer from outside the array. -/
  | outer (x : κ)
  /-- The elements matched and left items over. -/
  | leftover (f : Failure)
  /-- An element failed; `position` is where in the array's list. -/
  | placed (f : Failure) (position : Int)

namespace Landing

variable {κ : Type}

instance [Answer κ] : Answer (Landing κ) where
  failure?
    | .outer x => failure? x
    | .leftover f => some f
    | .placed f _ => some f

/-- The failure of an array whose elements left items over from `offset` on. -/
def leftoverAt (whole : Input) (offset : Nat) : Failure :=
  ⟨⟨.array, .unexpectedInput, whole.toValue, offset, true⟩, []⟩

/-- Places an element's verdict in the list of its array. What was already placed, in an inner list,
stands at the element's own offset. -/
def ofElement (offset : Nat) : Verdict (Landing κ) → Landing κ
  | .passed landing => landing
  | .own f => .placed (f.relocate offset) (if f.top.located then offset else offset + f.top.offset)

/-- Whether a failure reports on an array's list itself. There is one empty tuple only, so an inner
array that reports the end of an empty tuple speaks of the list of the outer one. -/
def speaksOf (whole : Input) (f : Failure) : Bool :=
  f.top.matcher == .array && whole.isEmptyTuple &&
    match f.top.fragment with
    | .tuple [] => true
    | _ => false

/-- The verdict of an array: its own report and answers from outside stay as they are, and the
failure of an element is wrapped in a report that gives its position. -/
def settle (whole : Input) : Landing κ → Verdict κ
  | .outer x => .passed x
  | .leftover f => .own f
  | .placed f position =>
    if speaksOf whole f then .own f
    else .own (.causedBy ⟨.array, .unexpectedInput, whole.toValue, position, true⟩ f)

end Landing

/-! ### The whole search -/

/-- Rules whose names are text; no reference can name another one. -/
def namedRules (rules : List (Value × Matcher)) : Table Matcher :=
  rules.filterMap fun
    | (.str name, matcher) => some (name, matcher)
    | _ => none

variable [MonadExceptOf Interrupt m]

mutual

/-- The search of a matcher, where a reference to a rule does as `call` says. -/
def Matcher.search (call : Text → Searcher m) : Matcher → Searcher m
  | .constant value => searchConstant value
  | .element name only => searchElement name only
  | .segment name only => searchSegment name only
  | .segmentExact name only => searchSegmentExact name only
  | .rest => searchRest
  | .array elements => fun input env k =>
    match input.items with
    | [] => pure (.own (.report .array .unexpectedEnd input.toValue 0 none))
    | .seq shape items :: _ =>
      Landing.settle ⟨shape, items⟩ <$>
        searchElements call elements ⟨shape, items⟩ 0 ⟨shape, items⟩ env fun env' => k env' 1
    | item :: _ => pure (.own (.report .array .unexpectedValue item 0 none))
  | .choice alternatives => searchAlternatives call alternatives none
  | .reference name => call name
  | .letrec rules body => fun input env k =>
    body.search call input (env.define (namedRules rules)) fun env' n => k (env'.scopedTo env) n
  | .abstract _ => fun _ _ _ => throw .unimplemented

/-- The search of an array's elements one after the other on what is left of its list, `offset`
items into `whole`. After the last one the list must be used up, and `k` goes on outside. -/
def searchElements {κ : Type} [Answer κ] (call : Text → Searcher m) :
    List Matcher → (whole : Input) → (offset : Nat) → Input → Environment →
      (Environment → m κ) → m (Landing κ)
  | [], whole, offset, input, env, k =>
    if input.items.isEmpty then .outer <$> k env
    else pure (.leftover (Landing.leftoverAt whole offset))
  | element :: elements, whole, offset, input, env, k =>
    Landing.ofElement offset <$> element.search call input env fun env' n =>
      searchElements call elements whole (offset + n) (input.drop n) env' k

/-- The search of alternatives in order, `best` being the best failure of those before. -/
def searchAlternatives (call : Text → Searcher m) : List Matcher → Option Failure → Searcher m
  | [], best => fun input _ _ => pure (.own (.report .choice .noAlternative input.toValue 0 best))
  | alternative :: alternatives, best => fun input env k => do
    let verdict ← alternative.search call input env k
    match failure? verdict with
    | none => pure verdict
    | some f => searchAlternatives call alternatives (some (Failure.better best f)) input env k

end

section Equations

variable {κ : Type} [Answer κ] (call : Text → Searcher m) (input : Input) (env : Environment)

@[simp] theorem Matcher.search_constant (value : Value) (k : Continuation m κ) :
    (Matcher.constant value).search call input env k = searchConstant value input env k := rfl

@[simp] theorem Matcher.search_element (name : Text) (only : Option Restriction)
    (k : Continuation m κ) :
    (Matcher.element name only).search call input env k = searchElement name only input env k := rfl

@[simp] theorem Matcher.search_segment (name : Text) (only : Option Restriction)
    (k : Continuation m κ) :
    (Matcher.segment name only).search call input env k = searchSegment name only input env k := rfl

@[simp] theorem Matcher.search_segmentExact (name : Text) (only : Option Restriction)
    (k : Continuation m κ) :
    (Matcher.segmentExact name only).search call input env k =
      searchSegmentExact name only input env k := rfl

@[simp] theorem Matcher.search_rest (k : Continuation m κ) :
    Matcher.rest.search call input env k = searchRest input env k := rfl

@[simp] theorem Matcher.search_choice (alternatives : List Matcher) (k : Continuation m κ) :
    (Matcher.choice alternatives).search call input env k =
      searchAlternatives call alternatives none input env k := rfl

@[simp] theorem Matcher.search_reference (name : Text) (k : Continuation m κ) :
    (Matcher.reference name).search call input env k = call name input env k := rfl

@[simp] theorem Matcher.search_letrec (rules : List (Value × Matcher)) (body : Matcher)
    (k : Continuation m κ) :
    (Matcher.letrec rules body).search call input env k =
      body.search call input (env.define (namedRules rules)) fun env' n =>
        k (env'.scopedTo env) n := rfl

/-- An array searches its contents and settles what comes of it. -/
theorem Matcher.search_array_seq (elements : List Matcher) (shape shape' : Shape)
    (items others : List Value) (k : Continuation m κ) :
    (Matcher.array elements).search call ⟨shape, .seq shape' items :: others⟩ env k =
      Landing.settle ⟨shape', items⟩ <$>
        searchElements call elements ⟨shape', items⟩ 0 ⟨shape', items⟩ env fun env' => k env' 1 :=
  rfl

@[simp] theorem searchElements_cons (element : Matcher) (elements : List Matcher) (whole : Input)
    (offset : Nat) (k : Environment → m κ) :
    searchElements call (element :: elements) whole offset input env k =
      Landing.ofElement offset <$> element.search call input env fun env' n =>
        searchElements call elements whole (offset + n) (input.drop n) env' k := rfl

end Equations

/-- What a reference does with at most `room` references left to open: it runs the rule of its name
one level deeper, and puts the depth back for the continuation. `stack` limits the open references
for lack of space, without an answer. -/
def callRule (stack : Option Nat) : (room : Nat) → Text → Searcher m
  | room, name => fun input env k =>
    match env.matcher? name with
    | none => pure (.own (.report .reference .referenceNotFound (.str name) 0 none))
    | some target =>
      let ceiling := pure (.own (.report .reference .depthExceeded (.str name) 0 none))
      match room with
      | 0 => ceiling
      | room + 1 =>
        if env.exhausted then ceiling
        else if stack.any fun limit => (limit : Int) ≤ env.depth then throw .stackExhausted
        else
          target.search (callRule stack room) input env.descend fun env' n =>
            k (env'.atDepth env.depth) n

/-- The search of a matcher from an environment. -/
def Matcher.searchFrom (stack : Option Nat) (matcher : Matcher) : Searcher m := fun input env k =>
  matcher.search (callRule stack env.room) input env k

end Motif
