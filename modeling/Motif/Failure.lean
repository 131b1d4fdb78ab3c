import Motif.Value.Equality

/-!
# Failures

A search that finds nothing answers with a failure: a chain of entries, outermost first, in which
each entry was caused by the next one. The last entry is the root.

Where several attempts fail, the failure that got furthest is kept. `Rank` says which that is: an
informative root first, then the longer chain, then the root further on; of equals the earliest.
-/

namespace Motif

/-- The kinds of matchers, as failures name them. Both sorts of segment are one kind. -/
inductive MatcherKind where
  | constant
  | element
  | segment
  | array
  | choice
  | reference
  | rest
  | letrec
  deriving DecidableEq, Inhabited

namespace MatcherKind

/-- All kinds. -/
def all : List MatcherKind :=
  [.constant, .element, .segment, .array, .choice, .reference, .rest, .letrec]

/-- Name of a kind. -/
def name : MatcherKind → String
  | .constant => "constant"
  | .element => "element"
  | .segment => "segment"
  | .array => "array"
  | .choice => "choice"
  | .reference => "reference"
  | .rest => "rest"
  | .letrec => "letrec"

/-- The kind with a given name. -/
def ofName? (name : String) : Option MatcherKind := all.find? (·.name == name)

end MatcherKind

/-- The kind of a matcher; an abstract matcher has none. -/
def Matcher.kind? : Matcher → Option MatcherKind
  | .constant _ => some .constant
  | .element .. => some .element
  | .segment .. | .segmentExact .. => some .segment
  | .rest => some .rest
  | .array _ => some .array
  | .choice _ => some .choice
  | .reference _ => some .reference
  | .letrec .. => some .letrec
  | .abstract _ => none

/-- Why a matcher gave up. -/
inductive Reason where
  | unexpectedEnd
  | unexpectedValue
  | unexpectedInput
  | restrictionNotSatisfied
  | bindingConflict
  | indexOutOfRange
  | keepTrying
  | referenceNotFound
  | noAlternative
  | depthExceeded
  deriving DecidableEq, Inhabited

namespace Reason

/-- All reasons. -/
def all : List Reason :=
  [.unexpectedEnd, .unexpectedValue, .unexpectedInput, .restrictionNotSatisfied, .bindingConflict,
    .indexOutOfRange, .keepTrying, .referenceNotFound, .noAlternative, .depthExceeded]

/-- Name of a reason. -/
def name : Reason → String
  | .unexpectedEnd => "unexpected-end"
  | .unexpectedValue => "unexpected-value"
  | .unexpectedInput => "unexpected-input"
  | .restrictionNotSatisfied => "restriction-not-satisfied"
  | .bindingConflict => "binding-conflict"
  | .indexOutOfRange => "index-out-of-range"
  | .keepTrying => "keep-trying"
  | .referenceNotFound => "reference-not-found"
  | .noAlternative => "no-alternative"
  | .depthExceeded => "depth-exceeded"

/-- The reason with a given name. -/
def ofName? (name : String) : Option Reason := all.find? (·.name == name)

/-- Whether a reason points at something in the input; the other reasons only say that it ran
out. -/
def informative : Reason → Bool
  | .unexpectedEnd | .keepTrying => false
  | _ => true

end Reason

/-- One report in a failure chain. The offset counts from the start of the reporting matcher's
input until an enclosing array relocates it to a position in its own list. -/
structure Failure.Entry where
  matcher : MatcherKind
  reason : Reason
  fragment : Value
  offset : Int
  located : Bool
  deriving Inhabited

/-- A chain of entries, each caused by the next. -/
structure Failure where
  top : Failure.Entry
  causes : List Failure.Entry
  deriving Inhabited

namespace Failure

/-- A report that no array has placed yet. -/
def report (matcher : MatcherKind) (reason : Reason) (fragment : Value) (offset : Nat)
    (cause : Option Failure) : Failure :=
  { top := ⟨matcher, reason, fragment, offset, false⟩
    causes := match cause with
      | none => []
      | some f => f.top :: f.causes }

/-- The entries, outermost first. -/
def chain (f : Failure) : List Entry := f.top :: f.causes

/-- The innermost entry. -/
def root (f : Failure) : Entry := f.causes.getLastD f.top

/-- The failure whose outermost entry is `entry` and whose cause is `cause`. -/
def causedBy (entry : Entry) (cause : Failure) : Failure := ⟨entry, cause.chain⟩

/-- Moves the outermost entry to its position in a list in which its input starts at `base`. An
entry is placed once only. -/
def relocate (base : Int) (f : Failure) : Failure :=
  if f.top.located then f
  else { f with top := { f.top with offset := base + f.top.offset, located := true } }

@[simp] theorem chain_report (k : MatcherKind) (r : Reason) (v : Value) (n : Nat)
    (c : Option Failure) :
    (report k r v n c).chain = ⟨k, r, v, n, false⟩ :: (c.map chain).getD [] := by
  cases c <;> rfl

@[simp] theorem chain_causedBy (e : Entry) (c : Failure) : (causedBy e c).chain = e :: c.chain :=
  rfl

@[simp] theorem root_causedBy (e : Entry) (c : Failure) : (causedBy e c).root = c.root := by
  obtain ⟨top, causes⟩ := c
  cases causes <;> rfl

@[simp] theorem relocate_causes (base : Int) (f : Failure) :
    (f.relocate base).causes = f.causes := by
  unfold relocate; split <;> rfl

/-! ### Ranking -/

/-- How far a failure got. -/
structure Rank where
  informative : Bool
  length : Nat
  offset : Int
  deriving DecidableEq

namespace Rank

/-- One rank is below another in the order of its three parts, first part first. -/
protected def Below (a b : Rank) : Prop :=
  (a.informative = false ∧ b.informative = true) ∨
    (a.informative = b.informative ∧
      (a.length < b.length ∨ (a.length = b.length ∧ a.offset < b.offset)))

instance : LT Rank := ⟨Rank.Below⟩

instance (a b : Rank) : Decidable (a < b) :=
  inferInstanceAs (Decidable ((_ ∧ _) ∨ (_ ∧ (_ ∨ (_ ∧ _)))))

end Rank

/-- Rank of a failure. -/
def rank (f : Failure) : Rank := ⟨f.root.reason.informative, f.chain.length, f.root.offset⟩

/-- The better of what was kept so far and a new failure; the kept one wins ties. -/
def better (best : Option Failure) (f : Failure) : Failure :=
  match best with
  | none => f
  | some b => if b.rank < f.rank then f else b

/-- The better of what was kept so far and a candidate that may be missing. -/
def keepBetter (best candidate : Option Failure) : Option Failure :=
  match candidate with
  | none => best
  | some f => some (better best f)

/-- The failure that got furthest, the earliest of equals. -/
def best? (candidates : List (Option Failure)) : Option Failure := candidates.foldl keepBetter none

/-! ### Equality -/

/-- Entries with the same kind, reason, offset and mark, and fragments that are alike. -/
def Entry.alike (a b : Entry) : Bool :=
  a.matcher == b.matcher && a.reason == b.reason && a.fragment.alike b.fragment &&
    a.offset == b.offset && a.located == b.located

/-- Failures with chains that are alike entry by entry. -/
def alike (f g : Failure) : Bool :=
  f.chain.length == g.chain.length && (f.chain.zip g.chain).all fun (a, b) => a.alike b

end Failure

end Motif
