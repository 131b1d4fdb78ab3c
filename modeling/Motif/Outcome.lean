import Motif.Search

/-!
# Matching one datum

`Matcher.run` matches a datum as the only item of a list and answers with what the continuation
says; `Matcher.outcome` keeps the first way to match. A run that would need more stack than there is
fails as a whole, with a report that names the matcher at the top.
-/

namespace Motif

/-- Limits of a run: the ceiling on nested references, and how many open references fit on the
stack, where there is such a limit. Open references are all that counts here: what the elements of
arrays, the alternatives of choices and the calls of continuations take of the stack is left
aside. -/
structure Limits where
  maxDepth : Int := Environment.defaultMaxDepth
  stack : Option Nat := some 1000

instance : Inhabited Limits := ⟨{}⟩

section

variable [Predicates] {m : Type → Type} [Monad m] [MonadExceptOf Interrupt m] {κ : Type} [Answer κ]

/-- The failure that an interrupted run counts as, if it counts as one. -/
def Interrupt.failure? (matcher : Matcher) (datum : Value) : Interrupt → Option Failure
  | .stackExhausted => matcher.kind?.map fun kind => .report kind .depthExceeded datum 0 none
  | .unimplemented => none

/-- Matches `datum` as a single item, up to an interrupt. -/
def Matcher.start (limits : Limits) (matcher : Matcher) (datum : Value) (k : Continuation m κ) :
    m (Verdict κ) :=
  matcher.searchFrom limits.stack (Input.single datum) (Environment.empty limits.maxDepth) k

/-- Matches `datum` as a single item and answers with the continuation's answer or a failure. -/
def Matcher.run (limits : Limits) (matcher : Matcher) (datum : Value) (k : Continuation m κ) :
    m (Verdict κ) :=
  tryCatchThe Interrupt (matcher.start limits datum k) fun interrupt =>
    match interrupt.failure? matcher datum with
    | some f => pure (.own f)
    | none => throw interrupt

end

/-- A way to match: the environment afterwards and the number of items used. -/
structure Success where
  environment : Environment
  consumed : Nat
  deriving Inhabited

instance : Answer Success := ⟨fun _ => none⟩

/-- What becomes of matching one datum. -/
inductive Outcome where
  | success (result : Success)
  | failure (f : Failure)

namespace Outcome

/-- Whether the datum matched. -/
def matched : Outcome → Bool
  | .success _ => true
  | .failure _ => false

/-- The outcome that a verdict stands for. -/
def ofVerdict : Verdict Success → Outcome
  | .own f => .failure f
  | .passed result => .success result

end Outcome

/-- The continuation that keeps the first way to match. -/
def Success.keep {m : Type → Type} [Monad m] : Continuation m Success := fun env n => pure ⟨env, n⟩

/-- Matches a datum and keeps the first way to do it. -/
def Matcher.outcome [Predicates] (limits : Limits) (matcher : Matcher) (datum : Value) :
    Except Interrupt Outcome :=
  Outcome.ofVerdict <$> matcher.run limits datum Success.keep

end Motif
