import Motif.Failure

/-!
# Ledgers of failures

A ledger keeps failure records that share their causes: every record says which earlier record
caused it, and a place in the ledger may stand for a record that an earlier place already stands
for. Equal failures may thus be different records, and `Ledger` tells them apart.
-/

namespace Motif.Failure

/-- An entry and the number of the record that caused it. -/
structure Record where
  entry : Entry
  cause : Option Nat
  deriving Inhabited

/-- Records in the order in which they were made, and the record that each place stands for. -/
structure Ledger where
  records : List Record := []
  places : List Nat := []
  deriving Inhabited

namespace Ledger

/-- Numbers of a record and its causes, outermost first. A cause is older than what it caused, so
there are never more than there are records. -/
def follow (records : List Record) : (fuel : Nat) → Nat → List Nat
  | 0, _ => []
  | fuel + 1, number =>
    match records[number]? with
    | none => []
    | some record =>
      number :: (match record.cause with
        | none => []
        | some cause => follow records fuel cause)

/-- Numbers of the records in the chain of a place. -/
def numbers (ledger : Ledger) (place : Nat) : List Nat :=
  match ledger.places[place]? with
  | none => []
  | some number => follow ledger.records ledger.records.length number

/-- The failure at a place. -/
def failure? (ledger : Ledger) (place : Nat) : Option Failure :=
  match (ledger.numbers place).filterMap fun n => (ledger.records[n]?).map Record.entry with
  | [] => none
  | top :: causes => some ⟨top, causes⟩

/-- The first place that stands for a record. -/
def firstPlace (ledger : Ledger) (number : Nat) : Nat := ledger.places.idxOf number

/-- Adds a place for a new record. -/
def append (ledger : Ledger) (record : Record) : Ledger :=
  { records := ledger.records ++ [record]
    places := ledger.places ++ [ledger.records.length] }

/-- Adds a failure, caused by the record at a place if one is given. -/
def make (ledger : Ledger) (entry : Entry) (cause : Option Nat) : Ledger :=
  ledger.append ⟨entry, cause.bind fun place => ledger.places[place]?⟩

/-- Adds a place for the failure at `place`, relocated: for the same record if it was placed
already. Says whether it is the same. -/
def relocate (ledger : Ledger) (place : Nat) (base : Int) : Bool × Ledger :=
  match ledger.places[place]? with
  | none => (false, ledger)
  | some number =>
    match ledger.records[number]? with
    | none => (false, ledger)
    | some record =>
      if record.entry.located then (true, { ledger with places := ledger.places ++ [number] })
      else
        let moved := (Failure.relocate base ⟨record.entry, []⟩).top
        (false, ledger.append { record with entry := moved })

/-- For each member of the chain of a place, the first place that stands for it. -/
def members (ledger : Ledger) (place : Nat) : List Nat :=
  (ledger.numbers place).map ledger.firstPlace

/-- The place and the rank of the best failure so far, after a candidate that may be missing: a
candidate is kept only if its failure ranks higher than what was kept before. -/
def keepRecord (ledger : Ledger) (best : Option (Nat × Rank)) (candidate : Option Nat) :
    Option (Nat × Rank) :=
  match candidate with
  | none => best
  | some place =>
    match ledger.failure? place with
    | none => best
    | some f =>
      match best with
      | none => some (place, f.rank)
      | some (_, rank) => if rank < f.rank then some (place, f.rank) else best

/-- The best failure among some places, given by the first place of its record. -/
def best? (ledger : Ledger) (candidates : List (Option Nat)) : Option Nat := do
  let (place, _) ← candidates.foldl ledger.keepRecord none
  return ledger.firstPlace (← ledger.places[place]?)

end Ledger

end Motif.Failure
