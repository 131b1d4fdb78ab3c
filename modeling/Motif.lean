import Motif.CommandLine
import Motif.CommandLine.Arguments
import Motif.Document
import Motif.Environment
import Motif.Environment.Workspace
import Motif.Failure
import Motif.Failure.Ledger
import Motif.Files
import Motif.Files.Folder
import Motif.Json.Reader
import Motif.Json.Writer
import Motif.Literal
import Motif.Main
import Motif.Notation
import Motif.Number.Binary64
import Motif.Number.Shortest
import Motif.Outcome
import Motif.Proofs.Alongside
import Motif.Proofs.Attempts
import Motif.Proofs.BindingOrder
import Motif.Proofs.Calls
import Motif.Proofs.Ceiling
import Motif.Proofs.Chains
import Motif.Proofs.Counterparts
import Motif.Proofs.Decoded
import Motif.Proofs.Denotation
import Motif.Proofs.DepthFirst
import Motif.Proofs.Derivation
import Motif.Proofs.EqualData
import Motif.Proofs.Equality
import Motif.Proofs.Excerpts
import Motif.Proofs.Furthest
import Motif.Proofs.Inlining
import Motif.Proofs.Instance
import Motif.Proofs.Interrupts
import Motif.Proofs.LastSegment
import Motif.Proofs.Lockstep
import Motif.Proofs.MatchCommand
import Motif.Proofs.Mirror
import Motif.Proofs.Mismatch
import Motif.Proofs.Nesting
import Motif.Proofs.Notation
import Motif.Proofs.Origins
import Motif.Proofs.Outcome
import Motif.Proofs.Outside
import Motif.Proofs.Pairs
import Motif.Proofs.Paths
import Motif.Proofs.Positions
import Motif.Proofs.Ranking
import Motif.Proofs.Reasons
import Motif.Proofs.Recast
import Motif.Proofs.Records
import Motif.Proofs.Renaming
import Motif.Proofs.Reports
import Motif.Proofs.Roots
import Motif.Proofs.RuleNames
import Motif.Proofs.Rules
import Motif.Proofs.RunningBest
import Motif.Proofs.Scope
import Motif.Proofs.Shapes
import Motif.Proofs.Simulation
import Motif.Proofs.Trace
import Motif.Proofs.Tupled
import Motif.Proofs.Unscoping
import Motif.Proofs.Verbatim
import Motif.Proofs.Visits
import Motif.Proofs.Watched
import Motif.Proofs.Ways
import Motif.Proofs.Weakening
import Motif.Report
import Motif.Search
import Motif.Table
import Motif.Text
import Motif.Text.Blank
import Motif.Text.Digit
import Motif.Text.Integer
import Motif.Text.Order
import Motif.Text.Printable
import Motif.Text.Quoted
import Motif.Text.Stray
import Motif.Value
import Motif.Value.Equality
import Motif.Value.Text
