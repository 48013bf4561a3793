import Guion.Bounded
import Guion.CommandLine.Directory
import Guion.CommandLine.Options
import Guion.CommandLine.Report
import Guion.CommandLine.Run
import Guion.Evaluation.Expression
import Guion.Evaluation.Machine
import Guion.Evaluation.Operators
import Guion.Evaluation.Sink
import Guion.Limits
import Guion.Main
import Guion.Number.Binary
import Guion.Number.Decimal
import Guion.Number.Layout
import Guion.Number.Reading
import Guion.Parser.Error
import Guion.Parser.Expression
import Guion.Parser.State
import Guion.Parser.Statement
import Guion.Program.Basic
import Guion.Program.Render
import Guion.Proofs.Bounded
import Guion.Proofs.Evaluation.Congruence
import Guion.Proofs.Evaluation.Limits
import Guion.Proofs.Evaluation.Termination
import Guion.Proofs.Grammar.Derivation
import Guion.Proofs.Grammar.Shape
import Guion.Proofs.Number.Literals
import Guion.Proofs.Parser.Acceptance
import Guion.Proofs.Parser.Completeness
import Guion.Proofs.Parser.Finishing
import Guion.Proofs.Parser.Precedence
import Guion.Proofs.Parser.Progress
import Guion.Proofs.Parser.Soundness
import Guion.Proofs.Parser.Steps
import Guion.Proofs.Program.Erasure
import Guion.Proofs.Program.Printable
import Guion.Proofs.Program.RoundTrip
import Guion.Proofs.Token.Lexed
import Guion.Proofs.Token.Spelling
import Guion.Scope.Heap
import Guion.Session
import Guion.Table
import Guion.Text.Blank
import Guion.Text.Cluster
import Guion.Text.ClusterBreak
import Guion.Text.Ranges
import Guion.Text.Typed
import Guion.Token.Basic
import Guion.Token.Scan
import Guion.Value.Basic
import Guion.Value.Error
import Guion.Value.Render
import Guion.Proofs.Evaluation.Lockstep
import Guion.Proofs.Evaluation.Counters
import Guion.Proofs.Scope.Growth
import Guion.Proofs.Scope.Constants
import Guion.Proofs.Scope.Locals
import Guion.Proofs.Scope.Reach
import Guion.Proofs.Program.Discipline
import Guion.Proofs.Evaluation.Signals
import Guion.Proofs.Program.Depth
import Guion.Proofs.Parser.Balance
import Guion.Proofs.Parser.Nesting
import Guion.Proofs.Evaluation.ValueDepth
import Guion.Proofs.Program.Places
import Guion.Proofs.Parser.Transport
import Guion.Proofs.Parser.Recovery
import Guion.Proofs.Token.Joining
import Guion.Proofs.Parser.Isolation
import Guion.Proofs.Parser.Boundary
import Guion.Proofs.Evaluation.CallLimit
import Guion.Proofs.Token.Tiling
import Guion.Proofs.Scope.Places
import Guion.Proofs.Evaluation.Relocation
import Guion.Proofs.Layout
import Guion.Proofs.Parser.Continuation
import Guion.Proofs.Parser.Separation
import Guion.Proofs.Composition
import Guion.Proofs.Token.Munch
import Guion.Proofs.Parser.Recursion
import Guion.Proofs.Parser.Height
import Guion.Proofs.Token.Wording
import Guion.Proofs.Program.Nodes
import Guion.Proofs.Parser.Limits
import Guion.Proofs.Parser.Provenance
import Guion.Proofs.Parser.Segments
import Guion.Proofs.Evaluation.Ledger
import Guion.Proofs.Scope.Laws
import Guion.Proofs.Scope.Levels
import Guion.Proofs.Value.Equality
import Guion.Proofs.Parser.Locality
import Guion.Proofs.Grammar.Brackets
import Guion.Proofs.Parser.Chains
import Guion.Proofs.Token.Enclosing
import Guion.Proofs.Conditionals
import Guion.Proofs.Token.Reprinting
import Guion.Proofs.Parser.Integers
import Guion.Proofs.Parser.DepthCounter
