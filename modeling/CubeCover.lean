import CubeCover.Main
import CubeCover.Proofs.Bindings
import CubeCover.Proofs.Cube.Points
import CubeCover.Proofs.Cube.Implicants
import CubeCover.Proofs.Cube.Formula
import CubeCover.Proofs.Cube.Term
import CubeCover.Proofs.Formula.Names
import CubeCover.Proofs.Formula.Walk
import CubeCover.Proofs.Formula.Truth
import CubeCover.Proofs.Formula.TruthTable
import CubeCover.Proofs.Formula.RowNumber
import CubeCover.Proofs.Formula.Equivalence
import CubeCover.Proofs.Formula.PrimeTerm
import CubeCover.Proofs.Formula.NormalForm
import CubeCover.Proofs.Formula.Lexeme
import CubeCover.Proofs.Formula.Grammar
import CubeCover.Proofs.Formula.Unambiguous
import CubeCover.Proofs.Formula.RoundTrip
import CubeCover.Proofs.Formula.Regroup
import CubeCover.Proofs.Formula.Canonical
import CubeCover.Proofs.Table.Step
import CubeCover.Proofs.Table.Reachable
import CubeCover.Proofs.Table.Cover
import CubeCover.Proofs.Table.Closure
import CubeCover.Proofs.Table.Primes
import CubeCover.Proofs.Minimize
import CubeCover.Proofs.PrimeCover
import CubeCover.Proofs.Table.Derivation
import CubeCover.Proofs.Table.Cancellers
import CubeCover.Proofs.Table.Growth
import CubeCover.Proofs.Cube.Irredundant
import CubeCover.Proofs.Table.Irredundant
import CubeCover.Proofs.Table.Failure
import CubeCover.Proofs.Table.Absorption
import CubeCover.Proofs.Table.Modes
import CubeCover.Proofs.Outcome
import CubeCover.Proofs.Table.LastRow
import CubeCover.Proofs.Table.Stability
import CubeCover.Proofs.Formula.Reassociation
import CubeCover.Proofs.Cube.Clashes
import CubeCover.Proofs.Cube.Corners
import CubeCover.Proofs.Table.Combinations
import CubeCover.Proofs.Size
import CubeCover.Proofs.Formula.Slot
import CubeCover.Proofs.Formula.Refusal
import CubeCover.Proofs.Csv.Reader
import CubeCover.Proofs.Csv.Rows
import CubeCover.Proofs.Cli.ExitCode
import CubeCover.Proofs.Cli.Frame
import CubeCover.Proofs.Cube.Inclusion
import CubeCover.Proofs.Cube.Consensus
import CubeCover.Proofs.Scripts
import CubeCover.Proofs.Table.Replay
import CubeCover.Proofs.Trace
import CubeCover.Proofs.Cube.Intersection
import CubeCover.Proofs.Cube.Evaluation
import CubeCover.Proofs.Formula.ScanRules
import CubeCover.Proofs.Formula.Spans
import CubeCover.Proofs.Cube.Layout
import CubeCover.Proofs.Table.Alignment
import CubeCover.Proofs.Csv.Lines
