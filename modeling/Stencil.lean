import Stencil.Main
import Stencil.Workspace
import Stencil.Proofs.Spelling.Soundness
import Stencil.Proofs.Spelling.Completeness
import Stencil.Proofs.Canonical.RoundTrip
import Stencil.Proofs.Decimal.Encoding
import Stencil.Proofs.Decimal.Nearest
import Stencil.Proofs.Decimal.Shortest
import Stencil.Proofs.Decimal.Signs
import Stencil.Proofs.Canonical.Idempotence
import Stencil.Proofs.Evaluation.Repetition
import Stencil.Proofs.Evaluation.Isolation
import Stencil.Proofs.Evaluation.Confinement
import Stencil.Proofs.Block.Agreement
import Stencil.Proofs.Call.Delivery
import Stencil.Proofs.Call.Outcome
import Stencil.Proofs.Places.Layout
import Stencil.Proofs.Places.Lossless
import Stencil.Proofs.Places.Faults
import Stencil.Proofs.Places.Marks
import Stencil.Proofs.Evaluation.Unreferenced
import Stencil.Proofs.Evaluation.Absorption
import Stencil.Proofs.Template.Concatenation
import Stencil.Proofs.Template.WellFormed
import Stencil.Proofs.Words.Greedy
import Stencil.Proofs.CommandLine
import Stencil.Proofs.Scope.Refinement
import Stencil.Proofs.Operator.Division
import Stencil.Proofs.Operator.Power
import Stencil.Proofs.Evaluation.Spreading
import Stencil.Proofs.Operator.Slices
import Stencil.Proofs.Operator.Comparison
import Stencil.Proofs.Evaluation.Courses
import Stencil.Proofs.Evaluation.Declarations
import Stencil.Proofs.Operator.Repetition
import Stencil.Proofs.Evaluation.Literals
import Stencil.Proofs.Words.Delimited
import Stencil.Proofs.Lookahead.Progress
import Stencil.Proofs.Cursor
