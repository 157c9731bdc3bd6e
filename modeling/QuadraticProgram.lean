import QuadraticProgram.Arrays.Axes
import QuadraticProgram.Arrays.Basic
import QuadraticProgram.Arrays.Broadcast
import QuadraticProgram.Arrays.Cholesky
import QuadraticProgram.Arrays.Datum
import QuadraticProgram.Arrays.ElementType
import QuadraticProgram.Arrays.Kkt
import QuadraticProgram.Arrays.LeastSquares
import QuadraticProgram.Arrays.Product
import QuadraticProgram.Arrays.Reduction
import QuadraticProgram.Arrays.Residuals
import QuadraticProgram.Arrays.Shape
import QuadraticProgram.Arrays.Source
import QuadraticProgram.Constraints.Reduction
import QuadraticProgram.Decimal.Basic
import QuadraticProgram.Decimal.Binary
import QuadraticProgram.Decimal.Form
import QuadraticProgram.Decimal.Layout
import QuadraticProgram.Decimal.Reader
import QuadraticProgram.Decimal.Report
import QuadraticProgram.Decimal.Rounding
import QuadraticProgram.Evaluator.Basic
import QuadraticProgram.Evaluator.Kind
import QuadraticProgram.Evaluator.Named
import QuadraticProgram.Evaluator.Read
import QuadraticProgram.Factorization.Basic
import QuadraticProgram.Factorization.Cholesky
import QuadraticProgram.Factorization.Reflection
import QuadraticProgram.Factorization.Rotation
import QuadraticProgram.Factorization.Standard
import QuadraticProgram.Factorization.Triangular
import QuadraticProgram.Fault
import QuadraticProgram.Kkt.RangeSpace
import QuadraticProgram.Kkt.Residuals
import QuadraticProgram.Kkt.System
import QuadraticProgram.LeastSquares.Pivoted
import QuadraticProgram.LeastSquares.Rank
import QuadraticProgram.LeastSquares.Truncated
import QuadraticProgram.Logging.Format
import QuadraticProgram.Logging.Level
import QuadraticProgram.Logging.Registry
import QuadraticProgram.Matrix.Basic
import QuadraticProgram.Numeral
import QuadraticProgram.Program.Assembly
import QuadraticProgram.Program.Basic
import QuadraticProgram.Program.InPlace
import QuadraticProgram.Program.Indexed
import QuadraticProgram.Program.Solve
import QuadraticProgram.Program.Variable
import QuadraticProgram.Program.Workspace
import QuadraticProgram.Program.Writing
import QuadraticProgram.Scalar
import QuadraticProgram.Session.Run
import QuadraticProgram.Session.Step
import QuadraticProgram.Solver.Dense
import QuadraticProgram.Solver.Event
import QuadraticProgram.Solver.Identity
import QuadraticProgram.Solver.Problem
import QuadraticProgram.Text.Blank
import QuadraticProgram.Text.Digit
import QuadraticProgram.Text.Line
import QuadraticProgram.Text.Percent
import QuadraticProgram.Text.Quoted
import QuadraticProgram.Text.Switch
import QuadraticProgram.Text.Visible
import QuadraticProgram.Text.Word
import QuadraticProgram.Proofs.Exact.Matrix
import QuadraticProgram.Proofs.Factorization.Triangular
import QuadraticProgram.Proofs.Factorization.Exact
import QuadraticProgram.Proofs.LeastSquares.Rank
import QuadraticProgram.Proofs.LeastSquares.Pivoted
import QuadraticProgram.Proofs.Constraints.Reduction
import QuadraticProgram.Proofs.Kkt.Objective
import QuadraticProgram.Proofs.Kkt.RangeSpace
import QuadraticProgram.Proofs.Kkt.System
import QuadraticProgram.Proofs.Kkt.Agreement
import QuadraticProgram.Proofs.Program.Assembly
import QuadraticProgram.Proofs.Program.Meaning
import QuadraticProgram.Proofs.Solver.Dense
import QuadraticProgram.Proofs.Factorization.Reflection
import QuadraticProgram.Proofs.Program.Optimality
import QuadraticProgram.Proofs.Factorization.Cholesky
import QuadraticProgram.Proofs.Factorization.SingularValues
import QuadraticProgram.Proofs.Factorization.Standard
import QuadraticProgram.Proofs.Constraints.Parallel
import QuadraticProgram.Proofs.Evaluator.Read
import QuadraticProgram.Proofs.LeastSquares.Coordinates
import QuadraticProgram.Proofs.LeastSquares.Signs
import QuadraticProgram.Proofs.Constraints.Invariance
import QuadraticProgram.Proofs.Solver.Logged
import QuadraticProgram.Proofs.Solver.Execution
import QuadraticProgram.Proofs.Kkt.Defect
import QuadraticProgram.Proofs.Solver.Fallback
import QuadraticProgram.Proofs.Solver.Representation
import QuadraticProgram.Proofs.Solver.Rescaling
import QuadraticProgram.Proofs.Factorization.PivotOrder
import QuadraticProgram.Proofs.Factorization.ReflectionOrder
import QuadraticProgram.Proofs.Solver.Reordering
import QuadraticProgram.Proofs.Program.Accumulation
import QuadraticProgram.Proofs.Exact.Linear
import QuadraticProgram.Proofs.LeastSquares.Linear
import QuadraticProgram.Proofs.Solver.Superposition
import QuadraticProgram.Proofs.LeastSquares.Scaling
import QuadraticProgram.Proofs.LeastSquares.Balance
import QuadraticProgram.Proofs.LeastSquares.Conditioning
import QuadraticProgram.Proofs.Constraints.Orthonormal
import QuadraticProgram.Proofs.Solver.ScaledObjective
import QuadraticProgram.Proofs.Exact.Form
import QuadraticProgram.Proofs.Kkt.Enforcement
import QuadraticProgram.Proofs.Program.Stacking
import QuadraticProgram.Proofs.Program.InPlace
import QuadraticProgram.Proofs.Program.Writing
import QuadraticProgram.Proofs.Program.Operations
import QuadraticProgram.Proofs.Program.Reachable
import QuadraticProgram.Proofs.Program.Atomicity
import QuadraticProgram.Proofs.Session.Solving
import QuadraticProgram.Proofs.Exact.Polarization
import QuadraticProgram.Proofs.Program.CostFunction
import QuadraticProgram.Proofs.Program.Invariant
import QuadraticProgram.Proofs.Kkt.Certificate
import QuadraticProgram.Proofs.LeastSquares.Discarded
import QuadraticProgram.Proofs.Constraints.Cutoff
import QuadraticProgram.Proofs.Solver.Totality
import QuadraticProgram.Proofs.Program.Appearance
import QuadraticProgram.Proofs.Program.Renumbering
import QuadraticProgram.Proofs.Program.Indexed
import QuadraticProgram.Proofs.Program.Requests
import QuadraticProgram.Proofs.Program.Isolation
import QuadraticProgram.Proofs.Binary.Comparison
import QuadraticProgram.Proofs.Logging.Registry
import QuadraticProgram.Proofs.Logging.Level
import QuadraticProgram.Proofs.Solver.Observation
import QuadraticProgram.Proofs.Solver.Rejection
import QuadraticProgram.Proofs.LeastSquares.Optimal
import QuadraticProgram.Proofs.LeastSquares.Truncation
import QuadraticProgram.Proofs.Constraints.Basis
import QuadraticProgram.Proofs.Program.History
import QuadraticProgram.Proofs.Program.Support
import QuadraticProgram.Proofs.Logging.Uniform
import QuadraticProgram.Proofs.Program.Reading
import QuadraticProgram.Proofs.Arrays.Blocks
import QuadraticProgram.Proofs.Arrays.Residuals
import QuadraticProgram.Proofs.Kkt.Residuals
