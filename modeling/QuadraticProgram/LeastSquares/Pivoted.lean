import QuadraticProgram.Factorization.Triangular
import QuadraticProgram.LeastSquares.Rank

/-! # Least squares on independent columns

The columns that a pivoted factorization counts as independent carry the whole solution; the entries
of all other columns are zero. A system that is consistent but rank deficient is solved exactly.
-/

namespace QuadraticProgram

variable {α : Type} [Scalar α] {m n : Nat}

namespace PivotedQR

/-- The leading square block of `r`. -/
def leadingBlock (f : PivotedQR α m n) (r : Nat) (h : r ≤ min m n) : Mat α r r :=
  Mat.ofFn fun i j => f.r (pivot h i) (pivotCol h j)

/-- The inner products of the leading columns of `q` with a right-hand side. -/
def project (f : PivotedQR α m n) (r : Nat) (h : r ≤ min m n) (rhs : Vec α m) : Vec α r :=
  Vec.ofFn fun j => Scalar.sum fun i => f.q i (pivot h j) * rhs i

/-- The solution on the leading columns, spread over all columns. -/
def solveLeading (f : PivotedQR α m n) (r : Nat) (h : r ≤ min m n) (rhs : Vec α m) :
    Except (Fault α) (Vec α n) :=
  let block := f.leadingBlock r h
  let projected := f.project r h rhs
  if !block.isFinite || !projected.isFinite then .error .notFinite
  else if Triangular.hasZeroDiagonal block then .error .singularTriangle
  else .ok (Vec.scatter (f.leading r h) (Triangular.solveUpper block projected))

end PivotedQR

/-- The basic least-squares solution of `M y = rhs`. Without entries, or without a column that
counts, it is zero whatever the right-hand side. -/
def pivotedLeastSquares (F : Factorizations α) (M : Mat α m n) (rhs : Vec α m)
    (cutoff : Option α) : Except (Fault α) (Vec α n) :=
  if m = 0 ∨ n = 0 then .ok Vec.zero
  else if !M.isFinite then .error .notFinite
  else
    let f := F.pivotedQR M
    let rank := f.rank (cutoff.getD (defaultCutoff m n))
    if rank = 0 then .ok Vec.zero
    else f.solveLeading rank (f.rank_le _) rhs

end QuadraticProgram
