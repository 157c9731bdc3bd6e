import QuadraticProgram.Constraints.Reduction
import QuadraticProgram.LeastSquares.Pivoted

/-! # The optimality conditions through the Schur complement

For a positive definite `G` the conditions `G x + c = Aᵀ y` and `A x = b` reduce to a system in the
multipliers alone, with matrix `A G⁻¹ Aᵀ`. It is formed from independent rows of unit length; the
multipliers of the rows left out are zero, and those of the others are scaled back.
-/

namespace QuadraticProgram

variable {α : Type} [Scalar α] {m n : Nat}

/-- The solution of `G x = v` from the lower triangular factor of `G`. Both have to be finite. -/
def factorSolve (L : Mat α n n) (v : Vec α n) : Except (Fault α) (Vec α n) :=
  if v.isFinite && L.isFinite then
    .ok (Triangular.solveUpper L.transpose (Triangular.solveLower L v))
  else .error .notFinite

/-- The solution of `G x = v` for every row `v` of a matrix. -/
def factorSolveRows (L : Mat α n n) (V : Mat α m n) : Except (Fault α) (Mat α m n) :=
  if V.isFinite && L.isFinite then
    .ok ⟨V.rows.map fun v => Triangular.solveUpper L.transpose (Triangular.solveLower L v)⟩
  else .error .notFinite

/-- A minimizer together with its equality multipliers. -/
structure PrimalDual (α : Type) (m n : Nat) where
  x : Vec α n
  y : Vec α m

/-- The multipliers of reduced constraints, spread over all rows. -/
def rangeSpaceMultipliers (F : Factorizations α) (L : Mat α n n) (c : Vec α n)
    (reduced : Reduced α m n) : Except (Fault α) (Vec α m) :=
  if reduced.numRows = 0 then .ok Vec.zero
  else do
    let w ← factorSolveRows L reduced.matrix
    let schur := Mat.ofFn fun i j => Vec.dot (reduced.matrix.row i) (w.row j)
    let y ← pivotedLeastSquares F schur ((w.mulVec c).add reduced.target) none
    .ok (Vec.scatter reduced.rows (y.div (reduced.scales.select reduced.rows)))

/-- Solve the optimality conditions from the lower triangular factor of a positive definite `G`. -/
def solveRangeSpace (F : Factorizations α) (L : Mat α n n) (c : Vec α n) (A : Mat α m n)
    (b : Vec α m) : Except (Fault α) (PrimalDual α m n) :=
  if m = 0 then do
    let x ← factorSolve L c.neg
    .ok ⟨x, Vec.zero⟩
  else do
    let reduced ← reduceConstraints F A b
    let y ← rangeSpaceMultipliers F L c reduced
    let x ← factorSolve L ((A.transposeMulVec y).sub c)
    .ok ⟨x, y⟩

end QuadraticProgram
