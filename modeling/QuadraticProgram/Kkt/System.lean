import QuadraticProgram.Constraints.Reduction
import QuadraticProgram.LeastSquares.Truncated

/-! # The optimality conditions as one linear system

Point and multipliers together solve the system with matrix `[[G, -Aᵀ], [A, 0]]` and right-hand side
`[-c; b]`. Its least-squares solution of smallest norm exists for every `G`.
-/

namespace QuadraticProgram

variable {α : Type} [Scalar α] {m n : Nat}

/-- The matrix `[[G, -Aᵀ], [A, 0]]`. -/
def kktMatrix (G : Mat α n n) (A : Mat α m n) : Mat α (n + m) (n + m) :=
  Mat.ofFn fun i j =>
    Fin.addCases (fun i => Fin.addCases (fun j => G i j) (fun j => -A j i) j)
      (fun i => Fin.addCases (fun j => A i j) (fun _ => 0) j) i

/-- The vector `[-c; b]`. -/
def kktTarget (c : Vec α n) (b : Vec α m) : Vec α (n + m) := c.neg.append b

/-- The point of the least-squares solution of smallest norm, on reduced constraints. -/
def solveFullSystem (F : Factorizations α) (G : Mat α n n) (c : Vec α n) (A : Mat α m n)
    (b : Vec α m) : Except (Fault α) (Vec α n) := do
  let reduced ← reduceConstraints F A b
  let z ← truncatedLeastSquares F (kktMatrix G reduced.matrix) (kktTarget c reduced.target) none
  .ok z.first

end QuadraticProgram
