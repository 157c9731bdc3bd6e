import QuadraticProgram.Factorization.Triangular

/-! # Cholesky factors

The factor is built row by row from the lower triangle. A pivot that is zero or negative ends the
construction; over exact numbers this happens exactly when the symmetric matrix of that lower
triangle is not positive definite. A pivot that is no number, which only overflow brings about, goes
into the factor.
-/

namespace QuadraticProgram.Cholesky

variable {α : Type} [Scalar α] {n : Nat}

/-- The entries of row `i` left of the diagonal, from the rows above it. -/
def rowBefore (G L : Mat α n n) (i : Fin n) : Vec α n :=
  Fin.foldl i (fun r (j : Fin i) =>
    let c := Triangular.before j
    r.set c ((G i c - Triangular.leftSum L r c) / L c c)) Vec.zero

/-- Add row `i` to the rows above it, unless its pivot is zero or negative. -/
def addRow (G L : Mat α n n) (i : Fin n) : Option (Mat α n n) :=
  let r := rowBefore G L i
  let pivot := G i i - Scalar.sum fun j : Fin i => r (Triangular.before j) * r (Triangular.before j)
  if pivot ≤ 0 then none else some (L.setRow i (r.set i (Scalar.sqrt pivot)))

/-- The lower triangular `L` with `L Lᵀ` equal to the symmetric matrix of the lower triangle of `G`,
if no pivot is zero or negative. -/
def factor (G : Mat α n n) : Option (Mat α n n) :=
  Fin.foldlM n (fun L i => addRow G L i) Mat.zero

end QuadraticProgram.Cholesky
