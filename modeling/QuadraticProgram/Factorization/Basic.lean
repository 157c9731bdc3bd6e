import QuadraticProgram.Matrix.Basic

/-! # Matrix factorizations as data

The solvers are written against the three factorizations named here and never look inside the
algorithm that computes them: what a theorem needs of them is a property of these values.
-/

namespace QuadraticProgram

/-- A column-pivoted factorization: the columns of the matrix, taken in the order `perm`, are the
columns of `q * r`, with `q` of orthonormal columns and `r` upper triangular. -/
structure PivotedQR (α : Type) (m n : Nat) where
  q : Mat α m (min m n)
  r : Mat α (min m n) n
  perm : Vec (Fin n) n

/-- A thin singular value decomposition: the matrix is `u * diag sing * vt`, the columns of `u` and
the rows of `vt` are orthonormal, and the singular values do not increase. -/
structure ThinSVD (α : Type) (m n : Nat) where
  u : Mat α m (min m n)
  sing : Vec α (min m n)
  vt : Mat α (min m n) n

/-- One way of computing each factorization. The lower triangular Cholesky factor reads the lower
triangle only and is missing exactly when a pivot is zero or negative. -/
structure Factorizations (α : Type) where
  cholesky : {n : Nat} → Mat α n n → Option (Mat α n n)
  pivotedQR : {m n : Nat} → Mat α m n → PivotedQR α m n
  svd : {m n : Nat} → Mat α m n → ThinSVD α m n

end QuadraticProgram
