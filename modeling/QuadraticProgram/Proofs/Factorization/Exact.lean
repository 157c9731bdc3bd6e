import QuadraticProgram.LeastSquares.Pivoted
import QuadraticProgram.LeastSquares.Truncated
import QuadraticProgram.Proofs.Factorization.Triangular

/-! # What exact factorizations promise

The promises are those that the makers of numerical factorizations document, read over the reals.
Nothing is promised about how a factorization is found, nor which one of several is taken.
-/

namespace QuadraticProgram
open Matrix

variable {m n : ℕ}

/-- The symmetric matrix that the lower triangle of a matrix defines. -/
def Mat.symmetrized (A : Mat ℝ n n) : Mat ℝ n n :=
  Mat.ofFn fun i j => if j ≤ i then A i j else A j i

theorem Mat.symmetrized_of_isSymm {A : Mat ℝ n n} (hA : A.toMatrix.IsSymm) : A.symmetrized = A := by
  apply ext_get
  intro i j
  rw [symmetrized, get_ofFn]
  split
  · rfl
  · exact hA.apply i j

/-- A column-pivoted factorization of `M` over exact numbers. The magnitudes on the diagonal of `r`
do not increase. -/
structure PivotedQR.Exact (f : PivotedQR ℝ m n) (M : Mat ℝ m n) : Prop where
  perm_injective : Function.Injective f.perm.get
  orthonormal : f.q.toMatrixᵀ * f.q.toMatrix = 1
  triangular : ∀ i j, j.val < i.val → f.r i j = 0
  product : M.toMatrix.submatrix id f.perm.get = f.q.toMatrix * f.r.toMatrix
  antitone : Antitone f.pivots.get

/-- At every step the column of the pivot is no shorter than any other column that remains. -/
def PivotedQR.Greedy (f : PivotedQR ℝ m n) : Prop :=
  ∀ (i : Fin (min m n)) (c : Fin n), i.val ≤ c.val →
    tailSq (f.r.col c).get i ≤ f.pivots i * f.pivots i

/-- A thin singular value decomposition of `M` over exact numbers. -/
structure ThinSVD.Exact (d : ThinSVD ℝ m n) (M : Mat ℝ m n) : Prop where
  left_orthonormal : d.u.toMatrixᵀ * d.u.toMatrix = 1
  right_orthonormal : d.vt.toMatrix * d.vt.toMatrixᵀ = 1
  product : M.toMatrix = d.u.toMatrix * diagonal d.sing.get * d.vt.toMatrix
  nonneg : ∀ i, 0 ≤ d.sing i
  antitone : Antitone d.sing.get

namespace Factorizations

/-- Cholesky factors exist for the lower triangles of positive definite matrices and multiply back
to them. What a factor holds above its diagonal does not matter. -/
structure ExactCholesky (F : Factorizations ℝ) : Prop where
  isSome : ∀ {n} {G : Mat ℝ n n}, G.symmetrized.toMatrix.PosDef → (F.cholesky G).isSome
  diag_pos : ∀ {n} {G L : Mat ℝ n n}, F.cholesky G = some L → ∀ i, 0 < L i i
  product : ∀ {n} {G L : Mat ℝ n n}, F.cholesky G = some L →
    L.lower * L.lowerᵀ = G.symmetrized.toMatrix

/-- Every column-pivoted factorization is exact. -/
def ExactPivotedQR (F : Factorizations ℝ) : Prop :=
  ∀ ⦃m n⦄ (M : Mat ℝ m n), (F.pivotedQR M).Exact M

/-- Every column-pivoted factorization takes a longest column as its next pivot. -/
def GreedyPivotedQR (F : Factorizations ℝ) : Prop :=
  ∀ ⦃m n⦄ (M : Mat ℝ m n), (F.pivotedQR M).Greedy

/-- Every singular value decomposition is exact. -/
def ExactSVD (F : Factorizations ℝ) : Prop :=
  ∀ ⦃m n⦄ (M : Mat ℝ m n), (F.svd M).Exact M

end Factorizations

/-- A rank decision that takes no nonzero pivot for zero. -/
def PivotedQR.KeepsNonzero (f : PivotedQR ℝ m n) (cutoff : ℝ) : Prop :=
  ∀ i, f.pivots i ≠ 0 → exceeds f.pivots cutoff i = true

/-- A rank decision that takes no nonzero singular value for zero. -/
def ThinSVD.KeepsNonzero (d : ThinSVD ℝ m n) (cutoff : ℝ) : Prop :=
  ∀ i, d.sing i ≠ 0 → exceeds d.sing cutoff i = true

end QuadraticProgram
