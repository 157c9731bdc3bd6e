import QuadraticProgram.Factorization.Standard
import QuadraticProgram.Proofs.Factorization.Cholesky
import QuadraticProgram.Proofs.Factorization.ReflectionOrder
import QuadraticProgram.Proofs.Factorization.SingularValues

/-! # Factorizations that keep their promises -/

namespace QuadraticProgram.Factorizations

theorem standard_exactCholesky : (standard : Factorizations ℝ).ExactCholesky where
  isSome hG := Cholesky.factor_isSome hG
  diag_pos hL i := (Cholesky.factor_finished hL).diag_pos i i.isLt
  product hL := Cholesky.factor_product hL

theorem standard_exactPivotedQR : (standard : Factorizations ℝ).ExactPivotedQR :=
  fun _ _ M => Reflection.factor_exact M

theorem standard_greedyPivotedQR : (standard : Factorizations ℝ).GreedyPivotedQR :=
  fun _ _ M => Reflection.factor_greedy M

theorem standard_firstLongestPivotedQR : (standard : Factorizations ℝ).FirstLongestPivotedQR :=
  fun _ _ M => Reflection.factor_takesFirstLongest M

/-- Plane rotations stop at an accuracy; an exact decomposition takes their place. -/
noncomputable def exact : Factorizations ℝ where
  cholesky := Cholesky.factor
  pivotedQR := Reflection.factor
  svd M := Classical.choose (ThinSVD.exists_exact M)

theorem exact_exactCholesky : exact.ExactCholesky where
  isSome := standard_exactCholesky.isSome
  diag_pos := standard_exactCholesky.diag_pos
  product := standard_exactCholesky.product

theorem exact_exactPivotedQR : exact.ExactPivotedQR := standard_exactPivotedQR

theorem exact_greedyPivotedQR : exact.GreedyPivotedQR := standard_greedyPivotedQR

theorem exact_firstLongestPivotedQR : exact.FirstLongestPivotedQR :=
  standard_firstLongestPivotedQR

theorem exact_exactSVD : exact.ExactSVD := fun _ _ M =>
  Classical.choose_spec (ThinSVD.exists_exact M)

end QuadraticProgram.Factorizations
