import QuadraticProgram.Factorization.Cholesky
import QuadraticProgram.Factorization.Rotation

/-! # The factorizations that the program runs with -/

namespace QuadraticProgram

/-- Cholesky by rows, pivoted reflections and plane rotations. -/
def Factorizations.standard {α : Type} [Scalar α] : Factorizations α where
  cholesky := Cholesky.factor
  pivotedQR := Reflection.factor
  svd := Rotation.decompose

end QuadraticProgram
