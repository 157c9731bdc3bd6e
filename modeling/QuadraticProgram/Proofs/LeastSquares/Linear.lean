import QuadraticProgram.Proofs.LeastSquares.Pivoted
import QuadraticProgram.Proofs.LeastSquares.Truncated

/-! # Least squares are linear in the right-hand side

The factorization, the rank decision and every reason to fail depend on the matrix alone, so both
least-squares solvers are linear runs. Nothing is asked of the factorizations.
-/

namespace QuadraticProgram
open Matrix

variable {m n r : ℕ}

theorem PivotedQR.isLinearMap_project (f : PivotedQR ℝ m n) (h : r ≤ min m n) :
    IsLinearMap ℝ (f.project r h) :=
  Vec.isLinearMap_of_mulVec (f.leadingQ r h)ᵀ (f.coe_project h)

theorem PivotedQR.linearRun_solveLeading (f : PivotedQR ℝ m n) (h : r ≤ min m n) :
    LinearRun (f.solveLeading r h) := by
  by_cases hd : Triangular.hasZeroDiagonal (f.leadingBlock r h) = true
  · have hrun : f.solveLeading r h = fun _ => .error .singularTriangle := by
      funext rhs
      simp [solveLeading, hd]
    rw [hrun]
    exact .error _
  · have hrun : f.solveLeading r h = fun rhs => .ok (Vec.scatter (f.leading r h)
        (Triangular.solveUpper (f.leadingBlock r h) (f.project r h rhs))) := by
      funext rhs
      simp [solveLeading, hd]
    rw [hrun]
    exact .ok (isLinearMap_comp (Vec.isLinearMap_scatter _)
      (isLinearMap_comp (Triangular.isLinearMap_solveUpper _) (f.isLinearMap_project h)))

theorem linearRun_pivotedLeastSquares (F : Factorizations ℝ) (M : Mat ℝ m n)
    (cutoff : Option ℝ) : LinearRun fun rhs => pivotedLeastSquares F M rhs cutoff := by
  unfold pivotedLeastSquares
  simp only [Mat.isFinite_eq_true, Bool.not_true, Bool.false_eq_true, if_false]
  split
  · exact .ok (0 : Vec ℝ m →ₗ[ℝ] Vec ℝ n).isLinear
  · split
    · exact .ok (0 : Vec ℝ m →ₗ[ℝ] Vec ℝ n).isLinear
    · exact (F.pivotedQR M).linearRun_solveLeading _

theorem ThinSVD.isLinearMap_solve (d : ThinSVD ℝ m n) (cutoff : ℝ) :
    IsLinearMap ℝ (d.solve cutoff) :=
  Vec.isLinearMap_of_mulVec _ (d.coe_solve_truncated cutoff)

theorem linearRun_truncatedLeastSquares (F : Factorizations ℝ) (M : Mat ℝ m n)
    (cutoff : Option ℝ) : LinearRun fun rhs => truncatedLeastSquares F M rhs cutoff := by
  unfold truncatedLeastSquares
  simp only [Mat.isFinite_eq_true, Bool.not_true, Bool.false_eq_true, if_false]
  split
  · exact .ok (0 : Vec ℝ m →ₗ[ℝ] Vec ℝ n).isLinear
  · exact .ok ((F.svd M).isLinearMap_solve _)

theorem exists_truncatedLeastSquares (F : Factorizations ℝ) (M : Mat ℝ m n) (rhs : Vec ℝ m)
    (cutoff : Option ℝ) : ∃ z, truncatedLeastSquares F M rhs cutoff = .ok z := by
  unfold truncatedLeastSquares
  split
  · exact ⟨_, rfl⟩
  · rw [Mat.isFinite_eq_true]
    exact ⟨_, rfl⟩

end QuadraticProgram
