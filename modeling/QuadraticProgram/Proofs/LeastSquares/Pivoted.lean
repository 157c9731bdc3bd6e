import Mathlib.LinearAlgebra.Matrix.Block
import Mathlib.LinearAlgebra.Matrix.ToLinearEquiv
import QuadraticProgram.Proofs.LeastSquares.Rank

/-! # Least squares on independent columns

The columns that a pivoted factorization keeps are independent, and the solution carried by them
sends the matrix to the orthogonal projection of the right-hand side onto their span. If a square
matrix keeps all its columns, the system is solved exactly.
-/

namespace QuadraticProgram
open Matrix

variable {m n r : ℕ}

namespace PivotedQR

variable {f : PivotedQR ℝ m n} {M : Mat ℝ m n} {cutoff : ℝ}

/-- The leading columns of `q`. -/
def leadingQ (f : PivotedQR ℝ m n) (r : ℕ) (h : r ≤ min m n) : Matrix (Fin m) (Fin r) ℝ :=
  f.q.toMatrix.submatrix id (pivot h)

theorem pivot_injective (h : r ≤ min m n) : Function.Injective (pivot h) :=
  fun _ _ e => Fin.ext (Fin.mk.inj e)

theorem pivotCol_injective (h : r ≤ min m n) : Function.Injective (pivotCol h) :=
  fun _ _ e => Fin.ext (Fin.mk.inj e)

theorem coe_leading (f : PivotedQR ℝ m n) (h : r ≤ min m n) :
    (f.leading r h).get = f.perm.get ∘ pivotCol h :=
  funext fun i => Vec.get_ofFn _ i

theorem Exact.leading_injective (hf : f.Exact M) (h : r ≤ min m n) :
    Function.Injective (f.leading r h).get := by
  rw [coe_leading]
  exact hf.perm_injective.comp (pivotCol_injective h)

/-- As many leading columns as there are columns are all of them. -/
theorem Exact.leading_surjective (hf : f.Exact M) (h : r ≤ min m n) (hr : r = n) :
    Function.Surjective (f.leading r h).get := by
  refine ((Fintype.bijective_iff_injective_and_card _).mpr ⟨hf.leading_injective h, ?_⟩).surjective
  rw [Fintype.card_fin, Fintype.card_fin, hr]

theorem Exact.leadingQ_orthonormal (hf : f.Exact M) (h : r ≤ min m n) :
    (f.leadingQ r h)ᵀ * f.leadingQ r h = 1 := by
  have hq : (f.leadingQ r h)ᵀ * f.leadingQ r h =
      (f.q.toMatrixᵀ * f.q.toMatrix).submatrix (pivot h) (pivot h) := rfl
  rw [hq, hf.orthonormal, submatrix_one _ (pivot_injective h)]

theorem Exact.leadingBlock_isUpperTriangular (hf : f.Exact M) (h : r ≤ min m n) :
    (f.leadingBlock r h).toMatrix.IsUpperTriangular := by
  intro i j hij
  rw [Mat.toMatrix_apply, leadingBlock, Mat.get_ofFn]
  exact hf.triangular _ _ hij

theorem Exact.leadingBlock_upper (hf : f.Exact M) (h : r ≤ min m n) :
    (f.leadingBlock r h).upper = (f.leadingBlock r h).toMatrix := by
  ext i j
  simp only [Mat.upper, of_apply, Mat.toMatrix_apply]
  by_cases hij : i ≤ j
  · rw [if_pos hij]
  · rw [if_neg hij]
    exact (hf.leadingBlock_isUpperTriangular h (not_le.mp hij)).symm

/-- The leading columns of the matrix are combinations of the leading columns of `q` alone. -/
theorem Exact.submatrix_leading (hf : f.Exact M) (h : r ≤ min m n) :
    M.toMatrix.submatrix id (f.leading r h).get =
      f.leadingQ r h * (f.leadingBlock r h).toMatrix := by
  ext i j
  have hM := congrFun (congrFun hf.product i) (pivotCol h j)
  rw [coe_leading]
  apply hM.trans
  change ∑ l, f.q i l * f.r l (pivotCol h j) =
    ∑ l, f.q i (pivot h l) * (f.leadingBlock r h).toMatrix l j
  symm
  refine Finset.sum_of_injOn (pivot h) (pivot_injective h).injOn
    (fun _ _ => Finset.mem_coe.mpr (Finset.mem_univ _)) ?_ ?_
  · -- below the leading block the leading columns of `r` are zero
    intro l _ hl
    have hlr : r ≤ l.val := by
      by_contra hlt
      exact hl ⟨⟨l, not_le.mp hlt⟩, Finset.mem_coe.mpr (Finset.mem_univ _), rfl⟩
    have hz : f.r l (pivotCol h j) = 0 := hf.triangular _ _ (lt_of_lt_of_le j.isLt hlr)
    rw [hz, mul_zero]
  · intro l _
    rw [Mat.toMatrix_apply, leadingBlock, Mat.get_ofFn]

theorem Exact.leadingBlock_injective (hf : f.Exact M) (hc : 0 ≤ cutoff)
    {s : Fin (f.rank cutoff) → ℝ}
    (hs : (f.leadingBlock (f.rank cutoff) (f.rank_le cutoff)).toMatrix *ᵥ s = 0) : s = 0 := by
  refine eq_zero_of_mulVec_eq_zero ?_ hs
  rw [det_of_isUpperTriangular (hf.leadingBlock_isUpperTriangular _), Finset.prod_ne_zero_iff]
  exact fun i _ => hf.leadingBlock_diag_ne_zero hc i

/-- The columns kept are independent. -/
theorem Exact.leading_independent (hf : f.Exact M) (hc : 0 ≤ cutoff)
    {s : Fin (f.rank cutoff) → ℝ}
    (hs : M.toMatrix.submatrix id (f.leading _ (f.rank_le cutoff)).get *ᵥ s = 0) : s = 0 := by
  apply hf.leadingBlock_injective hc
  have h := congrArg (fun v => (f.leadingQ _ (f.rank_le cutoff))ᵀ *ᵥ v) hs
  simpa only [hf.submatrix_leading, ← mulVec_mulVec, mulVec_zero, mulVec_mulVec, ← Matrix.mul_assoc,
    hf.leadingQ_orthonormal, Matrix.one_mul] using h

/-- The leading block of independent columns is invertible. -/
theorem Exact.leadingBlock_det_ne_zero (hf : f.Exact M) (h : r ≤ min m n)
    (hM : ∀ v, M.toMatrix *ᵥ v = 0 → v = 0) : (f.leadingBlock r h).toMatrix.det ≠ 0 := by
  intro h0
  obtain ⟨s, hs, hBs⟩ := exists_mulVec_eq_zero_iff.mpr h0
  have hMs : M.toMatrix *ᵥ (Vec.scatter (f.leading r h) (Vec.ofFn s)).get = 0 := by
    rw [Vec.mulVec_scatter _ (hf.leading_injective h), hf.submatrix_leading, Vec.coe_ofFn,
      ← mulVec_mulVec, hBs, mulVec_zero]
  refine hs (funext fun j => ?_)
  have hj := Vec.scatter_apply (hf.leading_injective h) (Vec.ofFn s) j
  rw [Vec.get_ofFn] at hj
  exact hj.symm.trans (congrFun (hM _ hMs) _)

/-- A matrix of independent columns has no zero pivot. -/
theorem Exact.pivots_ne_zero (hf : f.Exact M) (hM : ∀ v, M.toMatrix *ᵥ v = 0 → v = 0)
    (i : Fin (min m n)) : f.pivots i ≠ 0 := by
  have hdet := hf.leadingBlock_det_ne_zero le_rfl hM
  rw [det_of_isUpperTriangular (hf.leadingBlock_isUpperTriangular le_rfl),
    Finset.prod_ne_zero_iff] at hdet
  have hi := hdet i (Finset.mem_univ _)
  rw [Mat.toMatrix_apply, leadingBlock, Mat.get_ofFn] at hi
  rw [pivots_apply, abs_ne_zero]
  exact hi

/-- A decision that takes no nonzero pivot for zero counts all pivots of independent columns. -/
theorem Exact.rank_eq_min (hf : f.Exact M) (hM : ∀ v, M.toMatrix *ᵥ v = 0 → v = 0)
    (hk : f.KeepsNonzero cutoff) : f.rank cutoff = min m n := by
  apply le_antisymm (f.rank_le cutoff)
  by_contra hlt
  have h := (hf.lt_rank_iff cutoff ⟨_, not_le.mp hlt⟩).mpr (hk _ (hf.pivots_ne_zero hM _))
  exact lt_irrefl _ h

/-- A decision that takes no nonzero pivot for zero keeps all columns of an invertible matrix. -/
theorem Exact.rank_eq {f : PivotedQR ℝ n n} {M : Mat ℝ n n} (hf : f.Exact M)
    (hM : M.toMatrix.det ≠ 0) (hk : f.KeepsNonzero cutoff) : f.rank cutoff = n :=
  (hf.rank_eq_min (fun _ => eq_zero_of_mulVec_eq_zero hM) hk).trans (min_self n)

theorem coe_project (f : PivotedQR ℝ m n) (h : r ≤ min m n) (rhs : Vec ℝ m) :
    (f.project r h rhs).get = (f.leadingQ r h)ᵀ *ᵥ rhs.get := by
  funext j
  rw [project, Vec.get_ofFn, Scalar.sum_eq]
  rfl

/-- The solution on the leading columns exists and solves the projected system. -/
theorem Exact.solveLeading_eq (hf : f.Exact M) (hc : 0 ≤ cutoff) (rhs : Vec ℝ m) :
    ∃ s : Vec ℝ (f.rank cutoff),
      f.solveLeading _ (f.rank_le cutoff) rhs =
        .ok (Vec.scatter (f.leading _ (f.rank_le cutoff)) s) ∧
      (f.leadingBlock _ (f.rank_le cutoff)).toMatrix *ᵥ s.get =
        (f.leadingQ _ (f.rank_le cutoff))ᵀ *ᵥ rhs.get := by
  have hdiag := hf.leadingBlock_diag_ne_zero hc
  refine ⟨Triangular.solveUpper (f.leadingBlock _ (f.rank_le cutoff))
    (f.project _ (f.rank_le cutoff) rhs), ?_, ?_⟩
  · simp [solveLeading, Triangular.hasZeroDiagonal_eq_false hdiag]
  · rw [← hf.leadingBlock_upper, Triangular.upper_mulVec_solveUpper hdiag, coe_project]

theorem leadingQ_mulVec_of_rank_eq_zero (f : PivotedQR ℝ m n) {h : r ≤ min m n} (hr : r = 0)
    (v : Fin r → ℝ) : f.leadingQ r h *ᵥ v = 0 := by
  subst hr
  funext i
  simp [mulVec, dotProduct]

end PivotedQR

open PivotedQR

/-- Least squares by pivoted factorization always has a result. It is carried by the columns kept,
and its image is the projection of the right-hand side onto their span. -/
theorem pivotedLeastSquares_eq {F : Factorizations ℝ} (hF : F.ExactPivotedQR) (M : Mat ℝ m n)
    (rhs : Vec ℝ m) (cutoff : Option ℝ) (hc : 0 ≤ cutoff.getD (defaultCutoff m n)) :
    ∃ y, pivotedLeastSquares F M rhs cutoff = .ok y ∧
      (∀ j, j ∉ Set.range ((F.pivotedQR M).leading _ ((F.pivotedQR M).rank_le
        (cutoff.getD (defaultCutoff m n)))).get → y j = 0) ∧
      M.toMatrix *ᵥ y.get = (F.pivotedQR M).leadingQ _ ((F.pivotedQR M).rank_le _) *ᵥ
        (((F.pivotedQR M).leadingQ _ ((F.pivotedQR M).rank_le
          (cutoff.getD (defaultCutoff m n))))ᵀ *ᵥ rhs.get) := by
  have hf := hF M
  by_cases hr : (F.pivotedQR M).rank (cutoff.getD (defaultCutoff m n)) = 0
  · refine ⟨Vec.zero, ?_, fun j _ => congrFun Vec.coe_zero j, ?_⟩
    · simp [pivotedLeastSquares, hr]
    · rw [Vec.coe_zero, mulVec_zero, leadingQ_mulVec_of_rank_eq_zero _ hr]
  · have hne : ¬(m = 0 ∨ n = 0) := by
      intro h
      have := (F.pivotedQR M).rank_le (cutoff.getD (defaultCutoff m n))
      omega
    obtain ⟨s, hs, hBs⟩ := hf.solveLeading_eq hc rhs
    refine ⟨_, ?_, fun j hj => Vec.scatter_apply_of_notMem hj s, ?_⟩
    · simp only [pivotedLeastSquares, if_neg hne, if_neg hr, Mat.isFinite_eq_true, hs]
      rfl
    · rw [Vec.mulVec_scatter _ (hf.leading_injective _), hf.submatrix_leading, ← mulVec_mulVec, hBs]

/-- If a square matrix keeps all its columns, the system is solved. -/
theorem pivotedLeastSquares_solves {F : Factorizations ℝ} (hF : F.ExactPivotedQR) (M : Mat ℝ n n)
    (rhs : Vec ℝ n) (hr : (F.pivotedQR M).rank (defaultCutoff n n) = n) {y : Vec ℝ n}
    (hy : pivotedLeastSquares F M rhs none = .ok y) : M.toMatrix *ᵥ y.get = rhs.get := by
  obtain ⟨y', hy', -, hM⟩ := pivotedLeastSquares_eq hF M rhs none
    (defaultCutoff_nonneg n n)
  obtain rfl : y' = y := Except.ok.inj (hy'.symm.trans hy)
  have horth := (mul_eq_one_comm_of_equiv (finCongr hr)).mp
    ((hF M).leadingQ_orthonormal ((F.pivotedQR M).rank_le (defaultCutoff n n)))
  apply hM.trans
  rw [mulVec_mulVec]
  exact (congrArg (fun Q => Q *ᵥ rhs.get) horth).trans (one_mulVec _)

end QuadraticProgram
