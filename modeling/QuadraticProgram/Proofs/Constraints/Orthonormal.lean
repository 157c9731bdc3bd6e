import Mathlib.LinearAlgebra.Matrix.Rank
import QuadraticProgram.Proofs.Constraints.Reduction
import QuadraticProgram.Proofs.LeastSquares.Conditioning

/-! # Orthonormal constraint rows

Rows of unit length that are orthogonal to each other are neither scaled nor set aside.
-/

namespace QuadraticProgram
open Matrix

variable {m n : ℕ} {F : Factorizations ℝ} {A : Mat ℝ m n} {b : Vec ℝ m}

/-- Unit rows that are all kept are their own reduction. -/
theorem Reduced.Of.eq_of_unit {red : Reduced ℝ m n} (h : red.Of A b)
    (hscales : ∀ i, rowScales A i = 1) (hnum : red.numRows = m)
    (hrows : ∀ k, (red.rows k).val = k.val) :
    red = ⟨Vec.ofFn fun _ => 1, m, Vec.ofFn id, A, b⟩ := by
  obtain ⟨hmono, hs, hmatrix, htarget⟩ := h
  obtain ⟨scales, k, rows, R, t⟩ := red
  dsimp only at hs hmatrix htarget hnum hrows
  subst hnum hs
  have hid : ∀ i, rows i = i := fun i => Fin.ext (hrows i)
  simp only [hid, hscales, div_one] at hmatrix htarget
  congr 1
  · exact Vec.ext_get fun i => by rw [hscales, Vec.get_ofFn]
  · exact Vec.ext_get fun i => by rw [hid, Vec.get_ofFn, id]
  · exact Mat.ext_get hmatrix
  · exact Vec.ext_get htarget

section Orthonormal

variable (hA : A.toMatrix * A.toMatrixᵀ = 1)
include hA

theorem rowScales_of_orthonormal (i : Fin m) : rowScales A i = 1 := by
  have hrow : A.toMatrix i ⬝ᵥ A.toMatrix i = 1 := by
    have h := congrFun (congrFun hA i) i
    rwa [one_apply_eq] at h
  rw [rowScales_apply, Vec.norm_eq, Mat.coe_row, hrow, Real.sqrt_one, if_neg one_ne_zero]

/-- All orthonormal rows are independent, and the rank decision counts them all. -/
theorem independentRows_of_orthonormal (hQ : F.ExactPivotedQR) (hc : (defaultCutoff m n : ℝ) < 1) :
    independentRows F A none = .ok (List.finRange m) := by
  have hmn : m ≤ n := by
    have hrank := rank_mul_le_left A.toMatrix A.toMatrixᵀ
    rw [hA, rank_one, Fintype.card_fin] at hrank
    exact hrank.trans (rank_le_width A.toMatrix)
  have hlength : ∀ v, (A.transpose.toMatrix *ᵥ v) ⬝ᵥ (A.transpose.toMatrix *ᵥ v) = v ⬝ᵥ v := by
    intro v
    rw [Mat.toMatrix_transpose, dotProduct_mulVec_mulVec (by rwa [transpose_transpose])]
  have hrank : (F.pivotedQR A.transpose).rank (defaultCutoff m n) = m := by
    refine ((hQ _).rank_eq_of_bounds 1 1 one_pos (fun v => ?_) (fun v => ?_) ?_).trans
      (min_eq_right hmn)
    · rw [hlength, one_mul]
    · rw [hlength, one_mul]
    · rw [one_mul]
      exact pow_lt_one₀ (defaultCutoff_nonneg m n) hc two_ne_zero
  unfold independentRows
  split
  · have hm : m = 0 := by omega
    subst hm
    rfl
  · rw [Mat.isFinite_eq_true]
    refine congrArg Except.ok (List.filter_eq_self.mpr fun i _ => ?_)
    rw [Array.contains_iff_mem, Vec.mem_toArray_iff]
    exact (hQ _).leading_surjective _ hrank i

/-- Orthonormal rows are their own reduction. -/
theorem reduceConstraints_of_orthonormal (hQ : F.ExactPivotedQR)
    (hc : (defaultCutoff m n : ℝ) < 1) (b : Vec ℝ m) :
    reduceConstraints F A b = .ok ⟨Vec.ofFn fun _ => 1, m, Vec.ofFn id, A, b⟩ := by
  have hscales := rowScales_of_orthonormal hA
  have hscaled : scaleRows A (rowScales A) = A := by
    apply Mat.ext_get
    intro i j
    rw [get_scaleRows, hscales, div_one]
  obtain ⟨red, hred⟩ := reduceConstraints_eq_ok F A b
  obtain ⟨kept, hkept, hkeeping⟩ := exists_independentRows hred
  rw [hscaled, independentRows_of_orthonormal hA hQ hc] at hkept
  obtain rfl := Except.ok.inj hkept
  rw [hred, (reduceConstraints_of hred).eq_of_unit hscales]
  · rw [hkeeping]
    exact List.length_finRange
  · subst hkeeping
    intro k
    simp [positions]

end Orthonormal

end QuadraticProgram
