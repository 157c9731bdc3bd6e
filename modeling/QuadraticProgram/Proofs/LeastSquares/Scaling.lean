import QuadraticProgram.Proofs.Exact.Linear
import QuadraticProgram.Proofs.LeastSquares.Signs

/-! # Multiples of a matrix

A positive multiple of a matrix is factorized like the matrix, with a multiple of the triangular
factor. So the columns are taken in the same order, a relative cutoff counts as many pivots, and the
basic solution is divided by the factor.
-/

namespace QuadraticProgram
open Matrix

variable {m n : ℕ} {a : ℝ}

theorem IsFirstLargest.mul {values : Fin n → ℝ} {j p : Fin n} (ha : 0 < a)
    (h : IsFirstLargest values j p) : IsFirstLargest (fun v => a * values v) j p where
  le := h.le
  largest v hv := mul_le_mul_of_nonneg_left (h.largest v hv) ha.le
  first v hv hlt := mul_lt_mul_of_pos_left (h.first v hv hlt) ha

namespace PivotedQR

/-- The factorization with a multiple of the triangular factor. -/
noncomputable def scaled (a : ℝ) (f : PivotedQR ℝ m n) : PivotedQR ℝ m n := { f with r := a • f.r }

variable {f : PivotedQR ℝ m n} {M : Mat ℝ m n}

theorem pivots_scaled (ha : 0 < a) (f : PivotedQR ℝ m n) (i : Fin (min m n)) :
    (f.scaled a).pivots i = a * f.pivots i := by
  rw [pivots_apply, pivots_apply, scaled, Mat.smul_apply, abs_mul, abs_of_pos ha]

theorem rank_scaled (ha : 0 < a) (f : PivotedQR ℝ m n) (cutoff : ℝ) :
    (f.scaled a).rank cutoff = f.rank cutoff := by
  apply List.countP_congr
  intro i _
  rw [exceeds_iff, exceeds_iff, pivots_scaled ha, pivots_scaled ha, mul_assoc,
    mul_lt_mul_iff_right₀ ha]

theorem Exact.scaled (hf : f.Exact M) (ha : 0 < a) : (f.scaled a).Exact (a • M) where
  perm_injective := hf.perm_injective
  orthonormal := hf.orthonormal
  triangular i j hij := by
    rw [PivotedQR.scaled, Mat.smul_apply, hf.triangular i j hij, mul_zero]
  product := by
    rw [PivotedQR.scaled, Mat.toMatrix_smul, Mat.toMatrix_smul, Matrix.mul_smul, ← hf.product]
    rfl
  antitone i k hik := by
    rw [pivots_scaled ha, pivots_scaled ha]
    exact mul_le_mul_of_nonneg_left (hf.antitone hik) ha.le

theorem remaining_scaled (f : PivotedQR ℝ m n) (M : Mat ℝ m n) (t : ℕ) (v : Fin n) :
    (f.scaled a).remaining (a • M) t v = a * a * f.remaining M t v := by
  have hcoords : (f.scaled a).coords (a • M) v = a • f.coords M v := by
    rw [coords, coords, ← mulVec_smul]
    congr 1
    funext i
    rw [Mat.get_col, Mat.smul_apply, Pi.smul_apply, Mat.get_col, smul_eq_mul]
  rw [remaining, remaining, hcoords, tailSq, tailSq, Finset.mul_sum]
  apply Finset.sum_congr rfl
  intro i _
  rw [mul_ite, mul_zero, Pi.smul_apply, smul_eq_mul, mul_mul_mul_comm]

theorem TakesFirstLongest.scaled (hg : f.TakesFirstLongest M) (ha : 0 < a) :
    (f.scaled a).TakesFirstLongest (a • M) := by
  obtain ⟨order, ho⟩ := hg
  refine ⟨order, ho.start, fun t => ?_, ho.final⟩
  obtain ⟨p, hp, hnext⟩ := ho.step t
  have hvalues : (f.scaled a).remaining (a • M) t ∘ order t =
      fun c => a * a * (f.remaining M t ∘ order t) c :=
    funext fun c => remaining_scaled f M t (order t c)
  exact ⟨p, hvalues ▸ hp.mul (mul_pos ha ha), hnext⟩

theorem SameProducts.refl (M : Mat ℝ m n) : SameProducts M M 1 where
  sign v := one_mul 1
  dotProduct_eq u v := by rw [Pi.one_apply, Pi.one_apply, one_mul, one_mul]

end PivotedQR

theorem BasicSolution.smul {M : Matrix (Fin m) (Fin n) ℝ} {kept : Set (Fin n)} {r : Fin m → ℝ}
    {y : Fin n → ℝ} (h : BasicSolution M kept r y) (ha : a ≠ 0) :
    BasicSolution (a • M) kept r (a⁻¹ • y) where
  outside j hj := by rw [Pi.smul_apply, h.outside j hj, smul_zero]
  normal j hj := by
    rw [mulVec_smul, smul_mulVec, inv_smul_smul₀ ha, transpose_smul, smul_mulVec, smul_mulVec,
      Pi.smul_apply, Pi.smul_apply, h.normal j hj]

section LeastSquares

variable {F : Factorizations ℝ}

theorem perm_pivotedQR_smul (hF : F.ExactPivotedQR) (hg : F.FirstLongestPivotedQR) (ha : 0 < a)
    (M : Mat ℝ m n) : (F.pivotedQR (a • M)).perm = (F.pivotedQR M).perm :=
  ((hg M).scaled ha).perm_eq (hg (a • M)) ((hF M).scaled ha) (hF (a • M))
    (PivotedQR.SameProducts.refl _)

/-- A relative cutoff counts as many pivots of a positive multiple. -/
theorem rank_pivotedQR_smul (hF : F.ExactPivotedQR) (hg : F.FirstLongestPivotedQR) (ha : 0 < a)
    (M : Mat ℝ m n) (cutoff : ℝ) :
    (F.pivotedQR (a • M)).rank cutoff = (F.pivotedQR M).rank cutoff := by
  have hpivots := ((hg M).scaled ha).pivots_eq (hg (a • M)) ((hF M).scaled ha) (hF (a • M))
    (PivotedQR.SameProducts.refl _)
  exact (PivotedQR.rank_congr hpivots cutoff).trans (PivotedQR.rank_scaled ha _ cutoff)

/-- A positive factor of the matrix is divided out of the solution and turns up nowhere else. -/
theorem pivotedLeastSquares_smul (hF : F.ExactPivotedQR) (hg : F.FirstLongestPivotedQR)
    (ha : 0 < a) {M : Mat ℝ m n} {r : Vec ℝ m} {y : Vec ℝ n}
    (hy : pivotedLeastSquares F M r none = .ok y) :
    pivotedLeastSquares F (a • M) r none = .ok (a⁻¹ • y) := by
  have hc := defaultCutoff_nonneg m n
  obtain ⟨w, hw, hbasic⟩ := pivotedLeastSquares_basic hF M r none hc
  obtain ⟨w', hw', hbasic'⟩ := pivotedLeastSquares_basic hF (a • M) r none hc
  obtain rfl := Except.ok.inj (hw.symm.trans hy)
  have hscaled := hbasic.smul ha.ne'
  rw [← PivotedQR.range_leading_congr (perm_pivotedQR_smul hF hg ha M)
    (rank_pivotedQR_smul hF hg ha M _), ← Mat.toMatrix_smul, ← Vec.coe_smul] at hscaled
  rw [hw', Vec.coe_injective (hbasic'.unique ((hF (a • M)).leading_injective _)
    (fun s => (hF (a • M)).leading_independent hc) hscaled)]

end LeastSquares

end QuadraticProgram
