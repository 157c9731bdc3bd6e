import QuadraticProgram.Proofs.LeastSquares.Rank

/-! # Least squares of least norm

If no nonzero singular value is discarded, the truncated solution satisfies the normal equations and
lies in the row space. These two facts are all that later modules use of it.
-/

namespace QuadraticProgram
open Matrix

variable {m n : ℕ}

/-- The least-squares solution of least norm: it satisfies the normal equations and lies in the row
space. -/
structure LeastNorm (M : Matrix (Fin m) (Fin n) ℝ) (r : Fin m → ℝ) (z : Fin n → ℝ) : Prop where
  normal : Mᵀ *ᵥ (M *ᵥ z) = Mᵀ *ᵥ r
  row_space : ∃ u, z = Mᵀ *ᵥ u

namespace LeastNorm

variable {M : Matrix (Fin m) (Fin n) ℝ} {r : Fin m → ℝ} {z w : Fin n → ℝ}

theorem mulVec_eq_of_normal (h : Mᵀ *ᵥ (M *ᵥ z) = Mᵀ *ᵥ (M *ᵥ w)) : M *ᵥ z = M *ᵥ w := by
  have hzero : (M *ᵥ (z - w)) ⬝ᵥ (M *ᵥ (z - w)) = 0 := by
    rw [dotProduct_mulVec, ← mulVec_transpose, mulVec_sub, mulVec_sub, h, sub_self,
      zero_dotProduct]
  rw [dotProduct_self_eq_zero, mulVec_sub] at hzero
  exact sub_eq_zero.mp hzero

/-- A system that has a solution is solved. -/
theorem solves (h : LeastNorm M r z) (hw : M *ᵥ w = r) : M *ᵥ z = r := by
  rw [← hw]
  apply mulVec_eq_of_normal
  rw [h.normal, hw]

/-- Every other point with the same image is longer. -/
theorem dotProduct_lt (h : LeastNorm M r z) (hw : M *ᵥ w = M *ᵥ z) (hne : w ≠ z) :
    z ⬝ᵥ z < w ⬝ᵥ w := by
  rcases h.row_space with ⟨u, hu⟩
  have hcross : z ⬝ᵥ (w - z) = 0 := by
    nth_rewrite 1 [hu]
    rw [mulVec_transpose, ← dotProduct_mulVec, mulVec_sub, hw, sub_self, dotProduct_zero]
  have hpos := dotProduct_self_pos (sub_ne_zero.mpr hne)
  have hsplit : w ⬝ᵥ w = z ⬝ᵥ z + (w - z) ⬝ᵥ (w - z) + 2 * (z ⬝ᵥ (w - z)) := by
    simp only [sub_dotProduct, dotProduct_sub, dotProduct_comm w z]
    ring
  rw [hsplit, hcross]
  linarith

end LeastNorm

namespace ThinSVD

variable {d : ThinSVD ℝ m n} {M : Mat ℝ m n} {cutoff : ℝ}

/-- What is not inverted is zero, and so is its inverse. -/
theorem truncatedInverse_apply (hk : d.KeepsNonzero cutoff) (i : Fin (min m n)) :
    d.truncatedInverse cutoff i = (d.sing i)⁻¹ := by
  rw [truncatedInverse, Vec.get_ofFn]
  by_cases hi : exceeds d.sing cutoff i = true
  · rw [if_pos hi]
    exact one_div _
  · have hzero : d.sing i = 0 := by
      by_contra hne
      exact hi (hk i hne)
    rw [if_neg hi, hzero, GroupWithZero.inv_zero]

theorem coe_solve_truncated (d : ThinSVD ℝ m n) (cutoff : ℝ) (r : Vec ℝ m) :
    (d.solve cutoff r).get =
      (d.vt.toMatrixᵀ * diagonal (d.truncatedInverse cutoff).get * d.u.toMatrixᵀ) *ᵥ r.get := by
  rw [solve, Mat.coe_transposeMulVec, Vec.coe_mul, Mat.coe_transposeMulVec, ← mulVec_mulVec,
    ← mulVec_mulVec, diagonal_mulVec_eq]

theorem coe_solve (hk : d.KeepsNonzero cutoff) (r : Vec ℝ m) : (d.solve cutoff r).get =
      (d.vt.toMatrixᵀ * diagonal (fun i => (d.sing i)⁻¹) * d.u.toMatrixᵀ) *ᵥ r.get := by
  rw [coe_solve_truncated, funext (truncatedInverse_apply hk)]

/-- Orthonormal factors that meet in a product cancel. -/
theorem mul_mul_of_mul_eq_one {p q k l : ℕ} {B : Matrix (Fin k) (Fin l) ℝ}
    {C : Matrix (Fin l) (Fin k) ℝ} (h : B * C = 1) (A : Matrix (Fin p) (Fin k) ℝ)
    (X Y : Matrix (Fin k) (Fin k) ℝ) (D : Matrix (Fin k) (Fin q) ℝ) :
    A * X * B * (C * Y * D) = A * (X * Y) * D := by
  calc A * X * B * (C * Y * D) = A * X * (B * C) * Y * D := by simp only [Matrix.mul_assoc]
    _ = A * (X * Y) * D := by rw [h, Matrix.mul_one, Matrix.mul_assoc A]

theorem Exact.mulVec_eq (hd : d.Exact M) (v : Fin n → ℝ) :
    M.toMatrix *ᵥ v = d.u.toMatrix *ᵥ (d.sing.get * (d.vt.toMatrix *ᵥ v)) := by
  rw [hd.product, ← mulVec_mulVec, ← mulVec_mulVec, diagonal_mulVec_eq]

theorem Exact.transpose_mulVec_eq (hd : d.Exact M) (u : Fin m → ℝ) :
    M.toMatrixᵀ *ᵥ u = d.vt.toMatrixᵀ *ᵥ (d.sing.get * (d.u.toMatrixᵀ *ᵥ u)) := by
  rw [hd.product, transpose_mul, transpose_mul, diagonal_transpose, ← mulVec_mulVec,
    ← mulVec_mulVec, diagonal_mulVec_eq]

theorem Exact.mulVec_right (hd : d.Exact M) (w : Fin (min m n) → ℝ) :
    M.toMatrix *ᵥ (d.vt.toMatrixᵀ *ᵥ w) = d.u.toMatrix *ᵥ (d.sing.get * w) := by
  rw [hd.mulVec_eq, mulVec_mulVec, hd.right_orthonormal, one_mulVec]

theorem Exact.transpose_mulVec_left (hd : d.Exact M) (w : Fin (min m n) → ℝ) :
    M.toMatrixᵀ *ᵥ (d.u.toMatrix *ᵥ w) = d.vt.toMatrixᵀ *ᵥ (d.sing.get * w) := by
  rw [hd.transpose_mulVec_eq, mulVec_mulVec, hd.left_orthonormal, one_mulVec]

theorem mul_single_entry {k : ℕ} (s : Fin k → ℝ) (i : Fin k) (a : ℝ) :
    s * Pi.single i a = Pi.single i (s i * a) :=
  (Pi.single_mul_right _).symm

theorem Exact.transpose_orthonormal (hd : d.Exact M) :
    d.vt.toMatrixᵀᵀ * d.vt.toMatrixᵀ = 1 := by
  rw [transpose_transpose]
  exact hd.right_orthonormal

/-- No singular value is larger than the matrix stretches. -/
theorem Exact.sing_sq_le (hd : d.Exact M) {upper : ℝ}
    (hupper : ∀ v, (M.toMatrix *ᵥ v) ⬝ᵥ (M.toMatrix *ᵥ v) ≤ upper * (v ⬝ᵥ v))
    (i : Fin (min m n)) : d.sing i ^ 2 ≤ upper := by
  have h := hupper (d.vt.toMatrixᵀ *ᵥ Pi.single i 1)
  rw [hd.mulVec_right, dotProduct_mulVec_mulVec hd.left_orthonormal,
    dotProduct_mulVec_mulVec hd.transpose_orthonormal, mul_single_entry, single_dotProduct,
    single_dotProduct, Pi.single_eq_same, Pi.single_eq_same] at h
  linarith

/-- A rank decision discards no nonzero singular value if the matrix shortens no vector of its row
space too much. -/
theorem Exact.keepsNonzero_of_lt (hd : d.Exact M)
    (h : ∀ (i : Fin (min m n)) v, M.toMatrixᵀ *ᵥ v ≠ 0 →
      (d.sing ⟨0, i.pos⟩ * cutoff) ^ 2 * ((M.toMatrixᵀ *ᵥ v) ⬝ᵥ (M.toMatrixᵀ *ᵥ v)) <
        (M.toMatrix *ᵥ (M.toMatrixᵀ *ᵥ v)) ⬝ᵥ (M.toMatrix *ᵥ (M.toMatrixᵀ *ᵥ v))) :
    d.KeepsNonzero cutoff := by
  intro i hne
  -- a left singular vector gives a vector of the row space that is stretched by its value
  have hright : M.toMatrixᵀ *ᵥ (d.u.toMatrix *ᵥ Pi.single i 1) =
      d.vt.toMatrixᵀ *ᵥ Pi.single i (d.sing i) := by
    rw [hd.transpose_mulVec_left, mul_single_entry, mul_one]
  have hlength : (M.toMatrixᵀ *ᵥ (d.u.toMatrix *ᵥ Pi.single i 1)) ⬝ᵥ
      (M.toMatrixᵀ *ᵥ (d.u.toMatrix *ᵥ Pi.single i 1)) = d.sing i ^ 2 := by
    rw [hright, dotProduct_mulVec_mulVec hd.transpose_orthonormal, single_dotProduct,
      Pi.single_eq_same, sq]
  have hstretched : (M.toMatrix *ᵥ (M.toMatrixᵀ *ᵥ (d.u.toMatrix *ᵥ Pi.single i 1))) ⬝ᵥ
      (M.toMatrix *ᵥ (M.toMatrixᵀ *ᵥ (d.u.toMatrix *ᵥ Pi.single i 1))) =
        d.sing i ^ 2 * d.sing i ^ 2 := by
    rw [hright, hd.mulVec_right, dotProduct_mulVec_mulVec hd.left_orthonormal, mul_single_entry,
      single_dotProduct, Pi.single_eq_same]
    ring
  have hpos : 0 < d.sing i ^ 2 := by positivity
  have hlt := h i (d.u.toMatrix *ᵥ Pi.single i 1) fun hzero => by
    rw [hzero, zero_dotProduct] at hlength
    exact hpos.ne hlength
  rw [hlength, hstretched, mul_lt_mul_iff_left₀ hpos] at hlt
  rw [exceeds_iff]
  exact lt_of_pow_lt_pow_left₀ 2 (hd.nonneg i) hlt

/-- If a matrix stretches no vector too much and no vector of its row space too little, every
nonzero singular value counts. -/
theorem Exact.keepsNonzero (hd : d.Exact M) (lower upper : ℝ)
    (hupper : ∀ v, (M.toMatrix *ᵥ v) ⬝ᵥ (M.toMatrix *ᵥ v) ≤ upper * (v ⬝ᵥ v))
    (hlower : ∀ v, lower * ((M.toMatrixᵀ *ᵥ v) ⬝ᵥ (M.toMatrixᵀ *ᵥ v)) ≤
      (M.toMatrix *ᵥ (M.toMatrixᵀ *ᵥ v)) ⬝ᵥ (M.toMatrix *ᵥ (M.toMatrixᵀ *ᵥ v)))
    (hc : upper * cutoff ^ 2 < lower) : d.KeepsNonzero cutoff := by
  apply hd.keepsNonzero_of_lt
  intro i v hne
  have hfirst : (d.sing ⟨0, i.pos⟩ * cutoff) ^ 2 < lower := by
    rw [mul_pow]
    exact (mul_le_mul_of_nonneg_right (hd.sing_sq_le hupper _) (sq_nonneg _)).trans_lt hc
  exact (mul_lt_mul_of_pos_right hfirst (dotProduct_self_pos hne)).trans_le (hlower v)

theorem Exact.leastNorm_solve (hd : d.Exact M) (hk : d.KeepsNonzero cutoff) (r : Vec ℝ m) :
    LeastNorm M.toMatrix r.get (d.solve cutoff r).get := by
  have hU := hd.left_orthonormal
  have hV := hd.right_orthonormal
  have hT : M.toMatrixᵀ = d.vt.toMatrixᵀ * diagonal d.sing.get * d.u.toMatrixᵀ := by
    rw [hd.product, transpose_mul, transpose_mul, diagonal_transpose, Matrix.mul_assoc]
  constructor
  · rw [coe_solve hk, mulVec_mulVec, mulVec_mulVec, hT, hd.product,
      mul_mul_of_mul_eq_one hU, mul_mul_of_mul_eq_one hV, diagonal_mul_diagonal,
      diagonal_mul_diagonal]
    congr 4
    funext i
    exact mul_self_mul_inv _
  · refine ⟨(d.u.toMatrix * diagonal (fun i => (d.sing i)⁻¹ * (d.sing i)⁻¹) * d.u.toMatrixᵀ) *ᵥ
      r.get, ?_⟩
    rw [coe_solve hk, mulVec_mulVec, hT, mul_mul_of_mul_eq_one hU, diagonal_mul_diagonal]
    congr 4
    funext i
    have h := mul_inv_mul_cancel (d.sing i)⁻¹
    rw [inv_inv, mul_comm (d.sing i)⁻¹] at h
    rw [← mul_assoc]
    exact h.symm

end ThinSVD

/-- Truncated least squares always has a result; it is of least norm if no nonzero singular value is
discarded. -/
theorem truncatedLeastSquares_eq {F : Factorizations ℝ} (hF : F.ExactSVD) (M : Mat ℝ m n)
    (rhs : Vec ℝ m) (hk : (F.svd M).KeepsNonzero (defaultCutoff m n)) :
    ∃ z, truncatedLeastSquares F M rhs none = .ok z ∧
      LeastNorm M.toMatrix rhs.get z.get := by
  by_cases hmn : m = 0 ∨ n = 0
  · refine ⟨Vec.zero, by rw [truncatedLeastSquares, if_pos hmn], ?_, 0, ?_⟩
    · rw [Vec.coe_zero, mulVec_zero, mulVec_zero]
      rcases hmn with h | h
      · subst h
        rw [Subsingleton.elim rhs.get 0, mulVec_zero]
      · subst h
        exact Subsingleton.elim _ _
    · rw [Vec.coe_zero, mulVec_zero]
  · refine ⟨(F.svd M).solve (defaultCutoff m n) rhs, ?_, ?_⟩
    · rw [truncatedLeastSquares, if_neg hmn, Mat.isFinite_eq_true]
      rfl
    · exact (hF M).leastNorm_solve hk rhs

end QuadraticProgram
