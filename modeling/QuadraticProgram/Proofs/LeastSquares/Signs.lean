import QuadraticProgram.Proofs.Factorization.PivotOrder
import QuadraticProgram.Proofs.LeastSquares.Pivoted

/-! # Basic solutions and signs

A basic solution is the only one that is carried by the columns kept and satisfies their normal
equations. Signs of rows and columns change neither the columns kept nor the magnitudes of the
solution.
-/

namespace QuadraticProgram
open Matrix

variable {m n k : ℕ}

/-- A vector carried by some columns that satisfies their normal equations. -/
structure BasicSolution (M : Matrix (Fin m) (Fin n) ℝ) (kept : Set (Fin n)) (r : Fin m → ℝ)
    (y : Fin n → ℝ) : Prop where
  outside : ∀ j, j ∉ kept → y j = 0
  normal : ∀ j ∈ kept, (Mᵀ *ᵥ (M *ᵥ y)) j = (Mᵀ *ᵥ r) j

/-- Independent columns carry one basic solution. -/
theorem BasicSolution.unique {M : Matrix (Fin m) (Fin n) ℝ} {p : Vec (Fin n) k}
    (hp : Function.Injective p.get) (hM : ∀ s, M.submatrix id p.get *ᵥ s = 0 → s = 0)
    {r : Fin m → ℝ} {y w : Fin n → ℝ} (hy : BasicSolution M (Set.range p.get) r y)
    (hw : BasicSolution M (Set.range p.get) r w) : y = w := by
  have houtside : ∀ j, j ∉ Set.range p.get → (Vec.ofFn (y - w)) j = 0 := fun j hj => by
    rw [Vec.get_ofFn, Pi.sub_apply, hy.outside j hj, hw.outside j hj, sub_self]
  have hzero : (M *ᵥ (y - w)) ⬝ᵥ (M *ᵥ (y - w)) = 0 := by
    rw [dotProduct_mulVec, ← mulVec_transpose]
    apply Finset.sum_eq_zero
    intro j _
    by_cases hj : j ∈ Set.range p.get
    · rw [mulVec_sub, mulVec_sub, Pi.sub_apply, hy.normal j hj, hw.normal j hj, sub_self, zero_mul]
    · rw [Pi.sub_apply, hy.outside j hj, hw.outside j hj, sub_self, mul_zero]
  have hsel := hM ((Vec.ofFn (y - w)).select p).get (by
    rw [← Vec.mulVec_scatter M hp, Vec.scatter_select hp houtside, Vec.coe_ofFn]
    exact dotProduct_self_eq_zero.mp hzero)
  ext j
  by_cases hj : j ∈ Set.range p.get
  · obtain ⟨i, rfl⟩ := hj
    have hi := congrFun hsel i
    rw [Vec.get_select, Vec.get_ofFn] at hi
    exact sub_eq_zero.mp hi
  · rw [hy.outside j hj, hw.outside j hj]

namespace PivotedQR

variable {f f' : PivotedQR ℝ m n} {M : Mat ℝ m n} {cutoff : ℝ}

theorem rank_congr (h : f'.pivots = f.pivots) (cutoff : ℝ) : f'.rank cutoff = f.rank cutoff := by
  rw [rank, rank, h]

theorem mem_range_leading_iff {r : ℕ} (h : r ≤ min m n) (j : Fin n) :
    j ∈ Set.range (f.leading r h).get ↔ ∃ c : Fin n, c.val < r ∧ f.perm c = j := by
  rw [coe_leading]
  constructor
  · rintro ⟨i, rfl⟩
    exact ⟨pivotCol h i, i.isLt, rfl⟩
  · rintro ⟨c, hc, rfl⟩
    exact ⟨⟨c, hc⟩, rfl⟩

/-- The columns kept are those of the first positions, as many as pivots count. -/
theorem range_leading_congr (hperm : f'.perm = f.perm) (hrank : f'.rank cutoff = f.rank cutoff) :
    Set.range (f'.leading _ (f'.rank_le cutoff)).get =
      Set.range (f.leading _ (f.rank_le cutoff)).get := by
  ext j
  rw [mem_range_leading_iff, mem_range_leading_iff, hperm, hrank]

/-- The projection onto the leading columns of `q` satisfies the normal equations of the columns
kept. -/
theorem Exact.transpose_mulVec_leading (hf : f.Exact M) {r : ℕ} (h : r ≤ min m n) (v : Fin m → ℝ)
    {j : Fin n} (hj : j ∈ Set.range (f.leading r h).get) :
    (M.toMatrixᵀ *ᵥ (f.leadingQ r h *ᵥ ((f.leadingQ r h)ᵀ *ᵥ v))) j = (M.toMatrixᵀ *ᵥ v) j := by
  obtain ⟨l, rfl⟩ := hj
  have hsub : ∀ w, (M.toMatrixᵀ *ᵥ w) (f.leading r h l) =
      (((f.leadingBlock r h).toMatrixᵀ * (f.leadingQ r h)ᵀ) *ᵥ w) l := fun w => by
    rw [← transpose_mul, ← hf.submatrix_leading]
    rfl
  have hcancel : ∀ w, (f.leadingQ r h)ᵀ *ᵥ (f.leadingQ r h *ᵥ w) = w := fun w => by
    rw [mulVec_mulVec, hf.leadingQ_orthonormal, one_mulVec]
  rw [hsub, hsub, ← mulVec_mulVec, ← mulVec_mulVec, hcancel]

end PivotedQR

/-- Least squares by pivoted factorization returns the basic solution on the columns kept. -/
theorem pivotedLeastSquares_basic {F : Factorizations ℝ} (hF : F.ExactPivotedQR) (M : Mat ℝ m n)
    (rhs : Vec ℝ m) (cutoff : Option ℝ) (hc : 0 ≤ cutoff.getD (defaultCutoff m n)) :
    ∃ y, pivotedLeastSquares F M rhs cutoff = .ok y ∧
      BasicSolution M.toMatrix (Set.range ((F.pivotedQR M).leading _ ((F.pivotedQR M).rank_le
        (cutoff.getD (defaultCutoff m n)))).get) rhs.get y.get := by
  obtain ⟨y, hy, houtside, hM⟩ := pivotedLeastSquares_eq hF M rhs cutoff hc
  refine ⟨y, hy, houtside, fun j hj => ?_⟩
  rw [hM]
  exact (hF M).transpose_mulVec_leading _ rhs.get hj

section Signs

variable {M M' : Mat ℝ m n} {e : Fin m → ℝ} {d : Fin n → ℝ}

/-- A matrix with other signs in its rows and columns. -/
structure Signed (M M' : Mat ℝ m n) (e : Fin m → ℝ) (d : Fin n → ℝ) : Prop where
  row_sign : e * e = 1
  col_sign : d * d = 1
  apply_eq : ∀ i j, M' i j = e i * M i j * d j

theorem Signed.mulVec_eq (h : Signed M M' e d) (v : Fin n → ℝ) :
    M'.toMatrix *ᵥ v = e * (M.toMatrix *ᵥ (d * v)) := by
  ext i
  rw [Pi.mul_apply, mulVec, mulVec, dotProduct, dotProduct, Finset.mul_sum]
  apply Finset.sum_congr rfl
  intro j _
  rw [Mat.toMatrix_apply, h.apply_eq, Mat.toMatrix_apply, Pi.mul_apply]
  ring

theorem Signed.transpose (h : Signed M M' e d) : Signed M.transpose M'.transpose d e where
  row_sign := h.col_sign
  col_sign := h.row_sign
  apply_eq i j := by
    rw [Mat.get_transpose, Mat.get_transpose, h.apply_eq]
    ring

theorem Signed.transpose_mulVec_eq (h : Signed M M' e d) (v : Fin m → ℝ) :
    M'.toMatrixᵀ *ᵥ v = d * (M.toMatrixᵀ *ᵥ (e * v)) := by
  rw [← Mat.toMatrix_transpose, ← Mat.toMatrix_transpose]
  exact h.transpose.mulVec_eq v

theorem Signed.sameProducts (h : Signed M M' e d) : PivotedQR.SameProducts M M' d where
  sign v := congrFun h.col_sign v
  dotProduct_eq u v := by
    rw [dotProduct, dotProduct, Finset.mul_sum]
    apply Finset.sum_congr rfl
    intro i _
    have hi : e i * e i = 1 := congrFun h.row_sign i
    rw [Mat.get_col, Mat.get_col, Mat.get_col, Mat.get_col, h.apply_eq, h.apply_eq]
    calc _ = e i * e i * (d u * d v * (M i u * M i v)) := by ring
      _ = _ := by rw [hi, one_mul]

theorem Signed.basicSolution (h : Signed M M' e d) {kept : Set (Fin n)} {r : Fin m → ℝ}
    {y : Fin n → ℝ} (hy : BasicSolution M.toMatrix kept r y) :
    BasicSolution M'.toMatrix kept (e * r) (d * y) where
  outside j hj := by rw [Pi.mul_apply, hy.outside j hj, mul_zero]
  normal j hj := by
    simp only [h.mulVec_eq, h.transpose_mulVec_eq, ← mul_assoc, h.row_sign, h.col_sign, one_mul,
      Pi.mul_apply, hy.normal j hj]

/-- Signs of rows and columns turn up in the solution and nowhere else. -/
theorem pivotedLeastSquares_signed {F : Factorizations ℝ} (hF : F.ExactPivotedQR)
    (hg : F.FirstLongestPivotedQR) (h : Signed M M' e d) {r r' : Vec ℝ m}
    (hr : r'.get = e * r.get) {y y' : Vec ℝ n} (hy : pivotedLeastSquares F M r none = .ok y)
    (hy' : pivotedLeastSquares F M' r' none = .ok y') : y'.get = d * y.get := by
  have hc := defaultCutoff_nonneg m n
  obtain ⟨w, hw, hbasic⟩ := pivotedLeastSquares_basic hF M r none hc
  obtain ⟨w', hw', hbasic'⟩ := pivotedLeastSquares_basic hF M' r' none hc
  obtain rfl := Except.ok.inj (hw.symm.trans hy)
  obtain rfl := Except.ok.inj (hw'.symm.trans hy')
  have hperm := (hg M).perm_eq (hg M') (hF M) (hF M') h.sameProducts
  have hpivots := (hg M).pivots_eq (hg M') (hF M) (hF M') h.sameProducts
  have hsigned := h.basicSolution hbasic
  rw [← PivotedQR.range_leading_congr hperm (PivotedQR.rank_congr hpivots _), ← hr] at hsigned
  exact hbasic'.unique ((hF M').leading_injective _) (fun s => (hF M').leading_independent hc)
    hsigned

end Signs

end QuadraticProgram
