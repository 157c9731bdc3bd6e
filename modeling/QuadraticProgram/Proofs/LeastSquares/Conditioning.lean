import QuadraticProgram.Proofs.Factorization.PivotOrder
import QuadraticProgram.Proofs.LeastSquares.Pivoted

/-! # Pivots of well-conditioned matrices

A matrix that stretches no vector too much has no pivot that is too large, and one that shortens no
vector too much has none that is too small. So the rank decision discards nothing if these two
bounds are close enough to each other.
-/

namespace QuadraticProgram
open Matrix

variable {m n : ℕ}

namespace PivotedQR

variable {f : PivotedQR ℝ m n} {M : Mat ℝ m n} {cutoff lower upper : ℝ}

/-- The squared length of a column. -/
theorem Exact.colSq_perm (hf : f.Exact M) (c : Fin n) :
    M.toMatrix.col (f.perm c) ⬝ᵥ M.toMatrix.col (f.perm c) = tailSq (f.r.col c).get 0 := by
  have hcol : M.toMatrix.col (f.perm c) = (M.col (f.perm c)).get :=
    funext fun i => (Mat.get_col M i _).symm
  rw [hcol, hf.col_perm, dotProduct_mulVec_mulVec hf.orthonormal, tailSq_zero]

/-- No pivot is longer than its column. -/
theorem Exact.pivots_sq_le_colSq (hf : f.Exact M) (i : Fin (min m n)) :
    f.pivots i ^ 2 ≤ M.toMatrix.col (f.perm (pivotCol le_rfl i)) ⬝ᵥ
      M.toMatrix.col (f.perm (pivotCol le_rfl i)) := by
  have hentry := mul_self_le_tailSq (f.r.col (pivotCol le_rfl i)).get (Nat.zero_le i)
  rw [Mat.get_col] at hentry
  rw [sq, pivots_mul_self, hf.colSq_perm]
  exact hentry

/-- Of a factorization that takes longest columns no column is longer than the first pivot. -/
theorem Exact.colSq_le_first (hf : f.Exact M) (hg : f.Greedy) (h : 0 < min m n) (v : Fin n) :
    M.toMatrix.col v ⬝ᵥ M.toMatrix.col v ≤ f.pivots ⟨0, h⟩ ^ 2 := by
  obtain ⟨c, rfl⟩ := Finite.surjective_of_injective hf.perm_injective v
  rw [hf.colSq_perm, sq]
  exact hg ⟨0, h⟩ c (Nat.zero_le _)

/-- A column that the cutoff makes nothing of, next to another one, is not kept. -/
theorem Exact.notMem_leading_of_short (hf : f.Exact M) (hg : f.Greedy) (hc : 0 ≤ cutoff)
    {u v : Fin n} (h : M.toMatrix.col v ⬝ᵥ M.toMatrix.col v ≤
      (M.toMatrix.col u ⬝ᵥ M.toMatrix.col u) * cutoff ^ 2) :
    v ∉ Set.range (f.leading _ (f.rank_le cutoff)).get := by
  rintro ⟨j, rfl⟩
  let i := pivot (f.rank_le cutoff) j
  have hcounts := (exceeds_iff _ _ _).mp ((hf.lt_rank_iff cutoff i).mp j.isLt)
  rw [coe_leading] at h
  have hsq : (f.pivots ⟨0, i.pos⟩ * cutoff) ^ 2 < f.pivots i ^ 2 :=
    pow_lt_pow_left₀ hcounts (mul_nonneg (f.pivots_nonneg _) hc) two_ne_zero
  refine hsq.not_ge ?_
  calc f.pivots i ^ 2 ≤ _ := hf.pivots_sq_le_colSq i
    _ ≤ _ := h
    _ ≤ f.pivots ⟨0, i.pos⟩ ^ 2 * cutoff ^ 2 :=
        mul_le_mul_of_nonneg_right (hf.colSq_le_first hg i.pos u) (sq_nonneg _)
    _ = _ := (mul_pow _ _ _).symm

/-- No pivot is larger than the matrix stretches. -/
theorem Exact.pivots_sq_le (hf : f.Exact M)
    (hupper : ∀ v, (M.toMatrix *ᵥ v) ⬝ᵥ (M.toMatrix *ᵥ v) ≤ upper * (v ⬝ᵥ v))
    (i : Fin (min m n)) : f.pivots i ^ 2 ≤ upper := by
  have hcol := hupper (Pi.single (f.perm (pivotCol le_rfl i)) 1)
  rw [mulVec_single_one, single_dotProduct, Pi.single_eq_same, mul_one, mul_one] at hcol
  exact (hf.pivots_sq_le_colSq i).trans hcol

theorem abs_leadingBlock_diag (f : PivotedQR ℝ m n) (i : Fin (min m n)) :
    |f.leadingBlock (min m n) le_rfl i i| = f.pivots i := by
  rw [pivots_apply, leadingBlock, Mat.get_ofFn]
  rfl

/-- What the matrix makes of a combination of leading columns is as long as what the leading block
makes of it. -/
theorem Exact.dotProduct_scatter (hf : f.Exact M) {r : ℕ} (h : r ≤ min m n) (s : Vec ℝ r) :
    (M.toMatrix *ᵥ (Vec.scatter (f.leading r h) s).get) ⬝ᵥ
        (M.toMatrix *ᵥ (Vec.scatter (f.leading r h) s).get) =
      ((f.leadingBlock r h).toMatrix *ᵥ s.get) ⬝ᵥ ((f.leadingBlock r h).toMatrix *ᵥ s.get) := by
  rw [Vec.mulVec_scatter _ (hf.leading_injective h), hf.submatrix_leading, ← mulVec_mulVec,
    dotProduct_mulVec_mulVec (hf.leadingQ_orthonormal h)]

/-- Some combination of the columns is as long as the last pivot says, with at least the last column
taken in full. -/
theorem Exact.exists_last (hf : f.Exact M) (hM : ∀ v, M.toMatrix *ᵥ v = 0 → v = 0)
    {i : Fin (min m n)} (hi : ∀ j, j ≤ i) :
    ∃ v, (M.toMatrix *ᵥ v) ⬝ᵥ (M.toMatrix *ᵥ v) = f.pivots i ^ 2 ∧ 1 ≤ v ⬝ᵥ v := by
  let B := f.leadingBlock (min m n) le_rfl
  have habs : |B i i| = f.pivots i := abs_leadingBlock_diag f i
  have hdiag : ∀ j, B j j ≠ 0 := fun j => by
    rw [← abs_ne_zero, abs_leadingBlock_diag]
    exact hf.pivots_ne_zero hM j
  let s := Triangular.solveUpper B (Vec.ofFn (Pi.single i (B i i)))
  have hs : B.toMatrix *ᵥ s.get = Pi.single i (B i i) := by
    rw [← hf.leadingBlock_upper, Triangular.upper_mulVec_solveUpper hdiag, Vec.coe_ofFn]
  have hone : s i = 1 := by
    have hrow := congrFun hs i
    rw [Pi.single_eq_same, mulVec, dotProduct, Finset.sum_eq_single i ?_ ?_] at hrow
    · exact (mul_eq_left₀ (hdiag i)).mp hrow
    · intro j _ hj
      rw [hf.leadingBlock_isUpperTriangular le_rfl (lt_of_le_of_ne (hi j) hj), zero_mul]
    · exact fun h => absurd (Finset.mem_univ i) h
  refine ⟨(Vec.scatter (f.leading _ le_rfl) s).get, ?_, ?_⟩
  · rw [hf.dotProduct_scatter le_rfl s, hs, single_dotProduct, Pi.single_eq_same, ← sq, ← habs,
      sq_abs]
  · have hentry := mul_self_le_tailSq (Vec.scatter (f.leading _ le_rfl) s).get
      (Nat.zero_le (f.leading _ le_rfl i))
    rwa [tailSq_zero, Vec.scatter_apply (hf.leading_injective le_rfl), hone, mul_one] at hentry

/-- No pivot is smaller than the matrix shortens. -/
theorem Exact.le_pivots_sq (hf : f.Exact M) (hl : 0 < lower)
    (hlower : ∀ v, lower * (v ⬝ᵥ v) ≤ (M.toMatrix *ᵥ v) ⬝ᵥ (M.toMatrix *ᵥ v))
    (i : Fin (min m n)) : lower ≤ f.pivots i ^ 2 := by
  -- pivots do not increase, so the last one is the smallest
  let last : Fin (min m n) := ⟨min m n - 1, Nat.sub_one_lt_of_lt i.isLt⟩
  have hlast : ∀ j, j ≤ last := fun j => Fin.le_def.mpr (Nat.le_sub_one_of_lt j.isLt)
  obtain ⟨v, hv, hone⟩ := hf.exists_last (fun _ => eq_zero_of_mulVec_of_le hl hlower) hlast
  calc lower ≤ lower * (v ⬝ᵥ v) := le_mul_of_one_le_right hl.le hone
    _ ≤ f.pivots last ^ 2 := (hlower v).trans_eq hv
    _ ≤ f.pivots i ^ 2 := pow_le_pow_left₀ (f.pivots_nonneg last) (hf.antitone (hlast i)) 2

/-- If a matrix stretches no vector too much and shortens none too much, every pivot counts. -/
theorem Exact.keepsNonzero (hf : f.Exact M) (lower upper : ℝ) (hl : 0 < lower)
    (hupper : ∀ v, (M.toMatrix *ᵥ v) ⬝ᵥ (M.toMatrix *ᵥ v) ≤ upper * (v ⬝ᵥ v))
    (hlower : ∀ v, lower * (v ⬝ᵥ v) ≤ (M.toMatrix *ᵥ v) ⬝ᵥ (M.toMatrix *ᵥ v))
    (hc : upper * cutoff ^ 2 < lower) : f.KeepsNonzero cutoff := by
  intro i _
  rw [exceeds_iff]
  apply lt_of_pow_lt_pow_left₀ 2 (f.pivots_nonneg i)
  calc (f.pivots ⟨0, i.pos⟩ * cutoff) ^ 2 = f.pivots ⟨0, i.pos⟩ ^ 2 * cutoff ^ 2 := mul_pow _ _ _
    _ ≤ upper * cutoff ^ 2 := mul_le_mul_of_nonneg_right (hf.pivots_sq_le hupper _) (sq_nonneg _)
    _ < lower := hc
    _ ≤ f.pivots i ^ 2 := hf.le_pivots_sq hl hlower i

theorem Exact.rank_eq_of_bounds (hf : f.Exact M) (lower upper : ℝ) (hl : 0 < lower)
    (hupper : ∀ v, (M.toMatrix *ᵥ v) ⬝ᵥ (M.toMatrix *ᵥ v) ≤ upper * (v ⬝ᵥ v))
    (hlower : ∀ v, lower * (v ⬝ᵥ v) ≤ (M.toMatrix *ᵥ v) ⬝ᵥ (M.toMatrix *ᵥ v))
    (hc : upper * cutoff ^ 2 < lower) : f.rank cutoff = min m n :=
  hf.rank_eq_min (fun _ => eq_zero_of_mulVec_of_le hl hlower)
    (hf.keepsNonzero lower upper hl hupper hlower hc)

end PivotedQR

end QuadraticProgram
