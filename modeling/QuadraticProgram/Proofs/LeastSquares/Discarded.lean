import QuadraticProgram.Proofs.Factorization.PivotOrder
import QuadraticProgram.Proofs.LeastSquares.Conditioning

/-! # What discarded columns still see

A column that a rank decision discards lies in the span of the columns kept, up to a remainder that
is no longer than the cutoff times the longest column. So a direction that is orthogonal to the
columns kept is almost orthogonal to all columns.
-/

namespace QuadraticProgram
open Matrix

variable {m n : ℕ}

theorem tailSq_eq_zero {x : Fin m → ℝ} {j : ℕ} (h : ∀ i : Fin m, j ≤ i → x i = 0) :
    tailSq x j = 0 := by
  apply Finset.sum_eq_zero
  intro i _
  split
  · rfl
  · rename_i hij
    rw [h i (not_lt.mp hij), mul_zero]

/-- The entries of a vector from a position on, behind zeros. -/
noncomputable def tail (x : Fin m → ℝ) (j : ℕ) : Fin m → ℝ := fun i => if i.val < j then 0 else x i

theorem tail_dotProduct_self (x : Fin m → ℝ) (j : ℕ) : tail x j ⬝ᵥ tail x j = tailSq x j := by
  apply Finset.sum_congr rfl
  intro i _
  unfold tail
  split
  · exact mul_zero 0
  · rfl

/-- A direction that is orthogonal to vectors is orthogonal to their span. -/
theorem dotProduct_eq_zero_of_mem_span {ι : Type*} {s : ι → Fin m → ℝ} {d u : Fin m → ℝ}
    (hd : ∀ l, s l ⬝ᵥ d = 0) (hu : u ∈ Submodule.span ℝ (Set.range s)) : u ⬝ᵥ d = 0 := by
  refine Submodule.span_induction (p := fun w _ => w ⬝ᵥ d = 0) ?_ ?_ ?_ ?_ hu
  · rintro _ ⟨l, rfl⟩
    exact hd l
  · exact zero_dotProduct d
  · intro w z _ _ hw hz
    rw [add_dotProduct, hw, hz, add_zero]
  · intro a w _ hw
    rw [smul_dotProduct, hw, smul_zero]

namespace PivotedQR

variable {f : PivotedQR ℝ m n} {M : Mat ℝ m n} {cutoff bound : ℝ} {d : Fin m → ℝ}

/-- What the leading columns of `q` span, the columns kept span. -/
theorem Exact.leadingQ_mulVec_mem_span (hf : f.Exact M) (hc : 0 ≤ cutoff)
    (w : Fin (f.rank cutoff) → ℝ) : f.leadingQ _ (f.rank_le cutoff) *ᵥ w ∈
      Submodule.span ℝ (Set.range fun l => M.toMatrix.col (f.leading _ (f.rank_le cutoff) l)) := by
  let B := f.leadingBlock _ (f.rank_le cutoff)
  obtain ⟨s, hs⟩ : ∃ s, B.toMatrix *ᵥ s = w := by
    refine ⟨(Triangular.solveUpper B (Vec.ofFn w)).get, ?_⟩
    rw [← hf.leadingBlock_upper,
      Triangular.upper_mulVec_solveUpper (hf.leadingBlock_diag_ne_zero hc), Vec.coe_ofFn]
  rw [← hs, mulVec_mulVec, ← hf.submatrix_leading]
  exact (range_mulVecLin _).le (LinearMap.mem_range_self _ s)

/-- Coordinates in front of a position take the leading columns of `q` only. -/
theorem mulVec_sub_tail (f : PivotedQR ℝ m n) {r : ℕ} (h : r ≤ min m n)
    (x : Fin (min m n) → ℝ) :
    f.q.toMatrix *ᵥ (x - tail x r) = f.leadingQ r h *ᵥ (x ∘ pivot h) := by
  funext i
  symm
  refine Fintype.sum_of_injective (pivot h) (pivot_injective h) _ _ (fun l hl => ?_) fun j => ?_
  · have hlr : ¬l.val < r := fun hlt => hl ⟨⟨l, hlt⟩, rfl⟩
    rw [Pi.sub_apply, tail, if_neg hlr, sub_self, mul_zero]
  · have hjr : (pivot h j).val < r := j.isLt
    rw [Pi.sub_apply, tail, if_pos hjr, sub_zero]
    rfl

/-- From a column to the span of the columns kept it is as far as what is left of the column behind
the rank. -/
theorem Exact.exists_near (hf : f.Exact M) (hc : 0 ≤ cutoff) (v : Fin n) :
    ∃ u ∈ Submodule.span ℝ (Set.range fun l => M.toMatrix.col (f.leading _ (f.rank_le cutoff) l)),
      (M.toMatrix.col v - u) ⬝ᵥ (M.toMatrix.col v - u) = f.remaining M (f.rank cutoff) v := by
  let x := f.coords M v
  refine ⟨_, hf.leadingQ_mulVec_mem_span hc (x ∘ pivot (f.rank_le cutoff)), ?_⟩
  have hcol : M.toMatrix.col v = f.q.toMatrix *ᵥ x := by
    rw [hf.mulVec_coords]
    exact funext fun i => (Mat.get_col M i v).symm
  rw [← mulVec_sub_tail, hcol, ← mulVec_sub, sub_sub_cancel,
    dotProduct_mulVec_mulVec hf.orthonormal, tail_dotProduct_self, remaining]

/-- Behind the rank no column has more left than the first pivot that does not count. -/
theorem Exact.remaining_rank_le_of_pivot (hf : f.Exact M) (hg : f.Greedy) {left : ℝ}
    (hleft : 0 ≤ left)
    (hpivot : ∀ i : Fin (min m n), i.val = f.rank cutoff → f.pivots i * f.pivots i ≤ left)
    (v : Fin n) : f.remaining M (f.rank cutoff) v ≤ left := by
  obtain ⟨c, rfl⟩ := Finite.surjective_of_injective hf.perm_injective v
  rw [remaining, hf.coords_perm]
  by_cases hcol : f.rank cutoff < min m n ∧ f.rank cutoff ≤ c
  · exact (hg ⟨f.rank cutoff, hcol.1⟩ c hcol.2).trans (hpivot _ rfl)
  · -- there is no row behind the rank, or the column ends in front of it
    refine (tailSq_eq_zero fun l hl => ?_).trans_le hleft
    rw [Mat.get_col]
    exact hf.triangular l c (by omega)

/-- Behind the rank no column has more left than the cutoff makes of the longest column. -/
theorem Exact.remaining_rank_le (hf : f.Exact M) (hg : f.Greedy)
    (hbound : ∀ v, M.toMatrix.col v ⬝ᵥ M.toMatrix.col v ≤ bound) (v : Fin n) :
    f.remaining M (f.rank cutoff) v ≤ bound * cutoff ^ 2 := by
  have hnonneg : 0 ≤ bound * cutoff ^ 2 :=
    mul_nonneg ((dotProduct_self_nonneg _).trans (hbound v)) (sq_nonneg _)
  refine hf.remaining_rank_le_of_pivot hg hnonneg (fun i hi => ?_) v
  have hsmall : f.pivots i ≤ f.pivots ⟨0, i.pos⟩ * cutoff := by
    have hstop := (hf.lt_rank_iff cutoff i).not.mp hi.not_lt
    rwa [exceeds_iff, not_lt] at hstop
  calc f.pivots i * f.pivots i = f.pivots i ^ 2 := (sq _).symm
    _ ≤ (f.pivots ⟨0, i.pos⟩ * cutoff) ^ 2 := pow_le_pow_left₀ (f.pivots_nonneg i) hsmall 2
    _ = f.pivots ⟨0, i.pos⟩ ^ 2 * cutoff ^ 2 := mul_pow _ _ _
    _ ≤ bound * cutoff ^ 2 := mul_le_mul_of_nonneg_right
        ((hf.pivots_sq_le_colSq _).trans (hbound _)) (sq_nonneg _)

/-- A direction that is orthogonal to the columns kept sees no more of a column than what is left of
it behind the rank. -/
theorem Exact.sq_dotProduct_col_le_remaining (hf : f.Exact M) (hc : 0 ≤ cutoff)
    (hd : ∀ l, M.toMatrix.col (f.leading _ (f.rank_le cutoff) l) ⬝ᵥ d = 0) (v : Fin n) :
    (M.toMatrix.col v ⬝ᵥ d) ^ 2 ≤ f.remaining M (f.rank cutoff) v * (d ⬝ᵥ d) := by
  obtain ⟨u, hu, hdist⟩ := hf.exists_near hc v
  calc (M.toMatrix.col v ⬝ᵥ d) ^ 2 = ((M.toMatrix.col v - u) ⬝ᵥ d) ^ 2 := by
        rw [sub_dotProduct, dotProduct_eq_zero_of_mem_span hd hu, sub_zero]
    _ ≤ ((M.toMatrix.col v - u) ⬝ᵥ (M.toMatrix.col v - u)) * (d ⬝ᵥ d) := sq_dotProduct_le _ _
    _ = f.remaining M (f.rank cutoff) v * (d ⬝ᵥ d) := by rw [hdist]

/-- A direction that is orthogonal to the columns kept is almost orthogonal to every column. -/
theorem Exact.sq_dotProduct_col_le (hf : f.Exact M) (hg : f.Greedy) (hc : 0 ≤ cutoff)
    (hbound : ∀ v, M.toMatrix.col v ⬝ᵥ M.toMatrix.col v ≤ bound)
    (hd : ∀ l, M.toMatrix.col (f.leading _ (f.rank_le cutoff) l) ⬝ᵥ d = 0) (v : Fin n) :
    (M.toMatrix.col v ⬝ᵥ d) ^ 2 ≤ bound * cutoff ^ 2 * (d ⬝ᵥ d) :=
  (hf.sq_dotProduct_col_le_remaining hc hd v).trans (mul_le_mul_of_nonneg_right
    (hf.remaining_rank_le hg hbound v) (dotProduct_self_nonneg d))

/-- If every pivot behind the rank is zero, the columns kept span all columns. -/
theorem Exact.col_mem_span_leading (hf : f.Exact M) (hg : f.Greedy) (hc : 0 ≤ cutoff)
    (hzero : ∀ i : Fin (min m n), f.rank cutoff ≤ i.val → f.pivots i = 0) (v : Fin n) :
    M.toMatrix.col v ∈
      Submodule.span ℝ (Set.range fun l => M.toMatrix.col (f.leading _ (f.rank_le cutoff) l)) := by
  obtain ⟨u, hu, hdist⟩ := hf.exists_near hc v
  have hnone := hf.remaining_rank_le_of_pivot hg le_rfl
    (fun i hi => by rw [hzero i hi.ge, mul_zero]) v
  have hsame := le_antisymm (hdist.trans_le hnone) (dotProduct_self_nonneg _)
  rwa [sub_eq_zero.mp (dotProduct_self_eq_zero.mp hsame)]

/-- If every pivot behind the rank is zero, a direction that is orthogonal to the columns kept is
orthogonal to every column. -/
theorem Exact.dotProduct_col_eq_zero (hf : f.Exact M) (hg : f.Greedy) (hc : 0 ≤ cutoff)
    (hzero : ∀ i : Fin (min m n), f.rank cutoff ≤ i.val → f.pivots i = 0)
    (hd : ∀ l, M.toMatrix.col (f.leading _ (f.rank_le cutoff) l) ⬝ᵥ d = 0) (v : Fin n) :
    M.toMatrix.col v ⬝ᵥ d = 0 :=
  dotProduct_eq_zero_of_mem_span hd (hf.col_mem_span_leading hg hc hzero v)

end PivotedQR

end QuadraticProgram
