import QuadraticProgram.Proofs.Factorization.Standard
import QuadraticProgram.Proofs.LeastSquares.Discarded
import QuadraticProgram.Proofs.LeastSquares.Signs

/-! # Optimal on the columns kept

The residual of a basic solution is orthogonal to the columns kept, so no other point that they
carry comes closer to the right-hand side. If nothing is left of the columns discarded, the residual
is orthogonal to them as well, and no point at all comes closer.
-/

namespace QuadraticProgram
open Matrix

variable {m n : ℕ} {M : Mat ℝ m n} {rhs : Vec ℝ m} {y w : Vec ℝ n}

/-- The length of what a point leaves of the right-hand side. -/
noncomputable def residualNorm (M : Mat ℝ m n) (rhs : Vec ℝ m) (w : Vec ℝ n) : ℝ :=
  ((M.mulVec w).sub rhs).norm

section Residual

theorem coe_residual (M : Mat ℝ m n) (rhs : Vec ℝ m) (w : Vec ℝ n) :
    ((M.mulVec w).sub rhs).get = M.toMatrix *ᵥ w.get - rhs.get := by
  rw [Vec.coe_sub, Mat.coe_mulVec]

/-- A change of the image at a right angle to the residual only adds to it. -/
theorem residual_dotProduct_self
    (h : (M.toMatrix *ᵥ (w.get - y.get)) ⬝ᵥ (M.toMatrix *ᵥ y.get - rhs.get) = 0) :
    (M.toMatrix *ᵥ w.get - rhs.get) ⬝ᵥ (M.toMatrix *ᵥ w.get - rhs.get) =
      (M.toMatrix *ᵥ y.get - rhs.get) ⬝ᵥ (M.toMatrix *ᵥ y.get - rhs.get) +
        (M.toMatrix *ᵥ (w.get - y.get)) ⬝ᵥ (M.toMatrix *ᵥ (w.get - y.get)) := by
  have hsplit : M.toMatrix *ᵥ w.get - rhs.get =
      (M.toMatrix *ᵥ y.get - rhs.get) + M.toMatrix *ᵥ (w.get - y.get) := by
    rw [mulVec_sub]
    abel
  rw [hsplit, add_dotProduct, dotProduct_add, dotProduct_add, h,
    dotProduct_comm _ (M.toMatrix *ᵥ (w.get - y.get)), h]
  ring

theorem residualNorm_le_iff : residualNorm M rhs y ≤ residualNorm M rhs w ↔
    (M.toMatrix *ᵥ y.get - rhs.get) ⬝ᵥ (M.toMatrix *ᵥ y.get - rhs.get) ≤
      (M.toMatrix *ᵥ w.get - rhs.get) ⬝ᵥ (M.toMatrix *ᵥ w.get - rhs.get) := by
  rw [residualNorm, residualNorm, ← not_lt, Vec.norm_lt_norm_iff, not_lt, coe_residual,
    coe_residual]

theorem residualNorm_le_of_orthogonal
    (h : (M.toMatrix *ᵥ (w.get - y.get)) ⬝ᵥ (M.toMatrix *ᵥ y.get - rhs.get) = 0) :
    residualNorm M rhs y ≤ residualNorm M rhs w := by
  rw [residualNorm_le_iff, residual_dotProduct_self h]
  exact le_add_of_nonneg_right (dotProduct_self_nonneg _)

/-- A change at a right angle to the residual that comes as close leaves the image as it is. -/
theorem mulVec_eq_of_orthogonal
    (h : (M.toMatrix *ᵥ (w.get - y.get)) ⬝ᵥ (M.toMatrix *ᵥ y.get - rhs.get) = 0)
    (hle : residualNorm M rhs w ≤ residualNorm M rhs y) :
    M.toMatrix *ᵥ w.get = M.toMatrix *ᵥ y.get := by
  rw [residualNorm_le_iff, residual_dotProduct_self h] at hle
  have hzero := le_antisymm ((add_le_iff_nonpos_right _).mp hle) (dotProduct_self_nonneg _)
  rw [dotProduct_self_eq_zero, mulVec_sub] at hzero
  exact sub_eq_zero.mp hzero

theorem residualNorm_eq_zero_iff : residualNorm M rhs w = 0 ↔ M.mulVec w = rhs := by
  rw [residualNorm, Vec.norm_eq, Real.sqrt_eq_zero (dotProduct_self_nonneg _),
    dotProduct_self_eq_zero, coe_residual, sub_eq_zero, Mat.mulVec_eq_iff]

/-- A point that comes closest solves a system that has a solution. -/
theorem mulVec_eq_of_residualNorm_le (h : residualNorm M rhs y ≤ residualNorm M rhs w)
    (hw : M.mulVec w = rhs) : M.mulVec y = rhs := by
  rw [residualNorm_eq_zero_iff.mpr hw] at h
  exact residualNorm_eq_zero_iff.mp (le_antisymm h (Real.sqrt_nonneg _))

/-- The residual of a basic solution is at a right angle to what the columns kept can change. -/
theorem BasicSolution.orthogonal {kept : Set (Fin n)}
    (hy : BasicSolution M.toMatrix kept rhs.get y.get) (hw : ∀ j, j ∉ kept → w j = 0) :
    (M.toMatrix *ᵥ (w.get - y.get)) ⬝ᵥ (M.toMatrix *ᵥ y.get - rhs.get) = 0 := by
  rw [dotProduct_comm, dotProduct_mulVec, ← mulVec_transpose, mulVec_sub]
  apply Finset.sum_eq_zero
  intro j _
  by_cases hj : j ∈ kept
  · rw [Pi.sub_apply, hy.normal j hj, sub_self, zero_mul]
  · rw [Pi.sub_apply w.get, hw j hj, hy.outside j hj, sub_self, mul_zero]

end Residual

namespace PivotedQR

variable {f : PivotedQR ℝ m n} {cutoff : ℝ}

theorem Exact.linearIndependent_leading (hf : f.Exact M) (hc : 0 ≤ cutoff) :
    LinearIndependent ℝ fun l => M.toMatrix.col (f.leading _ (f.rank_le cutoff) l) := by
  have hcols : (fun l => M.toMatrix.col (f.leading _ (f.rank_le cutoff) l)) =
      (M.toMatrix.submatrix id (f.leading _ (f.rank_le cutoff)).get).col := rfl
  rw [hcols, ← mulVec_injective_iff]
  intro s t hst
  rw [← sub_eq_zero]
  apply hf.leading_independent hc
  rw [mulVec_sub]
  exact sub_eq_zero.mpr hst

/-- If every pivot behind the rank is zero, a basic solution on the columns kept satisfies all
normal equations. -/
theorem Exact.basicSolution_univ (hf : f.Exact M) (hg : f.Greedy) (hc : 0 ≤ cutoff)
    (hzero : ∀ i : Fin (min m n), f.rank cutoff ≤ i.val → f.pivots i = 0)
    (hy : BasicSolution M.toMatrix (Set.range (f.leading _ (f.rank_le cutoff)).get) rhs.get
      y.get) : BasicSolution M.toMatrix Set.univ rhs.get y.get where
  outside j hj := absurd (Set.mem_univ j) hj
  normal j _ := by
    have horthogonal := hf.dotProduct_col_eq_zero hg hc hzero
      (d := M.toMatrix *ᵥ y.get - rhs.get) (fun l => ?_) j
    · rw [dotProduct_sub] at horthogonal
      exact sub_eq_zero.mp horthogonal
    · rw [dotProduct_sub]
      exact sub_eq_zero.mpr (hy.normal _ ⟨l, rfl⟩)

end PivotedQR

/-- Least squares by pivoted factorization always has a result. The columns kept, those of the first
pivots, are independent and carry it, and no other point that they carry comes closer to the
right-hand side. If every column is kept or every discarded pivot is zero, no point at all comes
closer, so a system that has a solution is solved. -/
theorem pivotedLeastSquares_optimal {F : Factorizations ℝ} (hQ : F.ExactPivotedQR)
    (hg : F.GreedyPivotedQR) (M : Mat ℝ m n) (rhs : Vec ℝ m) (cutoff : Option ℝ)
    (hc : ∀ c ∈ cutoff, 0 ≤ c) :
    let f := F.pivotedQR M
    let r := f.rank (cutoff.getD (defaultCutoff m n))
    let kept := f.leading r (f.rank_le _)
    ∃ y, pivotedLeastSquares F M rhs cutoff = .ok y ∧
      (LinearIndependent ℝ fun l => M.toMatrix.col (kept l)) ∧
      (∀ j, j ∉ Set.range kept.get → y j = 0) ∧
      (∀ w : Vec ℝ n, (∀ j, j ∉ Set.range kept.get → w j = 0) →
        residualNorm M rhs y ≤ residualNorm M rhs w) ∧
      (r = n ∨ (∀ i : Fin (min m n), r ≤ i.val → f.pivots i = 0) →
        (∀ w, residualNorm M rhs y ≤ residualNorm M rhs w) ∧
          ∀ w, M.mulVec w = rhs → M.mulVec y = rhs) := by
  intro f r kept
  have hcutoff : 0 ≤ cutoff.getD (defaultCutoff m n) := by
    cases cutoff with
    | none => exact defaultCutoff_nonneg m n
    | some c => exact hc c rfl
  obtain ⟨y, hy, hbasic⟩ := pivotedLeastSquares_basic hQ M rhs cutoff hcutoff
  refine ⟨y, hy, (hQ M).linearIndependent_leading hcutoff, hbasic.outside,
    fun w hw => residualNorm_le_of_orthogonal (hbasic.orthogonal hw), fun hdiscarded => ?_⟩
  have hzero : ∀ i : Fin (min m n), r ≤ i.val → f.pivots i = 0 := by
    rcases hdiscarded with hall | hzero
    · intro i hi
      omega
    · exact hzero
  have huniv := (hQ M).basicSolution_univ (hg M) hcutoff hzero hbasic
  have hle : ∀ w, residualNorm M rhs y ≤ residualNorm M rhs w := fun w =>
    residualNorm_le_of_orthogonal (huniv.orthogonal fun j hj => absurd (Set.mem_univ j) hj)
  exact ⟨hle, fun w hw => mulVec_eq_of_residualNorm_le (hle w) hw⟩

/-- A matrix of equal columns, one of which is kept. The system has solutions and is solved. -/
theorem pivotedLeastSquares_optimal_ones :
    let F := Factorizations.exact
    let M : Mat ℝ 2 2 := Mat.ofFn ![![1, 1], ![1, 1]]
    let rhs : Vec ℝ 2 := Vec.ofFn ![3, 3]
    F.ExactPivotedQR ∧ F.GreedyPivotedQR ∧
      (∀ i : Fin (min 2 2), (F.pivotedQR M).rank 0 ≤ i.val → (F.pivotedQR M).pivots i = 0) ∧
      ∃ y, pivotedLeastSquares F M rhs (some 0) = .ok y ∧ M.mulVec y = rhs := by
  intro F M rhs
  have hQ : F.ExactPivotedQR := Factorizations.exact_exactPivotedQR
  have hg : F.GreedyPivotedQR := Factorizations.exact_greedyPivotedQR
  have hzero : ∀ i : Fin (min 2 2), (F.pivotedQR M).rank 0 ≤ i.val →
      (F.pivotedQR M).pivots i = 0 := by
    intro i hi
    have hstop := ((hQ M).lt_rank_iff 0 i).not.mp (not_lt.mpr hi)
    rw [exceeds_iff, mul_zero, not_lt] at hstop
    exact le_antisymm hstop ((F.pivotedQR M).pivots_nonneg i)
  obtain ⟨y, hy, -, -, -, hoptimal⟩ := pivotedLeastSquares_optimal hQ hg M rhs (some 0)
    fun c hc => (Option.some.inj hc).le
  refine ⟨hQ, hg, hzero, y, hy, (hoptimal (.inr hzero)).2 (Vec.ofFn ![3, 0]) ?_⟩
  rw [Mat.mulVec_eq_iff]
  ext i
  fin_cases i <;> simp [M, rhs]

end QuadraticProgram
