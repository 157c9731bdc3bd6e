import QuadraticProgram.Proofs.Constraints.Invariance
import QuadraticProgram.Proofs.Factorization.Standard
import QuadraticProgram.Proofs.LeastSquares.Discarded

/-! # What reduced constraints lose

The rows set aside are almost combinations of the rows kept. So a point that meets the reduced
constraints misses each row of a system that has a solution by no more than the cutoff times the
length of the row and the distance from the solution.
-/

namespace QuadraticProgram
open Matrix

variable {m n : ℕ} {F : Factorizations ℝ} {A : Mat ℝ m n} {b : Vec ℝ m} {red : Reduced ℝ m n}

/-- A row is its scaled row times its scale. -/
theorem toMatrix_row_eq (A : Mat ℝ m n) (i : Fin m) :
    A.toMatrix i = rowScales A i • (scaleRows A (rowScales A)).toMatrix i := by
  funext j
  rw [Pi.smul_apply, smul_eq_mul, Mat.toMatrix_apply, Mat.toMatrix_apply, get_scaleRows,
    mul_div_cancel₀ _ (rowScales_ne_zero A i)]

theorem norm_row_mul_self (A : Mat ℝ m n) (i : Fin m) :
    (A.row i).norm * (A.row i).norm = A.toMatrix i ⬝ᵥ A.toMatrix i := by
  rw [Vec.norm_eq, Mat.coe_row, Real.mul_self_sqrt (dotProduct_self_nonneg _)]

/-- Rows that are not zero become unit rows. -/
theorem scaleRows_dotProduct_self {i : Fin m} (h : (A.row i).norm ≠ 0) :
    (scaleRows A (rowScales A)).toMatrix i ⬝ᵥ (scaleRows A (rowScales A)).toMatrix i = 1 := by
  have hnorm := norm_row_mul_self A i
  rw [toMatrix_row_eq, rowScales_apply, if_neg h, smul_dotProduct, dotProduct_smul, smul_eq_mul,
    smul_eq_mul, ← mul_assoc] at hnorm
  exact (mul_eq_left₀ (mul_self_ne_zero.mpr h)).mp hnorm.symm

theorem scaleRows_dotProduct_self_le (A : Mat ℝ m n) (i : Fin m) :
    (scaleRows A (rowScales A)).toMatrix i ⬝ᵥ (scaleRows A (rowScales A)).toMatrix i ≤ 1 := by
  by_cases h : (A.row i).norm = 0
  · have hrow := toMatrix_row_eq A i
    rw [row_eq_zero_of_norm h, rowScales_apply, if_pos h, one_smul] at hrow
    rw [← hrow, dotProduct_zero]
    exact zero_le_one
  · exact (scaleRows_dotProduct_self h).le

/-- The rows kept are scaled rows. -/
theorem Reduced.Of.matrix_row (h : red.Of A b) (k : Fin red.numRows) :
    red.matrix.toMatrix k = (scaleRows A (rowScales A)).toMatrix (red.rows k) := by
  funext j
  rw [Mat.toMatrix_apply, Mat.toMatrix_apply, h.matrix_apply, get_scaleRows, h.scales_eq]

/-- A direction that the rows kept do not see is hardly seen by any row. -/
theorem abs_dotProduct_row_le (hQ : F.ExactPivotedQR) (hg : F.GreedyPivotedQR)
    (h : reduceConstraints F A b = .ok red) {d : Fin n → ℝ} (hd : red.matrix.toMatrix *ᵥ d = 0)
    (i : Fin m) : |A.toMatrix i ⬝ᵥ d| ≤ defaultCutoff m n * (A.row i).norm * √(d ⬝ᵥ d) := by
  have hc := defaultCutoff_nonneg m n
  have hof := reduceConstraints_of h
  obtain ⟨kept, hkept, rfl⟩ := exists_independentRows h
  let M := (scaleRows A (rowScales A)).transpose
  have hcol : ∀ v, M.toMatrix.col v = (scaleRows A (rowScales A)).toMatrix v := fun v => by
    rw [Mat.toMatrix_transpose]
    rfl
  have hleading : ∀ l, M.toMatrix.col ((F.pivotedQR M).leading _
      ((F.pivotedQR M).rank_le (defaultCutoff m n)) l) ⬝ᵥ d = 0 := by
    intro l
    obtain ⟨k, hk⟩ := (mem_range_positions_iff kept _).mpr
      ((mem_independentRows_iff hkept _).mpr ⟨l, rfl⟩)
    have hrow : M.toMatrix.col _ = _ :=
      (hcol _).trans ((congrArg _ hk.symm).trans (hof.matrix_row k).symm)
    exact (congrArg (· ⬝ᵥ d) hrow).trans (congrFun hd k)
  have hunit : ∀ v, M.toMatrix.col v ⬝ᵥ M.toMatrix.col v ≤ 1 := fun v => by
    rw [hcol]
    exact scaleRows_dotProduct_self_le A v
  have hsq := (hQ M).sq_dotProduct_col_le (hg M) hc hunit hleading i
  have habs := Real.abs_le_sqrt hsq
  rw [one_mul, Real.sqrt_mul (sq_nonneg _), Real.sqrt_sq hc, hcol] at habs
  by_cases hi : (A.row i).norm = 0
  · rw [row_eq_zero_of_norm hi, zero_dotProduct, abs_zero, hi, mul_zero, zero_mul]
  · have hpos : 0 < (A.row i).norm := lt_of_le_of_ne (by rw [Vec.norm_eq]; positivity) (Ne.symm hi)
    calc |A.toMatrix i ⬝ᵥ d| = (A.row i).norm * |(scaleRows A (rowScales A)).toMatrix i ⬝ᵥ d| := by
          rw [toMatrix_row_eq, rowScales_apply, if_neg hi, smul_dotProduct, smul_eq_mul, abs_mul,
            abs_of_pos hpos]
      _ ≤ (A.row i).norm * (defaultCutoff m n * √(d ⬝ᵥ d)) :=
          mul_le_mul_of_nonneg_left habs hpos.le
      _ = defaultCutoff m n * (A.row i).norm * √(d ⬝ᵥ d) := by ring

theorem norm_row_ne_zero (hQ : F.ExactPivotedQR) (h : reduceConstraints F A b = .ok red)
    (k : Fin red.numRows) : (A.row (red.rows k)).norm ≠ 0 := fun hk =>
  (reduceConstraints_of h).row_ne_zero (matrix_row_ne_zero hQ h k) (row_eq_zero_of_norm hk)

theorem defaultCutoff_eq (m n : ℕ) : (defaultCutoff m n : ℝ) = (max m n : ℕ) * (2 : ℝ)⁻¹ ^ 52 := by
  change ((max m n : ℕ) : ℝ) * Scalar.epsilon = _
  rw [Scalar.epsilon, Scalar.ratio_eq]
  norm_num

/-- Reduction loses nothing beyond the cutoff. The rows kept are independent unit rows, and a point
that meets them misses no row of a system with a solution by more than the cutoff times the length
of the row and the distance from the solution. If the rows set aside are combinations of the rows
kept, it misses none. -/
theorem reduceConstraints_within_cutoff (hQ : F.ExactPivotedQR) (hg : F.GreedyPivotedQR)
    (A : Mat ℝ m n) (b : Vec ℝ m) :
    ∃ red, reduceConstraints F A b = .ok red ∧
      LinearIndependent ℝ red.matrix.toMatrix.row ∧
      (∀ k, (red.matrix.row k).norm = 1 ∧ (A.row (red.rows k)).norm ≠ 0 ∧
        (∀ j, red.matrix k j = A (red.rows k) j / (A.row (red.rows k)).norm) ∧
        red.target k = b (red.rows k) / (A.row (red.rows k)).norm) ∧
      (∀ x₀ x, A.mulVec x₀ = b → red.matrix.mulVec x = red.target → ∀ i,
        |A.mulVec x i - b i| ≤
          (max m n : ℕ) * (2 : ℝ)⁻¹ ^ 52 * (A.row i).norm * (x.sub x₀).norm) ∧
      ((∀ i, i ∉ Set.range red.rows.get →
          A.toMatrix i ∈ Submodule.span ℝ (Set.range fun k => A.toMatrix (red.rows k))) →
        ∀ x₀, A.mulVec x₀ = b → ∀ x, red.matrix.mulVec x = red.target ↔ A.mulVec x = b) := by
  obtain ⟨red, h⟩ := reduceConstraints_eq_ok F A b
  have hof := reduceConstraints_of h
  have hnorm := norm_row_ne_zero hQ h
  have hscale : ∀ k, red.scales (red.rows k) = (A.row (red.rows k)).norm := fun k => by
    rw [hof.scales_eq, rowScales_apply, if_neg (hnorm k)]
  refine ⟨red, h, ?_, fun k => ⟨?_, hnorm k, fun j => ?_, ?_⟩, fun x₀ x hx₀ hx i => ?_,
    fun hspan x₀ hx₀ x => ?_⟩
  · rw [Fintype.linearIndependent_iff]
    intro y hy
    refine congrFun (reduceConstraints_independent hQ h (y := y) ?_)
    rw [mulVec_transpose, vecMul_eq_sum]
    exact hy
  · rw [Vec.norm_eq, Mat.coe_row, hof.matrix_row, scaleRows_dotProduct_self (hnorm k),
      Real.sqrt_one]
  · rw [hof.matrix_apply, hscale]
  · rw [hof.target_apply, hscale]
  · have hx₀' := (Mat.mulVec_eq_iff A x₀ b).mp hx₀
    have hkeeps : red.matrix.toMatrix *ᵥ (x.get - x₀.get) = 0 := by
      rw [mulVec_sub, (Mat.mulVec_eq_iff _ _ _).mp hx, sub_eq_zero]
      exact ((hof.mulVec_eq_target_iff x₀.get).mpr fun k => congrFun hx₀' _).symm
    have hrow := abs_dotProduct_row_le hQ hg h hkeeps i
    rw [dotProduct_sub] at hrow
    rw [Mat.coe_mulVec, ← hx₀', Vec.norm_eq (x.sub x₀), Vec.coe_sub, ← defaultCutoff_eq]
    exact hrow
  · have hs : red.Spans A := fun i => by
      by_cases hi : i ∈ Set.range red.rows.get
      · obtain ⟨k, rfl⟩ := hi
        exact Submodule.subset_span ⟨k, rfl⟩
      · exact hspan i hi
    rw [Mat.mulVec_eq_iff]
    exact (hof.meets_iff_of_spans hs hx₀ x).symm

/-- Of a row, twice the row and a row of zeros one row is kept. No other row is missed by more than
the cutoff allows, and all hold wherever the row kept holds. -/
theorem reduceConstraints_within_cutoff_zero_row :
    let A : Mat ℝ 3 2 := Mat.ofFn ![![1, 0], ![2, 0], ![0, 0]]
    let b : Vec ℝ 3 := Vec.ofFn ![3, 6, 0]
    let x₀ : Vec ℝ 2 := Vec.ofFn ![3, 0]
    A.mulVec x₀ = b ∧ ∃ red, reduceConstraints Factorizations.standard A b = .ok red ∧
      red.numRows = 1 ∧
      (∀ k, (red.matrix.row k).norm = 1) ∧
      (∀ x, red.matrix.mulVec x = red.target → ∀ i,
        |A.mulVec x i - b i| ≤ 3 * (2 : ℝ)⁻¹ ^ 52 * (A.row i).norm * (x.sub x₀).norm) ∧
      ∀ x, red.matrix.mulVec x = red.target ↔ A.mulVec x = b := by
  intro A b x₀
  have hQ := Factorizations.standard_exactPivotedQR
  have hg := Factorizations.standard_greedyPivotedQR
  have hparallel : A.RowsParallel ![1, 0] := by
    intro i
    refine ⟨![1, 2, 0] i, ?_⟩
    ext j
    fin_cases i <;> fin_cases j <;> simp [A]
  have hne : A.toMatrix ≠ 0 := fun h => by
    have h00 := congrFun (congrFun h 0) 0
    simp [A] at h00
  have hc : (defaultCutoff 3 2 : ℝ) < 1 := defaultCutoff_lt_one (by norm_num)
  have hx₀ : A.mulVec x₀ = b := by
    rw [Mat.mulVec_eq_iff]
    ext i
    fin_cases i <;> norm_num [A, b, x₀, mulVec, dotProduct, Fin.sum_univ_two]
  obtain ⟨red, h, -, hunit, hwithin, hspan⟩ := reduceConstraints_within_cutoff hQ hg A b
  refine ⟨hx₀, red, h, numRows_eq_one hQ hg hparallel hne hc h, fun k => (hunit k).1,
    fun x hx i => ?_, hspan (fun i _ => ?_) x₀ hx₀⟩
  · exact_mod_cast hwithin x₀ x hx₀ hx i
  · exact rowsDecided_of_parallel hQ hg hparallel hne hc red h i

end QuadraticProgram
