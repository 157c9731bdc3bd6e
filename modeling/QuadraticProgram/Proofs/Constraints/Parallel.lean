import QuadraticProgram.Proofs.Constraints.Reduction

/-! # Constraints of one direction

If the rows of the constraints are multiples of one vector and are not all zero, one of them is
kept, and it spans the others. No hypothesis on the decision is needed: the first pivot of a greedy
factorization always counts.
-/

namespace QuadraticProgram
open Matrix

variable {m n : ℕ}

/-- Every row is a multiple of one vector. -/
def Mat.RowsParallel (A : Mat ℝ m n) (u : Fin n → ℝ) : Prop := ∀ i, ∃ a : ℝ, A.toMatrix i = a • u

variable {F : Factorizations ℝ} {A : Mat ℝ m n} {b : Vec ℝ m} {red : Reduced ℝ m n}

theorem toMatrix_scaleRows_ne_zero (hA : A.toMatrix ≠ 0) :
    (scaleRows A (rowScales A)).transpose.toMatrix ≠ 0 := by
  intro h
  apply hA
  ext i j
  have hij := congrFun (congrFun h j) i
  rw [Mat.toMatrix_apply, Mat.get_transpose, get_scaleRows] at hij
  exact (div_eq_zero_iff.mp hij).resolve_right (rowScales_ne_zero A i)

/-- Constraints that are not all zero keep a row. -/
theorem numRows_pos (hQ : F.ExactPivotedQR) (hg : F.GreedyPivotedQR) (hA : A.toMatrix ≠ 0)
    (hc : (defaultCutoff m n : ℝ) < 1) (h : reduceConstraints F A b = .ok red) :
    0 < red.numRows := by
  obtain ⟨kept, hkept, rfl⟩ := exists_independentRows h
  have hne := toMatrix_scaleRows_ne_zero hA
  have hmin : 0 < min n m := by
    obtain ⟨j, i, -⟩ : ∃ j i, (scaleRows A (rowScales A)).transpose.toMatrix j i ≠ 0 := by
      by_contra! hzero
      exact hne (by ext j i; exact hzero j i)
    exact lt_min j.pos i.pos
  have hpos := (hQ _).pivots_zero_pos (hg _) hne (i := ⟨0, hmin⟩) rfl
  have hrank := ((hQ _).lt_rank_iff (defaultCutoff m n) ⟨0, hmin⟩).mpr
    (exceeds_zero hc rfl hpos)
  exact List.length_pos_of_mem ((mem_independentRows_iff hkept _).mpr ⟨⟨0, hrank⟩, rfl⟩)

theorem matrix_row_ne_zero (hQ : F.ExactPivotedQR) (h : reduceConstraints F A b = .ok red)
    (k : Fin red.numRows) : red.matrix.toMatrix k ≠ 0 := by
  intro hk
  have hy := reduceConstraints_independent hQ h (y := Pi.single k 1) (by
    rw [mulVec_single_one]
    exact hk)
  have hone := congrFun hy k
  rw [Pi.single_eq_same] at hone
  exact one_ne_zero hone

/-- Rows of one direction do not depend on each other only if they are one row. -/
theorem numRows_le_one (hQ : F.ExactPivotedQR) {u : Fin n → ℝ} (hA : A.RowsParallel u)
    (h : reduceConstraints F A b = .ok red) : red.numRows ≤ 1 := by
  have hparallel : ∀ k, ∃ a : ℝ, red.matrix.toMatrix k = a • u := by
    intro k
    obtain ⟨a, ha⟩ := hA (red.rows k)
    have hrow := (reduceConstraints_of h).row_eq k
    refine ⟨(red.scales (red.rows k))⁻¹ * a, ?_⟩
    rw [mul_smul, ← ha, hrow, inv_smul_smul₀ ((reduceConstraints_of h).scales_ne_zero _)]
  refine Fin.subsingleton_iff_le_one.mp ⟨fun k l => ?_⟩
  by_contra hkl
  obtain ⟨a, ha⟩ := hparallel k
  obtain ⟨c, hc⟩ := hparallel l
  have hy := reduceConstraints_independent hQ h (y := Pi.single k c - Pi.single l a) (by
    have hcols : red.matrix.toMatrixᵀ.col k = a • u ∧ red.matrix.toMatrixᵀ.col l = c • u :=
      ⟨ha, hc⟩
    rw [mulVec_sub, mulVec_single, mulVec_single, hcols.1, hcols.2, op_smul_eq_smul,
      op_smul_eq_smul, smul_comm, sub_self])
  have hl := congrFun hy l
  rw [Pi.sub_apply, Pi.single_eq_of_ne (Ne.symm hkl), Pi.single_eq_same, zero_sub,
    Pi.zero_apply, neg_eq_zero] at hl
  exact matrix_row_ne_zero hQ h k (by rw [ha, hl, zero_smul])

theorem numRows_eq_one (hQ : F.ExactPivotedQR) (hg : F.GreedyPivotedQR) {u : Fin n → ℝ}
    (hA : A.RowsParallel u) (hne : A.toMatrix ≠ 0) (hc : (defaultCutoff m n : ℝ) < 1)
    (h : reduceConstraints F A b = .ok red) : red.numRows = 1 :=
  le_antisymm (numRows_le_one hQ hA h) (numRows_pos hQ hg hne hc h)

/-- The decision on rows of one direction sets nothing aside that counts. -/
theorem rowsDecided_of_parallel (hQ : F.ExactPivotedQR) (hg : F.GreedyPivotedQR)
    {u : Fin n → ℝ} (hA : A.RowsParallel u) (hne : A.toMatrix ≠ 0)
    (hc : (defaultCutoff m n : ℝ) < 1) : RowsDecided F A b := by
  intro red h i
  let k : Fin red.numRows := ⟨0, numRows_pos hQ hg hne hc h⟩
  obtain ⟨a, ha⟩ := hA i
  obtain ⟨c, hk⟩ := hA (red.rows k)
  have hrow := (reduceConstraints_of h).row_eq k
  have hc0 : c ≠ 0 := by
    rintro rfl
    rw [hk, zero_smul] at hrow
    exact matrix_row_ne_zero hQ h k
      ((smul_eq_zero.mp hrow.symm).resolve_left ((reduceConstraints_of h).scales_ne_zero _))
  have hmul : A.toMatrix i = (a / c) • A.toMatrix (red.rows k) := by
    rw [ha, hk, smul_smul, div_mul_cancel₀ a hc0]
  rw [hmul]
  exact Submodule.smul_mem _ _ (Submodule.subset_span ⟨k, rfl⟩)

/-- Every row points in the direction of one unit vector. -/
structure Mat.RowsAlong (A : Mat ℝ m n) (u : Fin n → ℝ) : Prop where
  unit : u ⬝ᵥ u = 1
  row_eq : ∀ i, ∃ a : ℝ, 0 < a ∧ A.toMatrix i = a • u

namespace Mat.RowsAlong

variable {u : Fin n → ℝ}

theorem parallel (hA : A.RowsAlong u) : A.RowsParallel u := fun i =>
  (hA.row_eq i).imp fun _ h => h.2

theorem toMatrix_ne_zero (hA : A.RowsAlong u) (i : Fin m) : A.toMatrix ≠ 0 := by
  intro h
  obtain ⟨a, ha, hrow⟩ := hA.row_eq i
  have hu := hA.unit
  have hzero : a • u = 0 := hrow.symm.trans (congrFun h i)
  rw [(smul_eq_zero.mp hzero).resolve_left ha.ne', zero_dotProduct] at hu
  exact zero_ne_one hu

/-- The rows become one unit row. -/
theorem matrix_row_eq (hA : A.RowsAlong u) (h : red.Of A b) (k : Fin red.numRows) :
    red.matrix.toMatrix k = u := by
  obtain ⟨a, ha, hrow⟩ := hA.row_eq (red.rows k)
  have hnorm : (A.row (red.rows k)).norm = a := by
    rw [Vec.norm_eq, Mat.coe_row, hrow, smul_dotProduct, dotProduct_smul, hA.unit, smul_eq_mul,
      smul_eq_mul, mul_one, Real.sqrt_mul_self ha.le]
  have hscale : red.scales (red.rows k) = a := by
    rw [h.scales_eq, rowScales_apply, hnorm, if_neg ha.ne']
  have hk := h.row_eq k
  rw [hscale, hrow] at hk
  exact (smul_right_injective _ ha.ne' hk).symm

/-- Of such rows one is kept. -/
theorem reduced_eq (hA : A.RowsAlong u) (hQ : F.ExactPivotedQR) (hg : F.GreedyPivotedQR)
    (hm : 0 < m) (hc : (defaultCutoff m n : ℝ) < 1) (h : reduceConstraints F A b = .ok red) :
    ∃ scales rows t, red = ⟨scales, 1, rows, ofFn fun _ => u, t⟩ := by
  have hnum := numRows_eq_one hQ hg hA.parallel (hA.toMatrix_ne_zero ⟨0, hm⟩) hc h
  have hrow := hA.matrix_row_eq (reduceConstraints_of h)
  obtain ⟨scales, k, rows, R, t⟩ := red
  dsimp only at hnum hrow
  subst hnum
  have hR : R = ofFn fun _ => u := by
    apply ext_get
    intro i j
    rw [get_ofFn]
    exact congrFun (hrow i) j
  exact ⟨scales, rows, t, by rw [hR]⟩

end Mat.RowsAlong

theorem rowsAlong_double : (Mat.ofFn ![![1, 0], ![2, 0]] : Mat ℝ 2 2).RowsAlong ![1, 0] where
  unit := by simp [dotProduct, Fin.sum_univ_two]
  row_eq i := by
    fin_cases i
    · exact ⟨1, one_pos, by ext j; fin_cases j <;> simp⟩
    · exact ⟨2, two_pos, by ext j; fin_cases j <;> simp⟩

theorem rowsAlong_single {a : ℝ} (ha : 0 < a) :
    (Mat.ofFn ![![a, 0]] : Mat ℝ 1 2).RowsAlong ![1, 0] where
  unit := by simp [dotProduct, Fin.sum_univ_two]
  row_eq i := by
    fin_cases i
    exact ⟨a, ha, by ext j; fin_cases j <;> simp⟩

end QuadraticProgram
