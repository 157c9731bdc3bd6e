import QuadraticProgram.Proofs.Constraints.Parallel
import QuadraticProgram.Proofs.LeastSquares.Signs

/-! # Which rows are kept

The rows kept depend on the inner products of the unit rows, up to signs. So rows may be multiplied
by any factors but zero, and variables may be put in another order, and the same rows are kept.
-/

namespace QuadraticProgram
open Matrix

variable {m n : ℕ} {F : Factorizations ℝ} {A : Mat ℝ m n} {b : Vec ℝ m} {red : Reduced ℝ m n}

/-- Rows with the same inner products, up to signs, are kept alike. -/
theorem independentRows_congr (hQ : F.ExactPivotedQR) (hg : F.FirstLongestPivotedQR)
    {A A' : Mat ℝ m n} {d : Fin m → ℝ}
    (h : PivotedQR.SameProducts A.transpose A'.transpose d) :
    independentRows F A' none = independentRows F A none := by
  have hperm := (hg A.transpose).perm_eq (hg A'.transpose) (hQ _) (hQ _) h
  have hpivots := (hg A.transpose).pivots_eq (hg A'.transpose) (hQ _) (hQ _) h
  have hrank := PivotedQR.rank_congr hpivots (defaultCutoff m n)
  have hrange := PivotedQR.range_leading_congr hperm hrank
  unfold independentRows
  rw [Mat.isFinite_eq_true, Mat.isFinite_eq_true]
  split
  · rfl
  · refine congrArg Except.ok (List.filter_congr fun i _ => ?_)
    rw [Bool.eq_iff_iff]
    simp only [Array.contains_iff_mem, Vec.mem_toArray_iff]
    exact Set.ext_iff.mp hrange i

section Rescaling

/-- Every row multiplied by a factor. -/
def Mat.multiplyRows (d : Fin m → ℝ) (A : Mat ℝ m n) : Mat ℝ m n := ofFn fun i j => d i * A i j

@[simp] theorem Mat.get_multiplyRows (d : Fin m → ℝ) (A : Mat ℝ m n) (i : Fin m) (j : Fin n) :
    A.multiplyRows d i j = d i * A i j :=
  get_ofFn _ i j

/-- Every entry multiplied by a factor. -/
def Vec.multiply (d : Fin m → ℝ) (b : Vec ℝ m) : Vec ℝ m := ofFn fun i => d i * b i

@[simp] theorem Vec.get_multiply (d : Fin m → ℝ) (b : Vec ℝ m) (i : Fin m) :
    b.multiply d i = d i * b i :=
  get_ofFn _ i

/-- The signs of factors. -/
noncomputable def signs (d : Fin m → ℝ) (i : Fin m) : ℝ := d i / |d i|

variable {d : Fin m → ℝ}

theorem signs_mul_self (hd : ∀ i, d i ≠ 0) : signs d * signs d = 1 := by
  ext i
  rw [Pi.mul_apply, signs, div_mul_div_comm, abs_mul_abs_self, Pi.one_apply,
    div_self (mul_self_ne_zero.mpr (hd i))]

theorem norm_row_multiplyRows (d : Fin m → ℝ) (A : Mat ℝ m n) (i : Fin m) :
    ((A.multiplyRows d).row i).norm = |d i| * (A.row i).norm := by
  have hrow : ((A.multiplyRows d).row i).get = d i • (A.row i).get := by
    ext j
    simp
  rw [Vec.norm_eq, Vec.norm_eq, hrow, smul_dotProduct, dotProduct_smul, smul_eq_mul, smul_eq_mul,
    ← mul_assoc, Real.sqrt_mul (mul_self_nonneg _), Real.sqrt_mul_self_eq_abs]

theorem row_eq_zero_of_norm {i : Fin m} (h : (A.row i).norm = 0) : A.toMatrix i = 0 := by
  rw [Vec.norm_eq, Real.sqrt_eq_zero (dotProduct_self_nonneg _), dotProduct_self_eq_zero] at h
  exact h

theorem rowScales_multiplyRows (hd : ∀ i, d i ≠ 0) {i : Fin m} (hi : A.toMatrix i ≠ 0) :
    rowScales (A.multiplyRows d) i = |d i| * rowScales A i := by
  have hnorm : (A.row i).norm ≠ 0 := fun h => hi (row_eq_zero_of_norm h)
  rw [rowScales_apply, rowScales_apply, norm_row_multiplyRows, if_neg hnorm,
    if_neg (mul_ne_zero (abs_ne_zero.mpr (hd i)) hnorm)]

/-- A factor leaves nothing but its sign on a unit row. -/
theorem scaleRows_multiplyRows (hd : ∀ i, d i ≠ 0) (A : Mat ℝ m n) (i : Fin m) (j : Fin n) :
    scaleRows (A.multiplyRows d) (rowScales (A.multiplyRows d)) i j =
      signs d i * scaleRows A (rowScales A) i j := by
  rw [get_scaleRows, get_scaleRows, Mat.get_multiplyRows]
  by_cases hi : A.toMatrix i = 0
  · have hij : A i j = 0 := congrFun hi j
    rw [hij, mul_zero, zero_div, zero_div, mul_zero]
  · rw [rowScales_multiplyRows hd hi, signs, mul_div_mul_comm]

theorem signed_scaleRows (hd : ∀ i, d i ≠ 0) (A : Mat ℝ m n) :
    Signed (scaleRows A (rowScales A)) (scaleRows (A.multiplyRows d) (rowScales (A.multiplyRows d)))
      (signs d) 1 where
  row_sign := signs_mul_self hd
  col_sign := one_mul 1
  apply_eq i j := by rw [scaleRows_multiplyRows hd, Pi.one_apply, mul_one]

/-- Reduced constraints after the rows have been multiplied by factors. -/
noncomputable def Reduced.rescaled (red : Reduced ℝ m n) (A : Mat ℝ m n) (d : Fin m → ℝ) :
    Reduced ℝ m n where
  scales := rowScales (A.multiplyRows d)
  numRows := red.numRows
  rows := red.rows
  matrix := red.matrix.multiplyRows fun k => signs d (red.rows k)
  target := red.target.multiply fun k => signs d (red.rows k)

theorem Reduced.Of.row_ne_zero (hred : red.Of A b) {k : Fin red.numRows}
    (hk : red.matrix.toMatrix k ≠ 0) : A.toMatrix (red.rows k) ≠ 0 := by
  rw [hred.row_eq]
  exact smul_ne_zero (hred.scales_ne_zero _) hk

/-- Factors change the signs of the rows kept, and not which rows are kept. -/
theorem reduceConstraints_multiplyRows (hQ : F.ExactPivotedQR) (hg : F.FirstLongestPivotedQR)
    (hd : ∀ i, d i ≠ 0) (h : reduceConstraints F A b = .ok red) :
    reduceConstraints F (A.multiplyRows d) (b.multiply d) = .ok (red.rescaled A d) := by
  have hne := fun k => (reduceConstraints_of h).row_ne_zero (matrix_row_ne_zero hQ h k)
  obtain ⟨kept, hkept, rfl⟩ := exists_independentRows h
  have hrows := independentRows_congr hQ hg (signed_scaleRows hd A).transpose.sameProducts
  rw [reduceConstraints, hrows, hkept]
  refine congrArg Except.ok ?_
  rw [Reduced.rescaled, Reduced.mk.injEq]
  refine ⟨rfl, rfl, HEq.rfl, heq_of_eq (Mat.ext_get fun k j => ?_),
    heq_of_eq (Vec.ext_get fun k => ?_)⟩
  · rw [Mat.get_selectRows, scaleRows_multiplyRows hd, Mat.get_multiplyRows, Mat.get_selectRows]
  · rw [Vec.get_select, Vec.get_div, Vec.get_multiply, Vec.get_multiply, Vec.get_select,
      Vec.get_div, rowScales_multiplyRows hd (hne k), signs, mul_div_mul_comm]

/-- Multipliers of the rescaled rows, scaled back, are divided by the factors. -/
theorem spread_rescaled (hred : red.Of A b) (hd : ∀ i, d i ≠ 0)
    (hne : ∀ k, A.toMatrix (red.rows k) ≠ 0) {y y' : Vec ℝ red.numRows}
    (hy : ∀ k, y' k = signs d (red.rows k) * y k) (i : Fin m) :
    (red.rescaled A d).spread y' i = red.spread y i / d i := by
  by_cases hi : i ∈ Set.range red.rows.get
  · obtain ⟨k, rfl⟩ := hi
    have habs : |d (red.rows k)| * |d (red.rows k)| = d (red.rows k) * d (red.rows k) :=
      abs_mul_abs_self _
    have hscale : (red.rescaled A d).scales (red.rows k) =
        |d (red.rows k)| * red.scales (red.rows k) := by
      rw [hred.scales_eq]
      exact rowScales_multiplyRows hd (hne k)
    have hspread : (red.rescaled A d).spread y' (red.rows k) =
        y' k / (|d (red.rows k)| * red.scales (red.rows k)) := by
      rw [← hscale]
      exact (red.rescaled A d).spread_apply hred.rows_injective y' k
    rw [red.spread_apply hred.rows_injective, hspread, hy, signs, div_mul_eq_mul_div, div_div,
      ← mul_assoc, habs, div_div, mul_assoc, mul_div_mul_left _ _ (hd _), mul_comm (d _)]
  · rw [Reduced.spread_apply_of_notMem _ _ hi, zero_div]
    exact Reduced.spread_apply_of_notMem _ _ hi

end Rescaling

section Reordering

variable (σ : Equiv.Perm (Fin n))

/-- The columns in another order. -/
def Mat.reorderCols (A : Mat ℝ m n) : Mat ℝ m n := ofFn fun i j => A i (σ j)

@[simp] theorem Mat.get_reorderCols (A : Mat ℝ m n) (i : Fin m) (j : Fin n) :
    A.reorderCols σ i j = A i (σ j) :=
  get_ofFn _ i j

/-- Reduced constraints on variables in another order. -/
def Reduced.reordered (red : Reduced ℝ m n) : Reduced ℝ m n :=
  { red with matrix := red.matrix.reorderCols σ }

theorem rowScales_reorderCols (A : Mat ℝ m n) : rowScales (A.reorderCols σ) = rowScales A := by
  apply Vec.ext_get
  intro i
  have hnorm : ((A.reorderCols σ).row i).norm = (A.row i).norm := by
    rw [Vec.norm_eq, Vec.norm_eq, dotProduct, dotProduct]
    congr 1
    refine Fintype.sum_equiv σ _ _ fun j => ?_
    simp
  rw [rowScales_apply, rowScales_apply, hnorm]

theorem sameProducts_reorderCols (A : Mat ℝ m n) :
    PivotedQR.SameProducts A.transpose (A.reorderCols σ).transpose 1 where
  sign _ := one_mul 1
  dotProduct_eq u v := by
    rw [Pi.one_apply, Pi.one_apply, one_mul, one_mul, dotProduct, dotProduct]
    refine Fintype.sum_equiv σ _ _ fun j => ?_
    simp

theorem scaleRows_reorderCols (A : Mat ℝ m n) (scales : Vec ℝ m) :
    scaleRows (A.reorderCols σ) scales = (scaleRows A scales).reorderCols σ := by
  apply Mat.ext_get
  intro i j
  simp

/-- The order of the variables does not decide which rows are kept. -/
theorem reduceConstraints_reorderCols (hQ : F.ExactPivotedQR) (hg : F.FirstLongestPivotedQR)
    (h : reduceConstraints F A b = .ok red) :
    reduceConstraints F (A.reorderCols σ) b = .ok (red.reordered σ) := by
  obtain ⟨kept, hkept, rfl⟩ := exists_independentRows h
  have hrows := independentRows_congr hQ hg
    (sameProducts_reorderCols σ (scaleRows A (rowScales A)))
  rw [reduceConstraints, rowScales_reorderCols, scaleRows_reorderCols, hrows, hkept]
  refine congrArg Except.ok ?_
  rw [Reduced.reordered, Reduced.mk.injEq]
  refine ⟨rfl, rfl, HEq.rfl, heq_of_eq (Mat.ext_get fun k j => ?_), HEq.rfl⟩
  simp

end Reordering

end QuadraticProgram
