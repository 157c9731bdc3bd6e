import Mathlib.LinearAlgebra.Finsupp.LinearCombination
import QuadraticProgram.Constraints.Reduction
import QuadraticProgram.Proofs.LeastSquares.Pivoted

/-! # What reduced constraints keep

The rows kept are rows of the constraints in ascending order, divided by their scales, and they are
independent. If every other row is a combination of them, they carry all multipliers, and a system
that has a solution at all has the same solutions as its reduced form.
-/

namespace QuadraticProgram
open Matrix

variable {m n k : ℕ}

theorem Vec.mem_toArray_iff {α : Type} (x : Vec α k) (a : α) : a ∈ x.toArray ↔ ∃ i, x i = a := by
  rw [Vec.toArray, Vector.mem_toArray_iff, Vector.mem_iff_getElem]
  constructor
  · rintro ⟨i, hi, rfl⟩
    exact ⟨⟨i, hi⟩, rfl⟩
  · rintro ⟨i, rfl⟩
    exact ⟨i, i.isLt, rfl⟩

theorem rowScales_apply (A : Mat ℝ m n) (i : Fin m) :
    rowScales A i = if (A.row i).norm = 0 then 1 else (A.row i).norm := by
  rw [rowScales, Vec.get_ofFn]
  simp only [Scalar.same_iff]

/-- No scale is zero, so rows can be divided by their scales. -/
theorem rowScales_ne_zero (A : Mat ℝ m n) (i : Fin m) : rowScales A i ≠ 0 := by
  rw [rowScales_apply]
  split
  · exact one_ne_zero
  · assumption

theorem positions_strictMono {rows : List (Fin m)} (h : rows.Pairwise (· < ·)) :
    StrictMono (positions rows).get := by
  intro i j hij
  rw [positions, Vec.get_ofFn, Vec.get_ofFn]
  exact List.pairwise_iff_get.mp h i j hij

theorem mem_range_positions_iff (rows : List (Fin m)) (i : Fin m) :
    i ∈ Set.range (positions rows).get ↔ i ∈ rows := by
  rw [List.mem_iff_get]
  exact exists_congr fun j => by rw [positions, Vec.get_ofFn]

/-- Independent rows are always found. They are in ascending order. -/
theorem independentRows_eq (F : Factorizations ℝ) (A : Mat ℝ m n) (cutoff : Option ℝ) :
    ∃ rows, independentRows F A cutoff = .ok rows ∧ rows.Pairwise (· < ·) := by
  unfold independentRows
  split
  · exact ⟨[], rfl, List.Pairwise.nil⟩
  · rw [Mat.isFinite_eq_true]
    exact ⟨_, rfl, (List.pairwise_lt_finRange m).filter _⟩

/-- The rows found are those of the columns that the factorization of the transpose keeps. -/
theorem mem_independentRows_iff {F : Factorizations ℝ} {A : Mat ℝ m n} {cutoff : Option ℝ}
    {rows : List (Fin m)} (h : independentRows F A cutoff = .ok rows) (i : Fin m) :
    i ∈ rows ↔ i ∈ Set.range ((F.pivotedQR A.transpose).leading _
      ((F.pivotedQR A.transpose).rank_le (cutoff.getD (defaultCutoff m n)))).get := by
  unfold independentRows at h
  split at h
  · rename_i hmn
    obtain rfl := Except.ok.inj h
    constructor
    · intro hi
      exact absurd hi List.not_mem_nil
    · rintro ⟨j, -⟩
      have := (F.pivotedQR A.transpose).rank_le (cutoff.getD (defaultCutoff m n))
      have := j.isLt
      omega
  · rw [Mat.isFinite_eq_true] at h
    obtain rfl := Except.ok.inj h
    simp [Vec.mem_toArray_iff]

/-- Reduced constraints as rows of the constraints that they come from. -/
structure Reduced.Of (red : Reduced ℝ m n) (A : Mat ℝ m n) (b : Vec ℝ m) : Prop where
  rows_strictMono : StrictMono red.rows.get
  scales_eq : red.scales = rowScales A
  matrix_apply : ∀ k j, red.matrix k j = A (red.rows k) j / red.scales (red.rows k)
  target_apply : ∀ k, red.target k = b (red.rows k) / red.scales (red.rows k)

namespace Reduced

/-- The multipliers of reduced constraints, scaled back and spread over all rows. -/
noncomputable def spread (red : Reduced ℝ m n) (y : Vec ℝ red.numRows) : Vec ℝ m :=
  Vec.scatter red.rows (y.div (red.scales.select red.rows))

theorem spread_apply (red : Reduced ℝ m n) (hrows : Function.Injective red.rows.get)
    (y : Vec ℝ red.numRows) (k : Fin red.numRows) :
    red.spread y (red.rows k) = y k / red.scales (red.rows k) := by
  rw [spread, Vec.scatter_apply hrows, Vec.get_div, Vec.get_select]

theorem spread_apply_of_notMem (red : Reduced ℝ m n) (y : Vec ℝ red.numRows) {i : Fin m}
    (hi : i ∉ Set.range red.rows.get) : red.spread y i = 0 :=
  Vec.scatter_apply_of_notMem hi _

theorem spread_of_numRows_eq_zero (red : Reduced ℝ m n) (h : red.numRows = 0)
    (y : Vec ℝ red.numRows) : red.spread y = Vec.zero := by
  apply Vec.ext_get
  intro i
  rw [Vec.get_zero]
  apply spread_apply_of_notMem
  rintro ⟨k, -⟩
  exact absurd k.isLt (by omega)

end Reduced

/-- Every row of the constraints is a combination of the rows kept. -/
def Reduced.Spans (red : Reduced ℝ m n) (A : Mat ℝ m n) : Prop :=
  ∀ i, A.toMatrix i ∈ Submodule.span ℝ (Set.range fun k => A.toMatrix (red.rows k))

/-- The rows that are set aside are combinations of the rows kept. -/
def RowsDecided (F : Factorizations ℝ) (A : Mat ℝ m n) (b : Vec ℝ m) : Prop :=
  ∀ red, reduceConstraints F A b = .ok red → red.Spans A

section Reduce

variable {F : Factorizations ℝ} {A : Mat ℝ m n} {b : Vec ℝ m} {red : Reduced ℝ m n}

/-- The constraints reduced to given rows. -/
noncomputable abbrev Reduced.keeping (A : Mat ℝ m n) (kept : List (Fin m)) (b : Vec ℝ m) :
    Reduced ℝ m n :=
  ⟨rowScales A, kept.length, positions kept,
    (scaleRows A (rowScales A)).selectRows (positions kept),
    (b.div (rowScales A)).select (positions kept)⟩

/-- The matrix alone decides which rows are kept. -/
theorem exists_keeping (F : Factorizations ℝ) (A : Mat ℝ m n) :
    ∃ kept, independentRows F (scaleRows A (rowScales A)) none = .ok kept ∧
      ∀ b, reduceConstraints F A b = .ok (.keeping A kept b) := by
  obtain ⟨kept, hkept, -⟩ := independentRows_eq F (scaleRows A (rowScales A)) none
  refine ⟨kept, hkept, fun b => ?_⟩
  rw [reduceConstraints, hkept]
  rfl

theorem reduceConstraints_eq_ok (F : Factorizations ℝ) (A : Mat ℝ m n) (b : Vec ℝ m) :
    ∃ red, reduceConstraints F A b = .ok red := by
  obtain ⟨kept, -, hred⟩ := exists_keeping F A
  exact ⟨_, hred b⟩

/-- What the reduction of constraints returns, in terms of the independent rows. -/
theorem exists_independentRows (h : reduceConstraints F A b = .ok red) :
    ∃ kept, independentRows F (scaleRows A (rowScales A)) none = .ok kept ∧
      red = .keeping A kept b := by
  obtain ⟨kept, hkept, hred⟩ := exists_keeping F A
  exact ⟨kept, hkept, Except.ok.inj (h.symm.trans (hred b))⟩

theorem reduceConstraints_of (h : reduceConstraints F A b = .ok red) : red.Of A b := by
  obtain ⟨kept, hkept, rfl⟩ := exists_independentRows h
  obtain ⟨_, hkept', hmono⟩ := independentRows_eq F (scaleRows A (rowScales A)) none
  obtain rfl := Except.ok.inj (hkept.symm.trans hkept')
  refine ⟨positions_strictMono hmono, rfl, fun k j => ?_, fun k => ?_⟩
  · rw [Mat.get_selectRows, get_scaleRows]
  · rw [Vec.get_select, Vec.get_div]

/-- The rows kept are independent. -/
theorem reduceConstraints_independent (hF : F.ExactPivotedQR)
    (h : reduceConstraints F A b = .ok red) {y : Fin red.numRows → ℝ}
    (hy : red.matrix.toMatrixᵀ *ᵥ y = 0) : y = 0 := by
  have hinj := (reduceConstraints_of h).rows_strictMono.injective
  obtain ⟨kept, hkept, rfl⟩ := exists_independentRows h
  have hf := hF (scaleRows A (rowScales A)).transpose
  -- the combination of kept rows, spread over all rows, is one of leading columns
  have hzero : (scaleRows A (rowScales A)).transpose.toMatrix *ᵥ
      (Vec.scatter (positions kept) (Vec.ofFn y)).get = 0 := by
    rw [Vec.mulVec_scatter _ hinj, Vec.coe_ofFn, ← hy, Mat.toMatrix_transpose]
    simp only [Mat.toMatrix_selectRows, transpose_submatrix]
  have hsupp : ∀ j, j ∉ Set.range ((F.pivotedQR (scaleRows A (rowScales A)).transpose).leading _
      ((F.pivotedQR (scaleRows A (rowScales A)).transpose).rank_le (defaultCutoff m n))).get →
      Vec.scatter (positions kept) (Vec.ofFn y) j = 0 := by
    intro j hj
    apply Vec.scatter_apply_of_notMem
    rwa [mem_range_positions_iff, mem_independentRows_iff hkept]
  rw [← Vec.scatter_select (hf.leading_injective _) hsupp,
    Vec.mulVec_scatter _ (hf.leading_injective _)] at hzero
  have hsel := hf.leading_independent (defaultCutoff_nonneg m n) hzero
  funext i
  by_contra hi
  have hne : Vec.scatter (positions kept) (Vec.ofFn y) (positions kept i) ≠ 0 := by
    rwa [Vec.scatter_apply hinj, Vec.get_ofFn]
  obtain ⟨j, hj⟩ : positions kept i ∈ Set.range _ := by
    by_contra hnot
    exact hne (hsupp _ hnot)
  apply hne
  rw [← hj, ← Vec.get_select, hsel]
  rfl

end Reduce

namespace Reduced.Of

variable {A : Mat ℝ m n} {b : Vec ℝ m} {red : Reduced ℝ m n}

theorem rows_injective (h : red.Of A b) : Function.Injective red.rows.get :=
  h.rows_strictMono.injective

theorem scales_ne_zero (h : red.Of A b) (i : Fin m) : red.scales i ≠ 0 := by
  rw [h.scales_eq]
  exact rowScales_ne_zero A i

theorem row_eq (h : red.Of A b) (k : Fin red.numRows) :
    A.toMatrix (red.rows k) = red.scales (red.rows k) • red.matrix.toMatrix k := by
  funext j
  rw [Pi.smul_apply, smul_eq_mul, Mat.toMatrix_apply, Mat.toMatrix_apply, h.matrix_apply,
    mul_div_cancel₀ _ (h.scales_ne_zero _)]

theorem target_eq (h : red.Of A b) (k : Fin red.numRows) :
    b (red.rows k) = red.scales (red.rows k) * red.target k := by
  rw [h.target_apply, mul_div_cancel₀ _ (h.scales_ne_zero _)]

/-- A row kept takes the value of its reduced row, times its scale. -/
theorem mulVec_rows (h : red.Of A b) (x : Fin n → ℝ) (k : Fin red.numRows) :
    (A.toMatrix *ᵥ x) (red.rows k) =
      red.scales (red.rows k) * (red.matrix.toMatrix *ᵥ x) k := by
  change A.toMatrix (red.rows k) ⬝ᵥ x = _ * (red.matrix.toMatrix k ⬝ᵥ x)
  rw [h.row_eq, smul_dotProduct, smul_eq_mul]

/-- The reduced constraints hold where the rows kept hold. -/
theorem mulVec_eq_target_iff (h : red.Of A b) (x : Fin n → ℝ) :
    red.matrix.toMatrix *ᵥ x = red.target.get ↔
      ∀ k, (A.toMatrix *ᵥ x) (red.rows k) = b (red.rows k) := by
  rw [funext_iff]
  apply forall_congr'
  intro k
  rw [h.mulVec_rows, h.target_eq, mul_right_inj' (h.scales_ne_zero _)]

/-- Multipliers have the same effect on the variables after they are spread over all rows. -/
theorem transpose_mulVec_spread (h : red.Of A b) (y : Vec ℝ red.numRows) :
    A.toMatrixᵀ *ᵥ (red.spread y).get = red.matrix.toMatrixᵀ *ᵥ y.get := by
  rw [spread, Vec.mulVec_scatter _ h.rows_injective]
  funext j
  change ∑ k, A.toMatrix (red.rows k) j * (y.div (red.scales.select red.rows)) k =
    ∑ k, red.matrix.toMatrix k j * y k
  apply Finset.sum_congr rfl
  intro k _
  rw [h.row_eq, Vec.coe_div, Pi.div_apply, Vec.get_select, Pi.smul_apply, smul_eq_mul,
    mul_comm (red.scales _), mul_assoc, mul_div_cancel₀ _ (h.scales_ne_zero _)]

/-- If the rows kept span all rows, the reduced constraints carry all multipliers. -/
theorem exists_transpose_mulVec_eq (h : red.Of A b) (hs : red.Spans A) (y : Fin m → ℝ) :
    ∃ w, A.toMatrixᵀ *ᵥ y = red.matrix.toMatrixᵀ *ᵥ w := by
  have hmem : A.toMatrixᵀ *ᵥ y ∈ Submodule.span ℝ (Set.range fun k => A.toMatrix (red.rows k)) := by
    rw [mulVec_transpose, vecMul_eq_sum]
    exact Submodule.sum_mem _ fun i _ => Submodule.smul_mem _ _ (hs i)
  obtain ⟨w, hw⟩ := (Submodule.mem_span_range_iff_exists_fun ℝ).mp hmem
  refine ⟨fun k => w k * red.scales (red.rows k), ?_⟩
  rw [← hw, mulVec_transpose, vecMul_eq_sum]
  exact Finset.sum_congr rfl fun k _ => by rw [h.row_eq, smul_smul]

/-- If the rows kept span all rows, points that agree on them agree on all rows. -/
theorem mulVec_eq_of_rows_eq (hs : red.Spans A) {x z : Fin n → ℝ}
    (hxz : ∀ k, (A.toMatrix *ᵥ x) (red.rows k) = (A.toMatrix *ᵥ z) (red.rows k)) :
    A.toMatrix *ᵥ x = A.toMatrix *ᵥ z := by
  funext i
  refine Submodule.span_induction (p := fun v _ => v ⬝ᵥ x = v ⬝ᵥ z) ?_ ?_ ?_ ?_ (hs i)
  · rintro _ ⟨k, rfl⟩
    exact hxz k
  · rw [zero_dotProduct, zero_dotProduct]
  · intro u v _ _ hu hv
    rw [add_dotProduct, add_dotProduct, hu, hv]
  · intro a v _ hv
    rw [smul_dotProduct, smul_dotProduct, hv]

/-- If the rows kept span all rows, the reduced rows see the same directions as all rows. -/
theorem mulVec_eq_zero_iff_of_spans (h : red.Of A b) (hs : red.Spans A) (x : Fin n → ℝ) :
    red.matrix.toMatrix *ᵥ x = 0 ↔ A.toMatrix *ᵥ x = 0 := by
  constructor
  · intro hx
    rw [← mulVec_zero A.toMatrix]
    refine mulVec_eq_of_rows_eq hs fun k => ?_
    rw [h.mulVec_rows, hx, mulVec_zero, Pi.zero_apply, Pi.zero_apply, mul_zero]
  · intro hx
    funext k
    have hk := congrFun hx (red.rows k)
    rw [h.mulVec_rows] at hk
    exact (mul_eq_zero.mp hk).resolve_left (h.scales_ne_zero _)

/-- If the rows kept span all rows, a system with a solution has the same solutions as its reduced
form. -/
theorem mulVec_eq_target_iff_of_spans (h : red.Of A b) (hs : red.Spans A) {z : Fin n → ℝ}
    (hz : A.toMatrix *ᵥ z = b.get) (x : Fin n → ℝ) :
    red.matrix.toMatrix *ᵥ x = red.target.get ↔ A.toMatrix *ᵥ x = b.get := by
  rw [h.mulVec_eq_target_iff, ← hz]
  constructor
  · exact fun hx => mulVec_eq_of_rows_eq hs fun k => hx k
  · exact fun hx k => congrFun hx _

theorem meets_iff_of_spans (h : red.Of A b) (hs : red.Spans A) {z₀ : Vec ℝ n}
    (hz₀ : A.mulVec z₀ = b) (z : Vec ℝ n) :
    A.mulVec z = b ↔ red.matrix.toMatrix *ᵥ z.get = red.target.get := by
  rw [Mat.mulVec_eq_iff]
  exact (h.mulVec_eq_target_iff_of_spans hs ((Mat.mulVec_eq_iff _ _ _).mp hz₀) z.get).symm

end Reduced.Of

end QuadraticProgram
