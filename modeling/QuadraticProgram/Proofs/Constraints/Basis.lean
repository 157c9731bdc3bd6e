import Mathlib.LinearAlgebra.Matrix.Rank
import QuadraticProgram.Proofs.Constraints.Reduction
import QuadraticProgram.Proofs.LeastSquares.Optimal

/-! # Independent rows as a basis

The rows found are a basis of the row space up to the cutoff: they are independent, and no row is
farther from their span than the cutoff makes of the longest row. If the cutoff takes no nonzero
pivot for zero, they are a basis, as many as the rank.
-/

namespace QuadraticProgram
open Matrix

variable {m n : ℕ}

namespace PivotedQR

variable {f : PivotedQR ℝ m n} {M : Mat ℝ m n} {cutoff : ℝ}

/-- If every pivot that is not zero counts, the pivots behind the rank are zero. -/
theorem Exact.pivots_eq_zero_of_keepsNonzero (hf : f.Exact M) (hk : f.KeepsNonzero cutoff)
    (i : Fin (min m n)) (hi : f.rank cutoff ≤ i.val) : f.pivots i = 0 := by
  by_contra hne
  exact hi.not_gt ((hf.lt_rank_iff cutoff i).mpr (hk i hne))

end PivotedQR

section Rows

variable {F : Factorizations ℝ} {A : Mat ℝ m n} {cutoff : Option ℝ} {rows : List (Fin m)}

/-- The length of the longest row. -/
noncomputable def Mat.longestRow (A : Mat ℝ m n) : ℝ := ⨆ i, (A.row i).norm

theorem Mat.norm_row_le_longestRow (A : Mat ℝ m n) (i : Fin m) : (A.row i).norm ≤ A.longestRow :=
  le_ciSup (Finite.bddAbove_range fun i => (A.row i).norm) i

theorem Mat.longestRow_nonneg (A : Mat ℝ m n) : 0 ≤ A.longestRow :=
  Real.iSup_nonneg fun i => by
    rw [Vec.norm_eq]
    exact Real.sqrt_nonneg _

/-- The rows found are the columns of the transpose that its factorization keeps. -/
theorem range_independentRows (h : independentRows F A cutoff = .ok rows) :
    (Set.range fun k => A.toMatrix (rows.get k)) =
      Set.range fun l => A.transpose.toMatrix.col ((F.pivotedQR A.transpose).leading _
        ((F.pivotedQR A.transpose).rank_le (cutoff.getD (defaultCutoff m n))) l) := by
  have hrow : ∀ i, A.transpose.toMatrix.col i = A.toMatrix i := fun i => by
    rw [Mat.toMatrix_transpose]
    rfl
  ext v
  constructor
  · rintro ⟨k, rfl⟩
    obtain ⟨l, hl⟩ := (mem_independentRows_iff h _).mp (rows.get_mem k)
    exact ⟨l, (hrow _).trans (congrArg A.toMatrix hl)⟩
  · rintro ⟨l, rfl⟩
    obtain ⟨k, hk⟩ := List.mem_iff_get.mp ((mem_independentRows_iff h _).mpr ⟨l, rfl⟩)
    exact ⟨k, (congrArg A.toMatrix hk).trans (hrow _).symm⟩

theorem linearIndependent_independentRows (hQ : F.ExactPivotedQR)
    (hc : 0 ≤ cutoff.getD (defaultCutoff m n)) (h : independentRows F A cutoff = .ok rows)
    (hrows : rows.Pairwise (· < ·)) : LinearIndependent ℝ fun k => A.toMatrix (rows.get k) := by
  choose l hl using fun k => (mem_independentRows_iff h _).mp (rows.get_mem k)
  have hl_injective : Function.Injective l := by
    intro k k' hkk
    apply List.nodup_iff_injective_get.mp (hrows.imp fun hlt => hlt.ne)
    rw [← hl k, ← hl k', hkk]
  have hfamily : (fun k => A.toMatrix (rows.get k)) =
      (fun l => A.transpose.toMatrix.col ((F.pivotedQR A.transpose).leading _
        ((F.pivotedQR A.transpose).rank_le (cutoff.getD (defaultCutoff m n))) l)) ∘ l := by
    funext k
    rw [Function.comp_apply, hl, Mat.toMatrix_transpose]
    rfl
  rw [hfamily]
  exact ((hQ A.transpose).linearIndependent_leading hc).comp l hl_injective

/-- No row is farther from the span of the rows found than the cutoff makes of the longest row. -/
theorem exists_near_independentRows (hQ : F.ExactPivotedQR) (hg : F.GreedyPivotedQR)
    (hc : 0 ≤ cutoff.getD (defaultCutoff m n)) (h : independentRows F A cutoff = .ok rows)
    (i : Fin m) : ∃ v : Vec ℝ n,
      v.get ∈ Submodule.span ℝ (Set.range fun k => A.toMatrix (rows.get k)) ∧
        ((A.row i).sub v).norm ≤ cutoff.getD (defaultCutoff m n) * A.longestRow := by
  have hrow : ∀ j, A.transpose.toMatrix.col j = (A.row j).get := fun j => by
    rw [Mat.toMatrix_transpose]
    exact (Mat.coe_row A j).symm
  have hlongest : ∀ j, A.transpose.toMatrix.col j ⬝ᵥ A.transpose.toMatrix.col j ≤
      A.longestRow ^ 2 := fun j => by
    rw [hrow, ← Real.sqrt_le_left A.longestRow_nonneg, ← Vec.norm_eq]
    exact A.norm_row_le_longestRow j
  obtain ⟨u, hu, hdist⟩ := (hQ A.transpose).exists_near hc i
  refine ⟨Vec.ofFn u, ?_, ?_⟩
  · rwa [Vec.coe_ofFn, range_independentRows h]
  · have hle := hdist.trans_le ((hQ A.transpose).remaining_rank_le (hg A.transpose) hlongest i)
    rw [Vec.norm_eq, Vec.coe_sub, Vec.coe_ofFn, ← hrow]
    apply Real.sqrt_le_iff.mpr
    refine ⟨mul_nonneg hc A.longestRow_nonneg, ?_⟩
    rwa [mul_pow, mul_comm]

/-- Independent rows are always found, in ascending order. They are independent, and no row is
farther from their span than the cutoff makes of the longest row. If every pivot that is not zero
exceeds the cutoff, they are a basis of the row space, as many as the rank. -/
theorem independentRows_basis (hQ : F.ExactPivotedQR) (hg : F.GreedyPivotedQR) (A : Mat ℝ m n)
    (cutoff : Option ℝ) (hc : ∀ c ∈ cutoff, 0 ≤ c) :
    ∃ rows : List (Fin m), independentRows F A cutoff = .ok rows ∧ rows.Pairwise (· < ·) ∧
      (LinearIndependent ℝ fun k => A.toMatrix (rows.get k)) ∧
      (∀ i, ∃ v : Vec ℝ n,
        v.get ∈ Submodule.span ℝ (Set.range fun k => A.toMatrix (rows.get k)) ∧
          ((A.row i).sub v).norm ≤ cutoff.getD (defaultCutoff m n) * A.longestRow) ∧
      ((F.pivotedQR A.transpose).KeepsNonzero (cutoff.getD (defaultCutoff m n)) →
        rows.length = A.toMatrix.rank ∧
          Submodule.span ℝ (Set.range fun k => A.toMatrix (rows.get k)) =
            Submodule.span ℝ (Set.range A.toMatrix.row)) := by
  have hcutoff : 0 ≤ cutoff.getD (defaultCutoff m n) := by
    cases cutoff with
    | none => exact defaultCutoff_nonneg m n
    | some c => exact hc c rfl
  obtain ⟨rows, h, hrows⟩ := independentRows_eq F A cutoff
  have hindependent := linearIndependent_independentRows hQ hcutoff h hrows
  refine ⟨rows, h, hrows, hindependent, exists_near_independentRows hQ hg hcutoff h, fun hk => ?_⟩
  have hspan : Submodule.span ℝ (Set.range fun k => A.toMatrix (rows.get k)) =
      Submodule.span ℝ (Set.range A.toMatrix.row) := by
    apply le_antisymm
    · exact Submodule.span_mono (Set.range_comp_subset_range rows.get A.toMatrix.row)
    · rw [Submodule.span_le, range_independentRows h]
      rintro _ ⟨i, rfl⟩
      have hmem := (hQ A.transpose).col_mem_span_leading (hg A.transpose) hcutoff
        ((hQ A.transpose).pivots_eq_zero_of_keepsNonzero hk) i
      rwa [Mat.toMatrix_transpose] at hmem ⊢
  refine ⟨?_, hspan⟩
  rw [rank_eq_finrank_span_row, ← hspan, finrank_span_eq_card hindependent, Fintype.card_fin]

/-- Of a row, twice the row and a row of zeros one row is found, and it spans all three. -/
theorem independentRows_basis_zero_row :
    let F := Factorizations.exact
    let A : Mat ℝ 3 2 := Mat.ofFn ![![1, 0], ![2, 0], ![0, 0]]
    F.ExactPivotedQR ∧ F.GreedyPivotedQR ∧ (F.pivotedQR A.transpose).KeepsNonzero 0 ∧
      ∃ rows, independentRows F A (some 0) = .ok rows ∧ rows.length = 1 ∧
        Submodule.span ℝ (Set.range fun k => A.toMatrix (rows.get k)) =
          Submodule.span ℝ {![1, 0]} := by
  intro F A
  have hQ : F.ExactPivotedQR := Factorizations.exact_exactPivotedQR
  have hg : F.GreedyPivotedQR := Factorizations.exact_greedyPivotedQR
  have hk : (F.pivotedQR A.transpose).KeepsNonzero 0 := by
    intro i hi
    rw [exceeds_iff, mul_zero]
    exact lt_of_le_of_ne ((F.pivotedQR A.transpose).pivots_nonneg i) hi.symm
  have hall : Submodule.span ℝ (Set.range A.toMatrix.row) = Submodule.span ℝ {![1, 0]} := by
    apply le_antisymm
    · rw [Submodule.span_le]
      rintro _ ⟨i, rfl⟩
      refine Submodule.mem_span_singleton.mpr ⟨![1, 2, 0] i, ?_⟩
      ext j
      fin_cases i <;> fin_cases j <;> simp [A, row]
    · rw [Submodule.span_singleton_le_iff_mem]
      refine Submodule.subset_span ⟨0, ?_⟩
      ext j
      fin_cases j <;> simp [A, row]
  have hne : (![1, 0] : Fin 2 → ℝ) ≠ 0 := fun h => one_ne_zero (congrFun h 0)
  obtain ⟨rows, h, -, -, -, hbasis⟩ := independentRows_basis hQ hg A (some 0)
    fun c hc => (Option.some.inj hc).le
  obtain ⟨hlength, hspan⟩ := hbasis hk
  refine ⟨hQ, hg, hk, rows, h, ?_, hspan.trans hall⟩
  rw [hlength, rank_eq_finrank_span_row, hall, finrank_span_singleton hne]

end Rows

end QuadraticProgram
