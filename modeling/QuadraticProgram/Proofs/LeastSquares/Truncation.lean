import QuadraticProgram.Proofs.Factorization.Standard
import QuadraticProgram.Proofs.LeastSquares.Coordinates
import QuadraticProgram.Proofs.LeastSquares.Optimal

/-! # The truncated system

Replacing the singular values that do not count by zero gives a matrix that has the same inverse
truncation, and nothing of it is discarded. So the truncated solution is the point of least norm
among those that come closest to the right-hand side for this matrix, whatever the cutoff.
-/

namespace QuadraticProgram
open Matrix

variable {m n : ℕ} {M : Mat ℝ m n} {rhs : Vec ℝ m} {z w : Vec ℝ n}

/-- The point of least norm among those that come closest to the right-hand side. -/
structure ShortestMinimizer (M : Mat ℝ m n) (rhs : Vec ℝ m) (z : Vec ℝ n) : Prop where
  minimal : ∀ w, residualNorm M rhs z ≤ residualNorm M rhs w
  shortest : ∀ w, (∀ w', residualNorm M rhs w ≤ residualNorm M rhs w') → w ≠ z → z.norm < w.norm

theorem LeastNorm.shortestMinimizer (h : LeastNorm M.toMatrix rhs.get z.get) :
    ShortestMinimizer M rhs z := by
  have hbasic : BasicSolution M.toMatrix Set.univ rhs.get z.get :=
    ⟨fun j hj => absurd (Set.mem_univ j) hj, fun j _ => congrFun h.normal j⟩
  have horthogonal (w : Vec ℝ n) := hbasic.orthogonal (w := w)
    fun j hj => absurd (Set.mem_univ j) hj
  refine ⟨fun w => residualNorm_le_of_orthogonal (horthogonal w), fun w hw hne => ?_⟩
  rw [Vec.norm_lt_norm_iff]
  exact h.dotProduct_lt (mulVec_eq_of_orthogonal (horthogonal w) (hw z))
    fun heq => hne (Vec.coe_injective heq)

namespace ThinSVD

variable {d : ThinSVD ℝ m n} {cutoff : ℝ}

/-- A decomposition with zero in place of the singular values that do not count. -/
noncomputable def truncated (d : ThinSVD ℝ m n) (cutoff : ℝ) : ThinSVD ℝ m n where
  u := d.u
  sing := Vec.ofFn fun i => if exceeds d.sing cutoff i then d.sing i else 0
  vt := d.vt

/-- The matrix with zero in place of the singular values that do not count. -/
noncomputable def truncatedMatrix (d : ThinSVD ℝ m n) (cutoff : ℝ) : Mat ℝ m n :=
  Mat.ofMatrix (d.u.toMatrix * diagonal (d.truncated cutoff).sing.get * d.vt.toMatrix)

theorem truncated_sing (d : ThinSVD ℝ m n) (cutoff : ℝ) (i : Fin (min m n)) :
    (d.truncated cutoff).sing i = if exceeds d.sing cutoff i then d.sing i else 0 :=
  Vec.get_ofFn _ i

/-- The values that count are those in front. -/
theorem Exact.exceeds_of_le (hd : d.Exact M) {i j : Fin (min m n)} (hij : i ≤ j)
    (hj : exceeds d.sing cutoff j = true) : exceeds d.sing cutoff i = true := by
  rw [exceeds_iff] at hj ⊢
  exact hj.trans_le (hd.antitone hij)

/-- After truncation the same values count. -/
theorem Exact.exceeds_truncated (hd : d.Exact M) (hc : 0 ≤ cutoff) (i : Fin (min m n)) :
    exceeds (d.truncated cutoff).sing cutoff i = exceeds d.sing cutoff i := by
  have hfirst : (⟨0, i.pos⟩ : Fin (min m n)) ≤ i := Fin.le_def.mpr (Nat.zero_le _)
  rw [Bool.eq_iff_iff, exceeds_iff, truncated_sing, truncated_sing]
  by_cases hi : exceeds d.sing cutoff i = true
  · rw [if_pos hi, if_pos (hd.exceeds_of_le hfirst hi), ← exceeds_iff]
  · refine iff_of_false ?_ hi
    rw [if_neg hi, not_lt]
    split
    · exact mul_nonneg (hd.nonneg _) hc
    · rw [zero_mul]

theorem Exact.truncated (hd : d.Exact M) (cutoff : ℝ) :
    (d.truncated cutoff).Exact (d.truncatedMatrix cutoff) where
  left_orthonormal := hd.left_orthonormal
  right_orthonormal := hd.right_orthonormal
  product := Mat.toMatrix_ofMatrix _
  nonneg i := by
    rw [truncated_sing]
    split
    · exact hd.nonneg i
    · exact le_rfl
  antitone i j hij := by
    rw [truncated_sing, truncated_sing]
    by_cases hj : exceeds d.sing cutoff j = true
    · rw [if_pos hj, if_pos (hd.exceeds_of_le hij hj)]
      exact hd.antitone hij
    · rw [if_neg hj]
      split
      · exact hd.nonneg i
      · exact le_rfl

/-- Nothing that is left after truncation is discarded. -/
theorem Exact.truncated_keepsNonzero (hd : d.Exact M) (hc : 0 ≤ cutoff) :
    (d.truncated cutoff).KeepsNonzero cutoff := by
  intro i hi
  rw [hd.exceeds_truncated hc]
  by_contra h
  rw [truncated_sing, if_neg h] at hi
  exact hi rfl

/-- Truncation does not change the solution. -/
theorem Exact.solve_truncated (hd : d.Exact M) (hc : 0 ≤ cutoff) (rhs : Vec ℝ m) :
    (d.truncated cutoff).solve cutoff rhs = d.solve cutoff rhs := by
  have hinverse : (d.truncated cutoff).truncatedInverse cutoff = d.truncatedInverse cutoff := by
    apply Vec.ext_get
    intro i
    rw [truncatedInverse, truncatedInverse, Vec.get_ofFn, Vec.get_ofFn, hd.exceeds_truncated hc,
      truncated_sing]
    split
    · rfl
    · rfl
  rw [solve, hinverse]
  rfl

/-- If only zeros are discarded, truncation leaves the matrix as it is. -/
theorem Exact.truncatedMatrix_eq (hd : d.Exact M) (hk : d.KeepsNonzero cutoff) :
    d.truncatedMatrix cutoff = M := by
  apply Mat.toMatrix_injective
  have hsing : (d.truncated cutoff).sing.get = d.sing.get := by
    funext i
    rw [truncated_sing]
    split
    · rfl
    · by_contra hne
      exact absurd (hk i (Ne.symm hne)) ‹_›
  rw [truncatedMatrix, Mat.toMatrix_ofMatrix, hsing, hd.product]

end ThinSVD

/-- Truncated least squares is the truncated solution of the decomposition, also without entries. -/
theorem truncatedLeastSquares_eq_solve (F : Factorizations ℝ) (M : Mat ℝ m n) (rhs : Vec ℝ m)
    (cutoff : Option ℝ) : truncatedLeastSquares F M rhs cutoff =
      .ok ((F.svd M).solve (cutoff.getD (defaultCutoff m n)) rhs) := by
  rw [truncatedLeastSquares, Mat.isFinite_eq_true]
  by_cases hmn : m = 0 ∨ n = 0
  · rw [if_pos hmn]
    congr 1
    apply Vec.coe_injective
    rcases hmn with rfl | rfl
    · rw [ThinSVD.coe_solve_truncated, Subsingleton.elim rhs.get 0, mulVec_zero, Vec.coe_zero]
    · exact Subsingleton.elim _ _
  · rw [if_neg hmn]
    rfl

/-- Truncated least squares always has a result. For every decomposition of the matrix, it is the
only point of least norm among those that come closest to the right-hand side for the matrix with
zeros in place of the singular values that do not count. If only zeros are discarded, that is the
matrix itself, so a system that has a solution is solved. -/
theorem truncatedLeastSquares_shortest {F : Factorizations ℝ} (hS : F.ExactSVD) (M : Mat ℝ m n)
    (rhs : Vec ℝ m) (cutoff : Option ℝ) (hc : ∀ c ∈ cutoff, 0 ≤ c) :
    let c := cutoff.getD (defaultCutoff m n)
    ∃ z, truncatedLeastSquares F M rhs cutoff = .ok z ∧ ∀ d : ThinSVD ℝ m n, d.Exact M →
      ShortestMinimizer (d.truncatedMatrix c) rhs z ∧
      (d.KeepsNonzero c →
        ShortestMinimizer M rhs z ∧ ∀ w, M.mulVec w = rhs → M.mulVec z = rhs) := by
  intro c
  have hcutoff : 0 ≤ c := by
    cases cutoff with
    | none => exact defaultCutoff_nonneg m n
    | some c => exact hc c rfl
  refine ⟨_, truncatedLeastSquares_eq_solve F M rhs cutoff, fun d hd => ?_⟩
  have hsolve : (F.svd M).solve c rhs = (d.truncated c).solve c rhs := by
    rw [(hS M).solve_eq hd, hd.solve_truncated hcutoff]
  have hshortest : ShortestMinimizer (d.truncatedMatrix c) rhs ((F.svd M).solve c rhs) := by
    rw [hsolve]
    exact ((hd.truncated c).leastNorm_solve (hd.truncated_keepsNonzero hcutoff)
      rhs).shortestMinimizer
  refine ⟨hshortest, fun hk => ?_⟩
  rw [hd.truncatedMatrix_eq hk] at hshortest
  exact ⟨hshortest, fun w hw => mulVec_eq_of_residualNorm_le (hshortest.minimal w) hw⟩

section TwoValues

/-- The decomposition of a diagonal matrix with two different singular values. -/
noncomputable def twoValues (g : ℝ) : ThinSVD ℝ 2 2 where
  u := Mat.ofMatrix (1 : Matrix (Fin 2) (Fin 2) ℝ)
  sing := Vec.ofFn ![g, 1]
  vt := Mat.ofMatrix (1 : Matrix (Fin 2) (Fin 2) ℝ)

theorem twoValues_exact {g : ℝ} (hg : 1 ≤ g) :
    (twoValues g).Exact (Mat.ofFn ![![g, 0], ![0, 1]]) where
  left_orthonormal := by
    rw [twoValues, Mat.toMatrix_ofMatrix, transpose_one]
    exact Matrix.one_mul (1 : Matrix (Fin 2) (Fin 2) ℝ)
  right_orthonormal := by
    rw [twoValues, Mat.toMatrix_ofMatrix, transpose_one]
    exact Matrix.one_mul (1 : Matrix (Fin 2) (Fin 2) ℝ)
  product := by
    have hproduct : (Mat.ofFn ![![g, 0], ![0, 1]] : Mat ℝ 2 2).toMatrix =
        (1 : Matrix (Fin 2) (Fin 2) ℝ) * diagonal ![g, 1] * 1 := by
      rw [Matrix.one_mul, Matrix.mul_one]
      ext i j
      fin_cases i <;> fin_cases j <;> simp
    rw [twoValues, Mat.toMatrix_ofMatrix, Vec.coe_ofFn]
    exact hproduct
  nonneg i := by
    have hg0 : 0 ≤ g := zero_le_one.trans hg
    fin_cases i <;> simp [twoValues, hg0]
  antitone := by
    refine antitone_iff_forall_lt.mpr fun i j hij => ?_
    fin_cases i <;> fin_cases j <;> simp [twoValues, hg] at hij ⊢

/-- At a cutoff of one half the smaller value does not count. -/
theorem twoValues_truncatedMatrix :
    (twoValues 2).truncatedMatrix 2⁻¹ = Mat.ofFn ![![2, 0], ![0, 0]] := by
  have hsing : ((twoValues 2).truncated 2⁻¹).sing.get = ![2, 0] := by
    funext i
    rw [ThinSVD.truncated_sing]
    fin_cases i <;> simp [twoValues, exceeds]
  have hproduct : (1 : Matrix (Fin 2) (Fin 2) ℝ) * diagonal ![2, 0] * 1 =
      (Mat.ofFn ![![2, 0], ![0, 0]] : Mat ℝ 2 2).toMatrix := by
    rw [Matrix.one_mul, Matrix.mul_one]
    ext i j
    fin_cases i <;> fin_cases j <;> simp
  apply Mat.toMatrix_injective
  rw [ThinSVD.truncatedMatrix, Mat.toMatrix_ofMatrix, hsing, twoValues, Mat.toMatrix_ofMatrix]
  exact hproduct

/-- At a cutoff of one fourth both values count. -/
theorem twoValues_keepsNonzero : (twoValues 2).KeepsNonzero 4⁻¹ := by
  intro i _
  rw [exceeds_iff]
  fin_cases i <;> norm_num [twoValues]

end TwoValues

/-- The same system at two cutoffs: the larger one gives up the second row, the smaller one does
not. -/
theorem truncatedLeastSquares_shortest_twoValues :
    let F := Factorizations.exact
    let M : Mat ℝ 2 2 := Mat.ofFn ![![2, 0], ![0, 1]]
    let rhs : Vec ℝ 2 := Vec.ofFn ![2, 1]
    F.ExactSVD ∧
      (∃ z, truncatedLeastSquares F M rhs (some 2⁻¹) = .ok z ∧
        ShortestMinimizer (Mat.ofFn ![![2, 0], ![0, 0]]) rhs z) ∧
      ∃ z, truncatedLeastSquares F M rhs (some 4⁻¹) = .ok z ∧ M.mulVec z = rhs := by
  intro F M rhs
  have hS : F.ExactSVD := Factorizations.exact_exactSVD
  have hnonneg (c : ℝ) (hc : 0 ≤ c) : ∀ c' ∈ some c, 0 ≤ c' := by
    rintro c' ⟨⟩
    exact hc
  obtain ⟨z, hz, hoptimal⟩ :=
    truncatedLeastSquares_shortest hS M rhs (some 2⁻¹) (hnonneg _ (by norm_num))
  obtain ⟨z', hz', hoptimal'⟩ :=
    truncatedLeastSquares_shortest hS M rhs (some 4⁻¹) (hnonneg _ (by norm_num))
  refine ⟨hS, ⟨z, hz, ?_⟩, z', hz', ?_⟩
  · rw [← twoValues_truncatedMatrix]
    exact (hoptimal (twoValues 2) (twoValues_exact one_le_two)).1
  · refine ((hoptimal' (twoValues 2) (twoValues_exact one_le_two)).2 twoValues_keepsNonzero).2
      (Vec.ofFn ![1, 1]) ?_
    rw [Mat.mulVec_eq_iff]
    ext i
    fin_cases i <;> simp [M, rhs]

end QuadraticProgram
