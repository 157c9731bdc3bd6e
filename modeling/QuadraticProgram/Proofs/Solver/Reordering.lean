import Mathlib.LinearAlgebra.Matrix.Permutation
import QuadraticProgram.Proofs.Constraints.Invariance
import QuadraticProgram.Proofs.Kkt.System
import QuadraticProgram.Proofs.LeastSquares.Coordinates
import QuadraticProgram.Proofs.Solver.Execution

/-! # The order of the variables

Reordered variables leave the inner products of the rows alone, so the same rows are kept, and the
Schur complement with its right-hand side is the same. The full system is turned by a permutation
matrix, and its truncated solution turns with it, whatever the cutoff discards.
-/

namespace QuadraticProgram
open Matrix

variable {n m k : ℕ} {F : Factorizations ℝ} (σ : Equiv.Perm (Fin n))

/-- The entries in another order. -/
def Vec.reorder (x : Vec ℝ n) : Vec ℝ n := ofFn fun i => x (σ i)

@[simp] theorem Vec.get_reorder (x : Vec ℝ n) (i : Fin n) : x.reorder σ i = x (σ i) := get_ofFn _ i

@[simp] theorem Vec.coe_reorder (x : Vec ℝ n) : (x.reorder σ).get = x.get ∘ σ :=
  funext (get_reorder σ x)

/-- Rows and columns in another order. -/
def Mat.reorder (G : Mat ℝ n n) : Mat ℝ n n := ofFn fun i j => G (σ i) (σ j)

@[simp] theorem Mat.get_reorder (G : Mat ℝ n n) (i j : Fin n) : G.reorder σ i j = G (σ i) (σ j) :=
  get_ofFn _ i j

@[simp] theorem Mat.toMatrix_reorder (G : Mat ℝ n n) :
    (G.reorder σ).toMatrix = G.toMatrix.submatrix σ σ := by
  ext i j
  exact get_reorder σ G i j

section Products

theorem row_reorderCols (A : Mat ℝ m n) (i : Fin m) :
    (A.reorderCols σ).row i = (A.row i).reorder σ := by
  apply Vec.ext_get
  intro j
  rw [Mat.get_row, Mat.get_reorderCols, Vec.get_reorder, Mat.get_row]

theorem dot_reorder (x y : Vec ℝ n) : Vec.dot (x.reorder σ) (y.reorder σ) = Vec.dot x y := by
  rw [Vec.dot_eq, Vec.dot_eq, Vec.coe_reorder, Vec.coe_reorder, comp_equiv_dotProduct_comp_equiv]

theorem mulVec_reorderCols (A : Mat ℝ m n) (x : Vec ℝ n) :
    (A.reorderCols σ).mulVec (x.reorder σ) = A.mulVec x := by
  apply Vec.ext_get
  intro i
  rw [Mat.get_mulVec, Mat.get_mulVec, Scalar.sum_eq, Scalar.sum_eq]
  refine Fintype.sum_equiv σ _ _ fun j => ?_
  rw [Mat.get_reorderCols, Vec.get_reorder]

theorem transposeMulVec_reorderCols (A : Mat ℝ m n) (y : Vec ℝ m) :
    (A.reorderCols σ).transposeMulVec y = (A.transposeMulVec y).reorder σ := by
  apply Vec.ext_get
  intro j
  simp only [Mat.get_transposeMulVec, Vec.get_reorder, Mat.get_reorderCols]

theorem mulVec_reorder (G : Mat ℝ n n) (x : Vec ℝ n) :
    (G.reorder σ).mulVec (x.reorder σ) = (G.mulVec x).reorder σ := by
  apply Vec.ext_get
  intro i
  rw [Mat.get_mulVec, Vec.get_reorder, Mat.get_mulVec, Scalar.sum_eq, Scalar.sum_eq]
  refine Fintype.sum_equiv σ _ _ fun j => ?_
  rw [Mat.get_reorder, Vec.get_reorder]

theorem maxAbs_reorder_le (x : Vec ℝ n) : (x.reorder σ).maxAbs ≤ x.maxAbs := by
  have hx := (Vec.maxAbs_le_iff x (Scalar.maxAbs_nonneg x.get)).mp le_rfl
  refine (Vec.maxAbs_le_iff _ (Scalar.maxAbs_nonneg x.get)).mpr fun i => ?_
  rw [Vec.get_reorder]
  exact hx (σ i)

theorem maxAbs_reorder (x : Vec ℝ n) : (x.reorder σ).maxAbs = x.maxAbs := by
  have hback : (x.reorder σ).reorder σ.symm = x := Vec.ext_get fun i => by
    rw [Vec.get_reorder, Vec.get_reorder, σ.apply_symm_apply]
  apply le_antisymm (maxAbs_reorder_le σ x)
  conv_lhs => rw [← hback]
  exact maxAbs_reorder_le σ.symm _

end Products

section RangeSpace

variable {G L L' : Mat ℝ n n}

theorem isSymm_reorder (hG : G.toMatrix.IsSymm) : (G.reorder σ).toMatrix.IsSymm := by
  rw [Mat.toMatrix_reorder]
  exact hG.submatrix σ

/-- Whether a symmetric matrix has a factor does not depend on the order of the variables. -/
theorem cholesky_reorder_eq_none_iff (hC : F.ExactCholesky) (hG : G.toMatrix.IsSymm) :
    F.cholesky (G.reorder σ) = none ↔ F.cholesky G = none := by
  rw [hC.eq_none_iff, hC.eq_none_iff, Mat.symmetrized_of_isSymm hG,
    Mat.symmetrized_of_isSymm (isSymm_reorder σ hG), Mat.toMatrix_reorder, not_iff_not]
  constructor
  · intro h
    have hback := h.submatrix σ.symm.injective
    rwa [submatrix_submatrix, σ.self_comp_symm, submatrix_id_id] at hback
  · exact fun h => h.submatrix σ.injective

/-- Substitution with the factor of the reordered matrix. -/
theorem substitute_reorder (hC : F.ExactCholesky) (hG : G.toMatrix.IsSymm)
    (hL : F.cholesky G = some L) (hL' : F.cholesky (G.reorder σ) = some L') (v : Vec ℝ n) :
    substitute L' (v.reorder σ) = (substitute L v).reorder σ := by
  have hpos := hC.posDef hL
  have hpos' := hC.posDef hL'
  have hprod := hC.product hL
  have hprod' := hC.product hL'
  rw [Mat.symmetrized_of_isSymm hG] at hpos hprod
  rw [Mat.symmetrized_of_isSymm (isSymm_reorder σ hG)] at hpos' hprod'
  apply Vec.coe_injective
  rw [coe_substitute (fun i => (hC.diag_pos hL' i).ne') hprod' hpos', Vec.coe_reorder,
    Vec.coe_reorder, coe_substitute (fun i => (hC.diag_pos hL i).ne') hprod hpos,
    Mat.toMatrix_reorder, inv_submatrix_equiv, submatrix_mulVec_equiv, Function.comp_assoc,
    σ.self_comp_symm, Function.comp_id]

theorem schurComplement_reorder
    (hsub : ∀ v, substitute L' (v.reorder σ) = (substitute L v).reorder σ) (R : Mat ℝ k n) :
    schurComplement L' (R.reorderCols σ) = schurComplement L R := by
  apply Mat.ext_get
  intro i j
  rw [schurComplement, schurComplement, Mat.get_ofFn, Mat.get_ofFn, row_reorderCols,
    row_reorderCols, hsub, dot_reorder]

theorem schurTarget_reorder
    (hsub : ∀ v, substitute L' (v.reorder σ) = (substitute L v).reorder σ) (c : Vec ℝ n)
    (R : Mat ℝ k n) (t : Vec ℝ k) :
    schurTarget L' (c.reorder σ) (R.reorderCols σ) t = schurTarget L c R t := by
  apply Vec.ext_get
  intro i
  rw [schurTarget, schurTarget, Vec.get_ofFn, Vec.get_ofFn, row_reorderCols, hsub, dot_reorder]

/-- The range-space solver returns the reordered point and the same multipliers. -/
theorem solveRangeSpace_reorder (hC : F.ExactCholesky) (hQ : F.ExactPivotedQR)
    (hg : F.FirstLongestPivotedQR) (hG : G.toMatrix.IsSymm) (hL : F.cholesky G = some L)
    (hL' : F.cholesky (G.reorder σ) = some L') (c : Vec ℝ n) (A : Mat ℝ m n) (b : Vec ℝ m) :
    ∃ s, solveRangeSpace F L c A b = .ok s ∧
      solveRangeSpace F L' (c.reorder σ) (A.reorderCols σ) b = .ok ⟨s.x.reorder σ, s.y⟩ := by
  have hsub := substitute_reorder σ hC hG hL hL'
  obtain ⟨red, hred⟩ := reduceConstraints_eq_ok F A b
  obtain ⟨y, hy, hs⟩ := solveRangeSpace_eq hQ L c hred
  obtain ⟨y', hy', hs'⟩ :=
    solveRangeSpace_eq hQ L' (c.reorder σ) (reduceConstraints_reorderCols σ hQ hg hred)
  have hsystem : pivotedLeastSquares F (schurComplement L red.matrix)
      (schurTarget L c red.matrix red.target) none = .ok y' := by
    rw [← schurComplement_reorder σ hsub, ← schurTarget_reorder σ hsub]
    exact hy'
  obtain rfl := Except.ok.inj (hy.symm.trans hsystem)
  have hrhs : ((A.reorderCols σ).transposeMulVec (red.spread y)).sub (c.reorder σ) =
      ((A.transposeMulVec (red.spread y)).sub c).reorder σ := by
    apply Vec.ext_get
    intro i
    simp only [transposeMulVec_reorderCols, Vec.get_sub, Vec.get_reorder]
  refine ⟨_, hs, hs'.trans ?_⟩
  rw [← hsub, ← hrhs]
  rfl

end RangeSpace

section FullSystem

/-- The variables in another order, the multipliers in place. -/
def reorderFirst (k : ℕ) : Equiv.Perm (Fin (n + k)) :=
  finSumFinEquiv.symm.trans ((σ.sumCongr (Equiv.refl (Fin k))).trans finSumFinEquiv)

@[simp] theorem reorderFirst_castAdd (i : Fin n) :
    reorderFirst σ k (i.castAdd k) = (σ i).castAdd k := by
  simp [reorderFirst]

@[simp] theorem reorderFirst_natAdd (j : Fin k) : reorderFirst σ k (j.natAdd n) = j.natAdd n := by
  simp [reorderFirst]

theorem permMatrix_orthogonal (τ : Equiv.Perm (Fin n)) :
    (τ.permMatrix ℝ)ᵀ * τ.permMatrix ℝ = 1 := by
  rw [transpose_permMatrix, ← permMatrix_mul, mul_inv_cancel, permMatrix_one]

theorem toMatrix_kktMatrix_reorder (G : Mat ℝ n n) (R : Mat ℝ k n) :
    (kktMatrix (G.reorder σ) (R.reorderCols σ)).toMatrix =
      (reorderFirst σ k).permMatrix ℝ * (kktMatrix G R).toMatrix *
        ((reorderFirst σ k).permMatrix ℝ)ᵀ := by
  have hperm : (reorderFirst σ k).permMatrix ℝ * (kktMatrix G R).toMatrix *
      ((reorderFirst σ k).permMatrix ℝ)ᵀ =
        (kktMatrix G R).toMatrix.submatrix (reorderFirst σ k) (reorderFirst σ k) := by
    rw [transpose_permMatrix, Equiv.Perm.permMatrix, Equiv.Perm.permMatrix,
      PEquiv.toMatrix_toPEquiv_mul, PEquiv.mul_toMatrix_toPEquiv]
    rfl
  rw [hperm]
  ext i j
  refine Fin.addCases (fun i => ?_) (fun i => ?_) i <;>
    refine Fin.addCases (fun j => ?_) (fun j => ?_) j
  · simp [kktMatrix]
  · simp [kktMatrix]
  · simp [kktMatrix]
  · simp [kktMatrix]

theorem coe_kktTarget_reorder (c : Vec ℝ n) (t : Vec ℝ k) :
    (kktTarget (c.reorder σ) t).get = (reorderFirst σ k).permMatrix ℝ *ᵥ (kktTarget c t).get := by
  rw [permMatrix_mulVec, coe_kktTarget, coe_kktTarget]
  refine append_ext (fun i => ?_) fun j => ?_
  · simp
  · simp

/-- The full-system solver returns the reordered point. -/
theorem solveFullSystem_reorder (hQ : F.ExactPivotedQR) (hg : F.FirstLongestPivotedQR)
    (hS : F.ExactSVD) (G : Mat ℝ n n) (c : Vec ℝ n) (A : Mat ℝ m n) (b : Vec ℝ m) :
    ∃ x, solveFullSystem F G c A b = .ok x ∧
      solveFullSystem F (G.reorder σ) (c.reorder σ) (A.reorderCols σ) b = .ok (x.reorder σ) := by
  obtain ⟨red, hred⟩ := reduceConstraints_eq_ok F A b
  have horth := permMatrix_orthogonal (reorderFirst σ red.numRows)
  obtain ⟨z, z', hz, hz', hzz⟩ := truncatedLeastSquares_turn hS horth horth
    (toMatrix_kktMatrix_reorder σ G red.matrix) (coe_kktTarget_reorder σ c red.target)
  have hfirst : z'.first = z.first.reorder σ := by
    apply Vec.ext_get
    intro i
    rw [Vec.get_first, hzz, permMatrix_mulVec, Function.comp_apply, reorderFirst_castAdd,
      Vec.get_reorder, Vec.get_first]
  refine ⟨z.first, solveFullSystem_of_leastSquares hred hz, ?_⟩
  rw [← hfirst]
  exact solveFullSystem_of_leastSquares (reduceConstraints_reorderCols σ hQ hg hred) hz'

end FullSystem

/-- The problem on variables in another order. -/
def Problem.reordered (P : Problem ℝ n m) : Problem ℝ n m where
  hessian := P.hessian.reorder σ
  gradient := P.gradient.reorder σ
  matrix := P.matrix.reorderCols σ
  target := P.target

def Candidate.reordered (s : Candidate ℝ n m) : Candidate ℝ n m := { s with x := s.x.reorder σ }

/-- The outcome on variables in another order. Nothing but the point changes. -/
def Outcome.reordered (o : Outcome ℝ n m) : Outcome ℝ n m := { o with x := o.x.reorder σ }

theorem findCandidate_reordered (hC : F.ExactCholesky) (hQ : F.ExactPivotedQR)
    (hg : F.FirstLongestPivotedQR) (hS : F.ExactSVD) {P : Problem ℝ n m}
    (hG : P.hessian.toMatrix.IsSymm) :
    ∃ s, (findCandidate F P).result = .ok s ∧
      (findCandidate F (P.reordered σ)).result = .ok (s.reordered σ) := by
  by_cases hn : n = 0
  · subst hn
    have hzero : (Vec.zero : Vec ℝ 0).reorder σ = Vec.zero := Vec.ext_get fun i => i.elim0
    refine ⟨_, findCandidate_of_no_variables F P rfl, ?_⟩
    rw [findCandidate_of_no_variables F _ rfl, Candidate.reordered, hzero]
  · cases hL : F.cholesky P.hessian with
    | some L =>
      obtain ⟨L', hL'⟩ : ∃ L', F.cholesky (P.hessian.reorder σ) = some L' := by
        rw [← Option.ne_none_iff_exists', ne_eq, cholesky_reorder_eq_none_iff σ hC hG, hL]
        exact Option.some_ne_none L
      obtain ⟨s, hs, hs'⟩ :=
        solveRangeSpace_reorder σ hC hQ hg hG hL hL' P.gradient P.matrix P.target
      refine ⟨⟨.rangeSpace, s.x, some s.y⟩, ?_, ?_⟩
      · rw [findCandidate_of_factor hn hL, hs]
        rfl
      · rw [findCandidate_of_factor (P := P.reordered σ) hn hL']
        change (solveRangeSpace F L' (P.gradient.reorder σ) (P.matrix.reorderCols σ)
          P.target).map _ = _
        rw [hs']
        rfl
    | none =>
      have hL' := (cholesky_reorder_eq_none_iff σ hC hG).mpr hL
      obtain ⟨x, hx, hx'⟩ :=
        solveFullSystem_reorder σ hQ hg hS P.hessian P.gradient P.matrix P.target
      refine ⟨⟨.fullSystem, x, none⟩, ?_, ?_⟩
      · rw [findCandidate_of_no_factor hn hL, hx]
        rfl
      · rw [findCandidate_of_no_factor (P := P.reordered σ) hn hL']
        change (solveFullSystem F (P.hessian.reorder σ) (P.gradient.reorder σ)
          (P.matrix.reorderCols σ) P.target).map _ = _
        rw [hx']
        rfl

section Residuals

variable (P : Problem ℝ n m)

theorem quadraticCost_reorder (G : Mat ℝ n n) (c x : Vec ℝ n) :
    quadraticCost (G.reorder σ) (c.reorder σ) (x.reorder σ) = quadraticCost G c x := by
  have hmap : (x.reorder σ).map (Scalar.ratio 1 2 * ·) =
      (x.map (Scalar.ratio 1 2 * ·)).reorder σ := by
    apply Vec.ext_get
    intro i
    simp only [Vec.get_map, Vec.get_reorder]
  rw [quadraticCost, quadraticCost, hmap, mulVec_reorder, dot_reorder, dot_reorder]

theorem constraintResidual_reorder (A : Mat ℝ m n) (b : Vec ℝ m) (x : Vec ℝ n) :
    constraintResidual (A.reorderCols σ) b (x.reorder σ) = constraintResidual A b x := by
  rw [constraintResidual, constraintResidual, mulVec_reorderCols]

theorem stationarityResidual_reorder (G : Mat ℝ n n) (c : Vec ℝ n) (A : Mat ℝ m n) (x : Vec ℝ n)
    (y : Vec ℝ m) :
    stationarityResidual (G.reorder σ) (c.reorder σ) (A.reorderCols σ) (x.reorder σ) y =
      stationarityResidual G c A x y := by
  have hgrad : ((G.reorder σ).mulVec (x.reorder σ)).add (c.reorder σ) =
      ((G.mulVec x).add c).reorder σ := by
    apply Vec.ext_get
    intro i
    simp only [mulVec_reorder, Vec.get_add, Vec.get_reorder]
  have hdefect : (((G.mulVec x).add c).reorder σ).sub ((A.reorderCols σ).transposeMulVec y) =
      (((G.mulVec x).add c).sub (A.transposeMulVec y)).reorder σ := by
    apply Vec.ext_get
    intro i
    simp only [transposeMulVec_reorderCols, Vec.get_sub, Vec.get_reorder]
  rw [stationarityResidual, stationarityResidual]
  simp only [hgrad, hdefect]
  split
  · exact maxAbs_reorder σ _
  · exact maxAbs_reorder σ _

theorem outcome_reordered (s : Candidate ℝ n m) :
    (s.reordered σ).outcome (P.reordered σ) = (s.outcome P).reordered σ := by
  have hdual : stationarityResidual (P.hessian.reorder σ) (P.gradient.reorder σ)
      (P.matrix.reorderCols σ) (s.x.reorder σ) =
        stationarityResidual P.hessian P.gradient P.matrix s.x :=
    funext fun y => stationarityResidual_reorder σ P.hessian P.gradient P.matrix s.x y
  simp only [Candidate.outcome, Outcome.reordered, Candidate.reordered, Problem.reordered,
    quadraticCost_reorder, constraintResidual_reorder, hdual]

end Residuals

/-- The order of the variables does not matter: the same rows are kept, and the outcome of the
reordered problem is the reordered outcome, with the same path, cost, multipliers and residuals, or
both are refused alike. -/
theorem Problem.solve_reordered (hC : F.ExactCholesky) (hQ : F.ExactPivotedQR)
    (hg : F.FirstLongestPivotedQR) (hS : F.ExactSVD) {P : Problem ℝ n m}
    (hG : P.hessian.toMatrix.IsSymm) :
    (∃ o, (P.solve F false).result = .ok o) ∧
    (∃ red red', reduceConstraints F P.matrix P.target = .ok red ∧
      reduceConstraints F (P.reordered σ).matrix (P.reordered σ).target = .ok red' ∧
      red'.rows.toArray = red.rows.toArray) ∧
    ∀ checks, ((P.reordered σ).solve F checks).result =
      (P.solve F checks).result.map (Outcome.reordered σ) := by
  obtain ⟨s, hs, hs'⟩ := findCandidate_reordered σ hC hQ hg hS hG
  obtain ⟨red, hred⟩ := reduceConstraints_eq_ok F P.matrix P.target
  refine ⟨⟨_, solve_unchecked_of_candidate hs⟩, ⟨red, red.reordered σ, hred,
    reduceConstraints_reorderCols σ hQ hg hred, rfl⟩, fun checks => ?_⟩
  cases checks with
  | false =>
    rw [solve_unchecked_of_candidate hs, solve_unchecked_of_candidate hs', outcome_reordered]
    rfl
  | true =>
    have hsymm : (P.reordered σ).hessian.toMatrix.IsSymm := isSymm_reorder σ hG
    have hresidual : assertWithin (constraintResidual (P.reordered σ).matrix (P.reordered σ).target
        (s.reordered σ).x) (.real (residualTolerance (P.reordered σ).target)) =
          assertWithin (constraintResidual P.matrix P.target s.x)
            (.real (residualTolerance P.target)) :=
      congrArg (assertWithin · _) (constraintResidual_reorder σ P.matrix P.target s.x)
    rw [solve_checked_of_candidate hG hs, solve_checked_of_candidate hsymm hs', hresidual,
      outcome_reordered]
    cases assertWithin (constraintResidual P.matrix P.target s.x)
        (.real (residualTolerance P.target)) with
    | error e => rfl
    | ok => rfl

/-- Two variables change places in a problem with an indefinite Hessian whose constraints contradict
each other. -/
theorem Problem.solve_swapped_contradictory :
    let P : Problem ℝ 2 2 := ⟨Mat.ofFn ![![1, 2], ![2, 0]], Vec.ofFn ![1, -1],
      Mat.ofFn ![![1, 0], ![2, 0]], Vec.ofFn ![1, 3]⟩
    let σ : Equiv.Perm (Fin 2) := Equiv.swap 0 1
    let F := Factorizations.exact
    P.hessian.toMatrix.IsSymm ∧
    (∃ o, (P.solve F false).result = .ok o) ∧
    (∃ red red', reduceConstraints F P.matrix P.target = .ok red ∧
      reduceConstraints F (P.reordered σ).matrix (P.reordered σ).target = .ok red' ∧
      red'.rows.toArray = red.rows.toArray) ∧
    ∀ checks, ((P.reordered σ).solve F checks).result =
      (P.solve F checks).result.map (Outcome.reordered σ) := by
  intro P σ F
  have hG : P.hessian.toMatrix.IsSymm := by
    ext i j
    fin_cases i <;> fin_cases j <;> simp [P]
  exact ⟨hG, Problem.solve_reordered σ Factorizations.exact_exactCholesky
    Factorizations.exact_exactPivotedQR Factorizations.exact_firstLongestPivotedQR
    Factorizations.exact_exactSVD hG⟩

end QuadraticProgram
