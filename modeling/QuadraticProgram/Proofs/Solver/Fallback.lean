import QuadraticProgram.Proofs.Kkt.Defect
import QuadraticProgram.Proofs.Solver.Execution

/-! # Solving dense problems whose Hessian has no factor

Whether the point found meets constraints that have a solution depends on the residual of the
optimality conditions. For a positive semidefinite Hessian it always does, also if the objective has
no lower bound; for an indefinite one least squares may give up the constraints in part.
-/

namespace QuadraticProgram
open Matrix

variable {n m : ℕ} {F : Factorizations ℝ} {P : Problem ℝ n m}

/-- The candidate of a Hessian without a factor: a least-squares solution of the reduced optimality
conditions. -/
theorem findCandidate_leastNorm (hS : F.ExactSVD) (hn : n ≠ 0) (hL : F.cholesky P.hessian = none)
    (hsys : SystemDecided F P.hessian P.matrix P.target) {red : Reduced ℝ m n}
    (hred : reduceConstraints F P.matrix P.target = .ok red) :
    ∃ x y, (findCandidate F P).result = .ok ⟨.fullSystem, x, none⟩ ∧
      LeastNorm (kktMatrix P.hessian red.matrix).toMatrix (kktTarget P.gradient red.target).get
        (Fin.append x.get y) := by
  obtain ⟨x, y, hx, hnorm⟩ := solveFullSystem_eq hS P.gradient hsys hred
  exact ⟨x, y, by rw [findCandidate_of_no_factor hn hL, hx]; rfl, hnorm⟩

/-- A problem with constraints that have a solution, a symmetric Hessian without a factor and exact
rank decisions. -/
structure Problem.Fallback (F : Factorizations ℝ) (P : Problem ℝ n m) : Prop where
  nonempty : n ≠ 0
  symmetric : P.hessian.toMatrix.IsSymm
  noFactor : F.cholesky P.hessian = none
  feasible : ∃ z, P.matrix.mulVec z = P.target
  rows : RowsDecided F P.matrix P.target
  system : SystemDecided F P.hessian P.matrix P.target

/-- The point of a least-squares solution meets the constraints exactly if some feasible point is
stationary up to a direction that neither the Hessian nor the constraints see. -/
theorem Problem.Fallback.meets_iff (hP : P.Fallback F) {red : Reduced ℝ m n}
    (hred : reduceConstraints F P.matrix P.target = .ok red) {x : Vec ℝ n}
    {y : Fin red.numRows → ℝ} (hnorm : LeastNorm (kktMatrix P.hessian red.matrix).toMatrix
      (kktTarget P.gradient red.target).get (Fin.append x.get y)) :
    P.matrix.mulVec x = P.target ↔ ∃ x₀ y₀, P.matrix.mulVec x₀ = P.target ∧
      FlatStationary P.hessian.toMatrix P.gradient.get P.matrix.toMatrix x₀.get y₀ := by
  obtain ⟨z₀, hz₀⟩ := hP.feasible
  have hof := reduceConstraints_of hred
  have hspans := hP.rows red hred
  have hmeets := hof.meets_iff_of_spans hspans hz₀
  rw [hmeets, hnorm.rows_hold_iff hP.symmetric]
  constructor
  · rintro ⟨x₀, w, ht, hw⟩
    obtain ⟨y₀, hy₀⟩ := (hof.exists_flatStationary_iff hspans _ _ x₀).mp ⟨w, hw⟩
    refine ⟨Vec.ofFn x₀, y₀, (hmeets _).mpr ?_, ?_⟩
    · rw [Vec.coe_ofFn, ht]
    · rwa [Vec.coe_ofFn]
  · rintro ⟨x₀, y₀, ht, hy₀⟩
    obtain ⟨w, hw⟩ := (hof.exists_flatStationary_iff hspans _ _ x₀.get).mpr ⟨y₀, hy₀⟩
    exact ⟨x₀.get, w, (hmeets x₀).mp ht, hw⟩

/-- The point found meets the constraints exactly if some feasible point is stationary up to a
direction that neither the Hessian nor the constraints see. This is so for every positive
semidefinite Hessian and whenever the optimality conditions have a solution; then no warning is
reported, and the checks accept the point. -/
theorem Problem.Fallback.solve_meets_constraints (hQ : F.ExactPivotedQR) (hS : F.ExactSVD)
    (hP : P.Fallback F) :
    ∃ o, (P.solve F false).result = .ok o ∧ o.path = .fullSystem ∧
      (P.matrix.mulVec o.x = P.target ↔ ∃ x₀ y₀, P.matrix.mulVec x₀ = P.target ∧
        FlatStationary P.hessian.toMatrix P.gradient.get P.matrix.toMatrix x₀.get y₀) ∧
      (P.hessian.toMatrix.PosSemidef → P.matrix.mulVec o.x = P.target) ∧
      ((∃ x₀ y₀, (P.hessian.mulVec x₀).add P.gradient = P.matrix.transposeMulVec y₀ ∧
        P.matrix.mulVec x₀ = P.target) → P.matrix.mulVec o.x = P.target) ∧
      (P.matrix.mulVec o.x = P.target →
        ∀ checks, (P.solve F checks).result = .ok o ∧ (P.solve F checks).Quiet) := by
  obtain ⟨z₀, hz₀⟩ := hP.feasible
  obtain ⟨red, hred⟩ := reduceConstraints_eq_ok F P.matrix P.target
  obtain ⟨x, y, hs, hnorm⟩ := findCandidate_leastNorm hS hP.nonempty hP.noFactor hP.system hred
  have hiff := hP.meets_iff hred hnorm
  refine ⟨_, Problem.solve_unchecked_of_candidate hs, rfl, hiff, fun hG => ?_, ?_,
    fun hx checks => ⟨?_, ?_⟩⟩
  · refine ((reduceConstraints_of hred).meets_iff_of_spans (hP.rows red hred) hz₀ x).mpr ?_
    exact hnorm.rows_hold_of_posSemidef hG fun w => reduceConstraints_independent hQ hred
  · rintro ⟨x₀, y₀, hstat, ht⟩
    exact hiff.mpr ⟨x₀, y₀.get, ht, .of_stationary ((stationary_iff _ _ _ _ _).mp hstat)⟩
  · exact Problem.solve_eq_ok checks hP.symmetric hs hx
  · refine Problem.solve_quiet checks fun s hs' => ?_
    obtain rfl := Except.ok.inj (hs.symm.trans hs')
    exact hx

/-- The objective has no lower bound on the constraints, and the point found meets them. -/
theorem Problem.solve_unbounded_meets_constraints :
    let P : Problem ℝ 2 2 := ⟨Mat.ofFn ![![1, 0], ![0, 0]], Vec.ofFn ![1, -1],
      Mat.ofFn ![![1, 0], ![2, 0]], Vec.ofFn ![1, 2]⟩
    P.Fallback Factorizations.exact ∧ P.hessian.toMatrix.PosSemidef ∧
      ∃ o, o.path = .fullSystem ∧ P.matrix.mulVec o.x = P.target ∧
        ∀ checks, (P.solve Factorizations.exact checks).result = .ok o ∧
          (P.solve Factorizations.exact checks).Quiet := by
  intro P
  have hQ := Factorizations.exact_exactPivotedQR
  have hg := Factorizations.exact_greedyPivotedQR
  have hS := Factorizations.exact_exactSVD
  have hP : P.Fallback Factorizations.exact :=
    { nonempty := two_ne_zero
      symmetric := isHermitian_iff_isSymm.mp posSemidef_fixed.isHermitian
      noFactor := Factorizations.exact_exactCholesky.eq_none_of_diag (i := 1) (by simp [P])
      feasible := by
        refine ⟨Vec.ofFn ![1, 0], Vec.ext_get fun i => ?_⟩
        fin_cases i <;> simp [P, Scalar.sum_eq, Fin.sum_univ_two]
      rows := rowsDecided_double hQ hg _
      system := systemDecided_double hQ hg hS (.inl rfl) _ }
  obtain ⟨o, -, hpath, -, hsemi, -, hchecks⟩ := hP.solve_meets_constraints hQ hS
  have hx := hsemi posSemidef_fixed
  exact ⟨hP, posSemidef_fixed, o, hpath, hx, hchecks hx⟩

section Crossed

/-- The system of two variables that only meet in a product, one of them fixed. -/
def crossedSystem : Matrix (Fin 3) (Fin 3) ℝ := !![0, 1, -1; 1, 0, 0; 1, 0, 0]

theorem toMatrix_kktMatrix_crossed :
    (kktMatrix (Mat.ofFn ![![0, 1], ![1, 0]]) (Mat.ofFn fun _ : Fin 1 => ![1, 0])).toMatrix =
      crossedSystem := by
  ext i j
  fin_cases i <;> fin_cases j <;> simp [crossedSystem, kktMatrix, Fin.addCases]

theorem crossedSystem_mulVec (v : Fin 3 → ℝ) :
    crossedSystem *ᵥ v = ![v 1 - v 2, v 0, v 0] := by
  ext i
  fin_cases i <;> simp [crossedSystem, mulVec, dotProduct, Fin.sum_univ_three, sub_eq_add_neg]

theorem crossedSystem_transpose_mulVec (v : Fin 3 → ℝ) :
    crossedSystemᵀ *ᵥ v = ![v 1 + v 2, v 0, -v 0] := by
  ext i
  fin_cases i <;> simp [crossedSystem, mulVec, dotProduct, Fin.sum_univ_three]

theorem kktMatrix_crossed_keepsNonzero (hS : F.ExactSVD) :
    (F.svd (kktMatrix (Mat.ofFn ![![0, 1], ![1, 0]])
      (Mat.ofFn fun _ : Fin 1 => ![1, 0]))).KeepsNonzero (defaultCutoff 3 3) := by
  apply (hS _).keepsNonzero 2 2
  · intro v
    rw [toMatrix_kktMatrix_crossed, crossedSystem_mulVec, vec3_dotProduct', dotProduct,
      Fin.sum_univ_three]
    nlinarith [sq_nonneg (v 1 + v 2)]
  · intro v
    rw [toMatrix_kktMatrix_crossed, crossedSystem_transpose_mulVec, crossedSystem_mulVec,
      vec3_dotProduct', vec3_dotProduct']
    simp only [cons_val]
    linarith
  · norm_num [defaultCutoff, Scalar.epsilon, Scalar.ratio_eq]

/-- Minimize `x₀ x₁` subject to `x₀ = 1`. -/
noncomputable def crossed : Problem ℝ 2 1 :=
  ⟨Mat.ofFn ![![0, 1], ![1, 0]], Vec.zero, Mat.ofFn ![![1, 0]], Vec.ofFn ![1]⟩

theorem crossed_isSymm : crossed.hessian.toMatrix.IsSymm := by
  ext i j
  fin_cases i <;> fin_cases j <;> simp [crossed]

theorem crossed_fallback (hC : F.ExactCholesky) (hQ : F.ExactPivotedQR) (hg : F.GreedyPivotedQR)
    (hS : F.ExactSVD) : crossed.Fallback F where
  nonempty := two_ne_zero
  symmetric := crossed_isSymm
  noFactor := hC.eq_none_of_diag (i := 0) (by simp [crossed])
  feasible := by
    refine ⟨Vec.ofFn ![1, 0], Vec.ext_get fun i => ?_⟩
    fin_cases i
    simp [crossed, Scalar.sum_eq, Fin.sum_univ_two]
  rows := rowsDecided_of_parallel hQ hg (rowsAlong_single one_pos).parallel
    ((rowsAlong_single one_pos).toMatrix_ne_zero 0) (defaultCutoff_lt_one (by norm_num))
  system := systemDecided_of_rowsAlong hQ hg (rowsAlong_single one_pos) one_pos
    (defaultCutoff_lt_one (by norm_num)) (kktMatrix_crossed_keepsNonzero hS)

/-- Least squares gives up half of the constraint. -/
theorem crossed_candidate (hC : F.ExactCholesky) (hQ : F.ExactPivotedQR) (hg : F.GreedyPivotedQR)
    (hS : F.ExactSVD) : ∃ x, (findCandidate F crossed).result = .ok ⟨.fullSystem, x, none⟩ ∧
      x 0 = 1 / 2 := by
  have hP := crossed_fallback hC hQ hg hS
  obtain ⟨red, hred⟩ := reduceConstraints_eq_ok F crossed.matrix crossed.target
  obtain ⟨x, y, hx, hnorm⟩ := findCandidate_leastNorm hS hP.nonempty hP.noFactor hP.system hred
  refine ⟨x, hx, ?_⟩
  have halong : crossed.matrix.RowsAlong ![1, 0] := rowsAlong_single one_pos
  have hnum := numRows_eq_one hQ hg halong.parallel (halong.toMatrix_ne_zero 0)
    (defaultCutoff_lt_one (by norm_num)) hred
  have hof := reduceConstraints_of hred
  have hrow := halong.matrix_row_eq hof
  have htarget : ∀ k, red.target k = 1 := by
    intro k
    have hone := congrFun (hrow k) 0
    rw [Mat.toMatrix_apply, hof.matrix_apply] at hone
    rw [hof.target_apply]
    simpa [crossed] using hone
  obtain ⟨hgrad, -⟩ := (kktMatrix_normal_iff crossed_isSymm).mp hnorm.normal
  obtain ⟨scales, k, rows, R, t⟩ := red
  dsimp only at hnum hrow htarget hgrad y
  subst hnum
  have hR : ∀ j, R 0 j = ![1, 0] j := congrFun (hrow 0)
  have h0 := congrFun hgrad 0
  simp [mulVec, dotProduct, gradientDefect, crossed, hR, htarget] at h0
  linarith

theorem crossed_tolerance_lt {x : Vec ℝ 2} (hx : x 0 = 1 / 2) :
    residualTolerance crossed.target < constraintResidual crossed.matrix crossed.target x := by
  have hlargest : crossed.target.maxAbs ≤ 1 := by
    rw [Vec.maxAbs_le_iff _ zero_le_one]
    intro i
    simp [crossed]
  have htol : residualTolerance crossed.target = 1 / 100000000 := by
    rw [residualTolerance, Scalar.larger_eq_max, max_eq_left hlargest, feasibilityTolerance,
      Scalar.ratio_eq]
    norm_num
  rw [htol, ← not_le, constraintResidual, Vec.maxAbs_le_iff _ (by norm_num)]
  intro h
  have h0 := h 0
  rw [Vec.get_sub, Mat.get_mulVec, Scalar.sum_eq, Fin.sum_univ_two] at h0
  simp only [crossed, Mat.get_ofFn, Vec.get_ofFn, cons_val, hx] at h0
  norm_num [abs_le] at h0

end Crossed

/-- For an indefinite Hessian the point found may miss constraints that have a solution. This is
reported, and the checks refuse it. -/
theorem Problem.solve_indefinite_misses_constraints :
    crossed.Fallback Factorizations.exact ∧
      ∃ o, (crossed.solve Factorizations.exact false).result = .ok o ∧ o.path = .fullSystem ∧
        crossed.matrix.mulVec o.x ≠ crossed.target ∧
        ¬(crossed.solve Factorizations.exact false).Quiet ∧
        ∀ u, (crossed.solve Factorizations.exact true).result ≠ .ok u := by
  have hC := Factorizations.exact_exactCholesky
  have hQ := Factorizations.exact_exactPivotedQR
  have hg := Factorizations.exact_greedyPivotedQR
  have hS := Factorizations.exact_exactSVD
  obtain ⟨x, hx, hhalf⟩ := crossed_candidate hC hQ hg hS
  have hlt := crossed_tolerance_lt hhalf
  refine ⟨crossed_fallback hC hQ hg hS, _, solve_unchecked_of_candidate hx, rfl, ?_,
    not_quiet_of_tolerance_lt hx hlt, ?_⟩
  · exact fun h => not_lt.mpr (constraintResidual_le_tolerance h) hlt
  · intro u hu
    obtain ⟨s, hs, -, hle⟩ := exists_candidate_of_checked hu
    obtain rfl := Except.ok.inj (hx.symm.trans hs)
    exact not_lt.mpr hle hlt

end QuadraticProgram
