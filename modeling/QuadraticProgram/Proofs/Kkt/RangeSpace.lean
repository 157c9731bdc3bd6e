import QuadraticProgram.Proofs.Constraints.Parallel
import QuadraticProgram.Proofs.Factorization.Standard
import QuadraticProgram.Proofs.Kkt.Objective
import QuadraticProgram.Solver.Dense

/-! # The range-space solution

Substitution with the triangular factor applies the inverse of the matrix. The Schur complement of
independent rows is positive definite, so a rank decision that keeps all its columns makes the rows
hold; stationarity holds whatever the decision.
-/

namespace QuadraticProgram
open Matrix

variable {m n k : ℕ}

/-- Both substitutions with a triangular factor. -/
noncomputable def substitute (L : Mat ℝ n n) (v : Vec ℝ n) : Vec ℝ n :=
  Triangular.solveUpper L.transpose (Triangular.solveLower L v)

/-- The inner products of the rows of a matrix with the solutions for these rows. -/
noncomputable def schurComplement (L : Mat ℝ n n) (R : Mat ℝ k n) : Mat ℝ k k :=
  Mat.ofFn fun i j => Vec.dot (R.row i) (substitute L (R.row j))

/-- The right-hand side that belongs to the Schur complement. -/
noncomputable def schurTarget (L : Mat ℝ n n) (c : Vec ℝ n) (R : Mat ℝ k n) (t : Vec ℝ k) :
    Vec ℝ k :=
  Vec.ofFn fun i => Vec.dot (substitute L (R.row i)) c + t i

/-- The rank decision on the Schur complement discards no nonzero pivot. -/
def SchurDecided (F : Factorizations ℝ) (G : Mat ℝ n n) (A : Mat ℝ m n) (b : Vec ℝ m) : Prop :=
  ∀ L red, F.cholesky G = some L → reduceConstraints F A b = .ok red →
    (F.pivotedQR (schurComplement L red.matrix)).KeepsNonzero
      (defaultCutoff red.numRows red.numRows)

theorem choleskyFactor?_eq (F : Factorizations ℝ) (G : Mat ℝ n n) :
    choleskyFactor? F G = .ok (F.cholesky G) := by
  rw [choleskyFactor?, Mat.isFinite_eq_true, if_pos rfl]

theorem Factorizations.ExactCholesky.exists_factor {F : Factorizations ℝ} (hF : F.ExactCholesky)
    {G : Mat ℝ n n} (hG : G.symmetrized.toMatrix.PosDef) : ∃ L, F.cholesky G = some L :=
  Option.isSome_iff_exists.mp (hF.isSome hG)

/-- Only positive definite matrices have a factor. -/
theorem Factorizations.ExactCholesky.posDef {F : Factorizations ℝ} (hF : F.ExactCholesky)
    {G L : Mat ℝ n n} (hL : F.cholesky G = some L) : G.symmetrized.toMatrix.PosDef := by
  have hlower : L.lower.IsLowerTriangular := fun i j hij => if_neg (not_le.mpr hij)
  have hdet : IsUnit L.lower.det := by
    rw [det_of_isLowerTriangular _ hlower, isUnit_iff_ne_zero, Finset.prod_ne_zero_iff]
    intro i _
    exact (if_pos le_rfl).trans_ne (hF.diag_pos hL i).ne'
  have hinj := vecMul_injective_of_isUnit ((isUnit_iff_isUnit_det _).mpr hdet)
  have hpos := PosDef.one.mul_mul_conjTranspose_same hinj
  rwa [Matrix.mul_one, conjTranspose_eq_transpose_of_trivial, hF.product hL] at hpos

theorem Factorizations.ExactCholesky.eq_none_iff {F : Factorizations ℝ} (hF : F.ExactCholesky)
    (G : Mat ℝ n n) : F.cholesky G = none ↔ ¬G.symmetrized.toMatrix.PosDef := by
  constructor
  · intro hnone hG
    obtain ⟨L, hL⟩ := hF.exists_factor hG
    rw [hnone] at hL
    cases hL
  · intro hG
    cases hL : F.cholesky G with
    | none => rfl
    | some L => exact absurd (hF.posDef hL) hG

/-- A matrix with a zero on its diagonal has no factor. -/
theorem Factorizations.ExactCholesky.eq_none_of_diag {F : Factorizations ℝ} (hF : F.ExactCholesky)
    {G : Mat ℝ n n} {i : Fin n} (h : G i i = 0) : F.cholesky G = none := by
  rw [hF.eq_none_iff]
  intro hG
  have hi : G.symmetrized.toMatrix i i = 0 := by
    rw [Mat.toMatrix_apply, Mat.symmetrized, Mat.get_ofFn, if_pos le_rfl, h]
  exact hG.diag_pos.ne' hi

section Execution

theorem factorSolve_eq (L : Mat ℝ n n) (v : Vec ℝ n) : factorSolve L v = .ok (substitute L v) := by
  rw [factorSolve, Vec.isFinite_eq_true, Mat.isFinite_eq_true]
  rfl

theorem factorSolveRows_eq (L : Mat ℝ n n) (V : Mat ℝ k n) :
    factorSolveRows L V = .ok ⟨V.rows.map (substitute L)⟩ := by
  rw [factorSolveRows, Mat.isFinite_eq_true, Mat.isFinite_eq_true]
  rfl

theorem row_map (V : Mat ℝ k n) (f : Vec ℝ n → Vec ℝ n) (i : Fin k) :
    (⟨V.rows.map f⟩ : Mat ℝ k n).row i = f (V.row i) := by
  simp [Mat.row]

variable {F : Factorizations ℝ} {A : Mat ℝ m n} {b : Vec ℝ m} {red : Reduced ℝ m n}

theorem schurTarget_eq (L : Mat ℝ n n) (c : Vec ℝ n) (R : Mat ℝ k n) (t : Vec ℝ k) :
    ((⟨R.rows.map (substitute L)⟩ : Mat ℝ k n).mulVec c).add t = schurTarget L c R t := by
  apply Vec.ext_get
  intro i
  rw [schurTarget, Vec.get_ofFn, Vec.get_add, Mat.get_mulVec, ← row_map R (substitute L) i]
  rfl

/-- The multipliers come from least squares with the Schur complement. -/
theorem rangeSpaceMultipliers_eq (F : Factorizations ℝ) (L : Mat ℝ n n) (c : Vec ℝ n)
    (red : Reduced ℝ m n) :
    rangeSpaceMultipliers F L c red =
      (pivotedLeastSquares F (schurComplement L red.matrix)
        (schurTarget L c red.matrix red.target) none).map red.spread := by
  by_cases h : red.numRows = 0
  · rw [rangeSpaceMultipliers, if_pos h, pivotedLeastSquares, if_pos (.inl h), Except.map,
      red.spread_of_numRows_eq_zero h]
  · rw [rangeSpaceMultipliers, if_neg h, factorSolveRows_eq]
    change (do
      let y ← pivotedLeastSquares F (Mat.ofFn fun i j => Vec.dot (red.matrix.row i)
        ((⟨red.matrix.rows.map (substitute L)⟩ : Mat ℝ red.numRows n).row j)) _ none
      Except.ok (red.spread y)) = _
    simp only [row_map, schurTarget_eq]
    rfl

/-- What the range-space solver returns, whether there are constraints or not. -/
theorem solveRangeSpace_eq_map (L : Mat ℝ n n) (c : Vec ℝ n)
    (hred : reduceConstraints F A b = .ok red) :
    solveRangeSpace F L c A b =
      (pivotedLeastSquares F (schurComplement L red.matrix)
        (schurTarget L c red.matrix red.target) none).map fun y =>
          ⟨substitute L ((A.transposeMulVec (red.spread y)).sub c), red.spread y⟩ := by
  by_cases h : m = 0
  · subst h
    have hnum : red.numRows = 0 := by
      by_contra hne
      exact (red.rows ⟨0, Nat.pos_of_ne_zero hne⟩).elim0
    have hzero : red.spread Vec.zero = Vec.zero := red.spread_of_numRows_eq_zero hnum _
    have hneg : (A.transposeMulVec Vec.zero).sub c = c.neg := by
      apply Vec.coe_injective
      rw [Vec.coe_sub, Mat.coe_transposeMulVec, Vec.coe_zero, mulVec_zero, zero_sub, Vec.coe_neg]
    rw [pivotedLeastSquares, if_pos (.inl hnum), Except.map, hzero, hneg, solveRangeSpace,
      if_pos rfl, factorSolve_eq]
    rfl
  · rw [solveRangeSpace, if_neg h, hred]
    change (do
      let y ← rangeSpaceMultipliers F L c red
      let x ← factorSolve L ((A.transposeMulVec y).sub c)
      Except.ok (⟨x, y⟩ : PrimalDual ℝ m n)) = _
    rw [rangeSpaceMultipliers_eq]
    simp only [factorSolve_eq]
    cases pivotedLeastSquares F (schurComplement L red.matrix)
        (schurTarget L c red.matrix red.target) none with
    | error e => rfl
    | ok y => rfl

/-- With exact factorizations the range-space solver always has a result. -/
theorem solveRangeSpace_eq (hF : F.ExactPivotedQR) (L : Mat ℝ n n) (c : Vec ℝ n)
    (hred : reduceConstraints F A b = .ok red) :
    ∃ y, pivotedLeastSquares F (schurComplement L red.matrix)
        (schurTarget L c red.matrix red.target) none = .ok y ∧
      solveRangeSpace F L c A b =
        .ok ⟨substitute L ((A.transposeMulVec (red.spread y)).sub c), red.spread y⟩ := by
  obtain ⟨y, hy, -⟩ := pivotedLeastSquares_eq hF (schurComplement L red.matrix)
    (schurTarget L c red.matrix red.target) none (defaultCutoff_nonneg _ _)
  refine ⟨y, hy, ?_⟩
  rw [solveRangeSpace_eq_map L c hred, hy]
  rfl

end Execution

/-- Substitution with a factor is linear. -/
theorem isLinearMap_substitute (L : Mat ℝ n n) : IsLinearMap ℝ (substitute L) := by
  unfold substitute
  exact isLinearMap_comp (Triangular.isLinearMap_solveUpper L.transpose)
    (Triangular.isLinearMap_solveLower L)

/-- A factor of the right-hand side is a factor of the solution. -/
theorem substitute_smul (a : ℝ) (L : Mat ℝ n n) (v : Vec ℝ n) :
    substitute L (v.map (a * ·)) = (substitute L v).map (a * ·) :=
  (isLinearMap_substitute L).map_smul a v

section Inverse

variable {L : Mat ℝ n n} {G : Matrix (Fin n) (Fin n) ℝ}

theorem mulVec_substitute (hd : ∀ i, L i i ≠ 0) (hL : L.lower * L.lowerᵀ = G) (v : Vec ℝ n) :
    G *ᵥ (substitute L v).get = v.get := by
  have hdt : ∀ i, L.transpose i i ≠ 0 := fun i => by
    rw [Mat.get_transpose]
    exact hd i
  rw [← hL, ← mulVec_mulVec, ← Mat.upper_transpose, substitute,
    Triangular.upper_mulVec_solveUpper hdt, Triangular.lower_mulVec_solveLower hd]

theorem coe_substitute (hd : ∀ i, L i i ≠ 0) (hL : L.lower * L.lowerᵀ = G) (hG : G.PosDef)
    (v : Vec ℝ n) : (substitute L v).get = G⁻¹ *ᵥ v.get := by
  have hinv := nonsing_inv_mul G ((isUnit_iff_isUnit_det G).mp hG.isUnit)
  conv_rhs => rw [← mulVec_substitute hd hL v, mulVec_mulVec, hinv, one_mulVec]

theorem toMatrix_schurComplement (hd : ∀ i, L i i ≠ 0) (hL : L.lower * L.lowerᵀ = G)
    (hG : G.PosDef) (R : Mat ℝ k n) :
    (schurComplement L R).toMatrix = R.toMatrix * G⁻¹ * R.toMatrixᵀ := by
  ext i j
  rw [schurComplement, Mat.toMatrix_ofFn, of_apply, Vec.dot_eq, coe_substitute hd hL hG,
    Mat.coe_row, Mat.coe_row, Matrix.mul_assoc]
  rfl

theorem coe_schurTarget (hd : ∀ i, L i i ≠ 0) (hL : L.lower * L.lowerᵀ = G)
    (hG : G.PosDef) (c : Vec ℝ n) (R : Mat ℝ k n) (t : Vec ℝ k) :
    (schurTarget L c R t).get = R.toMatrix *ᵥ (G⁻¹ *ᵥ c.get) + t.get := by
  funext i
  have hsymm : (G⁻¹)ᵀ = G⁻¹ := isHermitian_iff_isSymm.mp hG.inv.isHermitian
  rw [schurTarget, Vec.get_ofFn, Vec.dot_eq, coe_substitute hd hL hG, Mat.coe_row,
    ← hsymm, mulVec_transpose, ← dotProduct_mulVec, hsymm]
  rfl

/-- The Schur complement of independent rows is positive definite. -/
theorem schurComplement_posDef (hd : ∀ i, L i i ≠ 0) (hL : L.lower * L.lowerᵀ = G)
    (hG : G.PosDef) {R : Mat ℝ k n} (hR : ∀ y, R.toMatrixᵀ *ᵥ y = 0 → y = 0) :
    (schurComplement L R).toMatrix.PosDef := by
  have hinj : Function.Injective R.toMatrix.vecMul := by
    intro y z hyz
    refine sub_eq_zero.mp (hR (y - z) ?_)
    rw [mulVec_transpose, sub_vecMul]
    exact sub_eq_zero.mpr hyz
  rw [toMatrix_schurComplement hd hL hG, ← conjTranspose_eq_transpose_of_trivial]
  exact hG.inv.mul_mul_conjTranspose_same hinj

end Inverse

section Conditions

variable {L : Mat ℝ n n} {G : Matrix (Fin n) (Fin n) ℝ} {A : Mat ℝ m n} {b : Vec ℝ m}
variable {red : Reduced ℝ m n}

theorem stationary_substitute (hd : ∀ i, L i i ≠ 0) (hL : L.lower * L.lowerᵀ = G) (c : Vec ℝ n)
    (A : Mat ℝ m n) (y : Vec ℝ m) :
    G *ᵥ (substitute L ((A.transposeMulVec y).sub c)).get + c.get = A.toMatrixᵀ *ᵥ y.get := by
  rw [mulVec_substitute hd hL, Vec.coe_sub, Mat.coe_transposeMulVec, sub_add_cancel]

/-- The rows kept hold exactly if the multipliers solve the system of the Schur complement. -/
theorem mulVec_substitute_spread_iff (hd : ∀ i, L i i ≠ 0) (hL : L.lower * L.lowerᵀ = G)
    (hG : G.PosDef) (hred : red.Of A b) (c : Vec ℝ n) (y : Vec ℝ red.numRows) :
    red.matrix.toMatrix *ᵥ (substitute L ((A.transposeMulVec (red.spread y)).sub c)).get =
        red.target.get ↔
      (schurComplement L red.matrix).toMatrix *ᵥ y.get =
        (schurTarget L c red.matrix red.target).get := by
  rw [toMatrix_schurComplement hd hL hG, coe_schurTarget hd hL hG, ← mulVec_mulVec,
    ← mulVec_mulVec, coe_substitute hd hL hG, Vec.coe_sub, Mat.coe_transposeMulVec,
    hred.transpose_mulVec_spread, mulVec_sub, mulVec_sub, sub_eq_iff_eq_add']

end Conditions

section Solution

variable {F : Factorizations ℝ} {G : Mat ℝ n n} {A : Mat ℝ m n} {b : Vec ℝ m}

/-- The range-space solver returns a stationary point of the reduced constraints, on which the rows
kept hold if the rank decision on the Schur complement keeps all columns. -/
theorem solveRangeSpace_spec (hC : F.ExactCholesky) (hQ : F.ExactPivotedQR)
    (hG : G.symmetrized.toMatrix.PosDef) (c : Vec ℝ n) (A : Mat ℝ m n) (b : Vec ℝ m) :
    ∃ L red s y, F.cholesky G = some L ∧ reduceConstraints F A b = .ok red ∧
      solveRangeSpace F L c A b = .ok s ∧ s.y = red.spread y ∧
      G.symmetrized.toMatrix *ᵥ s.x.get + c.get = red.matrix.toMatrixᵀ *ᵥ y.get ∧
      ((F.pivotedQR (schurComplement L red.matrix)).rank
          (defaultCutoff red.numRows red.numRows) = red.numRows →
        red.matrix.toMatrix *ᵥ s.x.get = red.target.get) := by
  obtain ⟨L, hL⟩ := hC.exists_factor hG
  obtain ⟨red, hred⟩ := reduceConstraints_eq_ok F A b
  obtain ⟨y, hy, hs⟩ := solveRangeSpace_eq hQ L c hred
  have hd : ∀ i, L i i ≠ 0 := fun i => (hC.diag_pos hL i).ne'
  refine ⟨L, red, _, y, hL, hred, hs, rfl, ?_, fun hrank => ?_⟩
  · rw [← (reduceConstraints_of hred).transpose_mulVec_spread]
    exact stationary_substitute hd (hC.product hL) c A (red.spread y)
  · exact (mulVec_substitute_spread_iff hd (hC.product hL) hG (reduceConstraints_of hred) c y).mpr
      (pivotedLeastSquares_solves hQ _ _ hrank hy)

/-- A decided Schur complement has full rank. -/
theorem SchurDecided.rank_eq (hschur : SchurDecided F G A b) (hC : F.ExactCholesky)
    (hQ : F.ExactPivotedQR) (hG : G.symmetrized.toMatrix.PosDef) {L : Mat ℝ n n}
    (hL : F.cholesky G = some L) {red : Reduced ℝ m n}
    (hred : reduceConstraints F A b = .ok red) :
    (F.pivotedQR (schurComplement L red.matrix)).rank (defaultCutoff red.numRows red.numRows) =
      red.numRows := by
  have hpos := schurComplement_posDef (fun i => (hC.diag_pos hL i).ne') (hC.product hL) hG
    fun y => reduceConstraints_independent hQ hred
  exact (hQ _).rank_eq hpos.det_pos.ne' (hschur L red hL hred)

/-- A Schur complement of one row or none is decided. -/
theorem schurDecided_of_parallel (hQ : F.ExactPivotedQR) {u : Fin n → ℝ} (hA : A.RowsParallel u) :
    SchurDecided F G A b := by
  intro L red _ hred
  have hle := numRows_le_one hQ hA hred
  exact PivotedQR.keepsNonzero_of_le_one _ (by omega) (defaultCutoff_lt_one (by omega))

/-- With a positive definite matrix in the lower triangle, stationarity holds for every target, and
rows left out have no multiplier. If the rank decision on the Schur complement keeps all columns,
the rows kept hold and the point is the only minimizer on them. -/
theorem solveRangeSpace_stationary_minimal (hC : F.ExactCholesky) (hQ : F.ExactPivotedQR)
    (hG : G.symmetrized.toMatrix.PosDef) (c : Vec ℝ n) (A : Mat ℝ m n) (b : Vec ℝ m) :
    ∃ L red s, choleskyFactor? F G = .ok (some L) ∧ reduceConstraints F A b = .ok red ∧
      solveRangeSpace F L c A b = .ok s ∧
      (G.symmetrized.mulVec s.x).add c = A.transposeMulVec s.y ∧
      (∀ i, i ∉ Set.range red.rows.get → s.y i = 0) ∧
      ((F.pivotedQR (schurComplement L red.matrix)).rank
          (defaultCutoff red.numRows red.numRows) = red.numRows →
        (∀ k, A.mulVec s.x (red.rows k) = b (red.rows k)) ∧
        ∀ z, (∀ k, A.mulVec z (red.rows k) = b (red.rows k)) → z ≠ s.x →
          quadraticCost G.symmetrized c s.x < quadraticCost G.symmetrized c z) := by
  obtain ⟨L, red, s, y, hL, hred, hs, hy, hstat, hrows⟩ := solveRangeSpace_spec hC hQ hG c A b
  have hof := reduceConstraints_of hred
  refine ⟨L, red, s, by rw [choleskyFactor?_eq, hL], hred, hs, ?_, fun i hi => ?_, fun hrank => ?_⟩
  · rw [stationary_iff, hstat, hy, hof.transpose_mulVec_spread]
  · rw [hy]
    exact red.spread_apply_of_notMem y hi
  · have hx := hrows hrank
    simp only [Mat.coe_mulVec, quadraticCost_eq]
    refine ⟨(hof.mulVec_eq_target_iff _).mp hx, fun z hz hne => ?_⟩
    refine objective_lt_of_stationary hG hstat ?_ fun h => hne (Vec.coe_injective h)
    rw [hx]
    exact (hof.mulVec_eq_target_iff _).mpr hz

/-- Only the lower triangle of the matrix is read. The constraints contradict each other, so only
the row kept holds. -/
theorem solveRangeSpace_contradictory :
    let G : Mat ℝ 2 2 := Mat.ofFn ![![2, 7], ![0, 2]]
    let A : Mat ℝ 2 2 := Mat.ofFn ![![1, 0], ![2, 0]]
    let c : Vec ℝ 2 := Vec.ofFn ![1, -1]
    let b : Vec ℝ 2 := Vec.ofFn ![1, 3]
    G.symmetrized.toMatrix.PosDef ∧
      ∃ L red s, choleskyFactor? Factorizations.standard G = .ok (some L) ∧
        reduceConstraints Factorizations.standard A b = .ok red ∧
        solveRangeSpace Factorizations.standard L c A b = .ok s ∧
        (G.symmetrized.mulVec s.x).add c = A.transposeMulVec s.y ∧
        (∀ i, i ∉ Set.range red.rows.get → s.y i = 0) ∧
        ∀ k, A.mulVec s.x (red.rows k) = b (red.rows k) := by
  intro G A c b
  have hG : G.symmetrized.toMatrix.PosDef := by
    have hdiag : G.symmetrized.toMatrix = diagonal fun _ => 2 := by
      ext i j
      fin_cases i <;> fin_cases j <;> simp [G, Mat.symmetrized]
    rw [hdiag]
    exact PosDef.diagonal fun _ => two_pos
  have hC := Factorizations.standard_exactCholesky
  have hQ := Factorizations.standard_exactPivotedQR
  obtain ⟨L, red, s, hL, hred, hs, hstat, hzero, hkept⟩ :=
    solveRangeSpace_stationary_minimal hC hQ hG c A b
  have hL' : Factorizations.standard.cholesky G = some L := by
    rw [choleskyFactor?_eq] at hL
    exact Except.ok.inj hL
  have hrank := (schurDecided_of_parallel hQ rowsAlong_double.parallel).rank_eq hC hQ hG hL' hred
  exact ⟨hG, L, red, s, hL, hred, hs, hstat, hzero, (hkept hrank).1⟩

end Solution

end QuadraticProgram
