import QuadraticProgram.Proofs.Constraints.Orthonormal
import QuadraticProgram.Proofs.Exact.Form
import QuadraticProgram.Proofs.Kkt.RangeSpace
import QuadraticProgram.Proofs.LeastSquares.Signs

/-! # Which chosen rows hold

One rank decision chooses independent rows, a second one counts the columns of their Schur
complement. The Schur complement is as badly conditioned as the matrix, so the second decision may
discard a row that the first one has chosen, and nothing makes this row hold. It discards none if
the conditions of the matrix and of the chosen rows, multiplied, stay below what the cutoff allows.
-/

namespace QuadraticProgram
open Matrix

variable {m n k : ℕ} {F : Factorizations ℝ}

/-- The columns that a rank decision with the default cutoff keeps. -/
def keptColumns (F : Factorizations ℝ) (M : Mat ℝ m n) : Set (Fin n) :=
  Set.range ((F.pivotedQR M).leading _ ((F.pivotedQR M).rank_le (defaultCutoff m n))).get

/-- Least squares solves a system exactly if the columns kept do. -/
theorem pivotedLeastSquares_solves_iff (hQ : F.ExactPivotedQR) {M : Mat ℝ m n} {r : Vec ℝ m}
    {y : Vec ℝ n} (hy : pivotedLeastSquares F M r none = .ok y) :
    M.toMatrix *ᵥ y.get = r.get ↔
      ∃ w, (∀ j, j ∉ keptColumns F M → w j = 0) ∧ M.toMatrix *ᵥ w = r.get := by
  have hc := defaultCutoff_nonneg m n
  obtain ⟨y', hy', hbasic⟩ := pivotedLeastSquares_basic hQ M r none hc
  obtain rfl := Except.ok.inj (hy'.symm.trans hy)
  constructor
  · exact fun h => ⟨y'.get, hbasic.outside, h⟩
  · rintro ⟨w, hw, hM⟩
    have hw' : BasicSolution M.toMatrix (keptColumns F M) r.get w := ⟨hw, fun j _ => by rw [hM]⟩
    rw [hbasic.unique ((hQ M).leading_injective _) (fun s => (hQ M).leading_independent hc) hw']
    exact hM

/-- The rank decision keeps all columns of a matrix whose form is bounded well enough. -/
theorem keptColumns_eq_univ (hQ : F.ExactPivotedQR) {S : Mat ℝ k k} {lo hi : ℝ}
    (hS : S.toMatrix.PosSemidef) (h : FormBounds S.toMatrix lo hi)
    (hc : hi * defaultCutoff k k < lo) : keptColumns F S = Set.univ := by
  have hsq : hi ^ 2 * defaultCutoff k k ^ 2 < lo ^ 2 := by
    rw [← mul_pow]
    exact pow_lt_pow_left₀ hc (mul_nonneg h.hi_pos.le (defaultCutoff_nonneg k k)) two_ne_zero
  have hrank := (hQ S).rank_eq_of_bounds (lo ^ 2) (hi ^ 2) (pow_pos h.pos 2) (h.mulVec_le hS)
    h.le_mulVec hsq
  exact ((hQ S).leading_surjective _ (hrank.trans (min_self k))).range_eq

/-- The form of the Schur complement. -/
theorem schurComplement_formBounds {L : Mat ℝ n n} {G : Matrix (Fin n) (Fin n) ℝ} {R : Mat ℝ k n}
    {lo hi lo' hi' : ℝ} (hd : ∀ i, L i i ≠ 0) (hL : L.lower * L.lowerᵀ = G) (hG : G.PosDef)
    (h : FormBounds G lo hi) (hR : FormBounds (R.toMatrix * R.toMatrixᵀ) lo' hi') :
    FormBounds (schurComplement L R).toMatrix (hi⁻¹ * lo') (lo⁻¹ * hi') := by
  rw [toMatrix_schurComplement hd hL hG]
  exact (h.inv hG).conj hR

/-- The chosen rows hold exactly if the columns of the Schur complement that are kept carry its
right-hand side, so they hold if all columns are kept. All columns are kept if the condition of the
matrix times that of the Gram matrix of the reduced rows stays below the inverse of the cutoff. -/
theorem solveRangeSpace_enforces (hC : F.ExactCholesky) (hQ : F.ExactPivotedQR) {G : Mat ℝ n n}
    (hG : G.symmetrized.toMatrix.PosDef) (c : Vec ℝ n) (A : Mat ℝ m n) (b : Vec ℝ m) :
    ∃ L red s, choleskyFactor? F G = .ok (some L) ∧ reduceConstraints F A b = .ok red ∧
      solveRangeSpace F L c A b = .ok s ∧
      ((∀ k, A.mulVec s.x (red.rows k) = b (red.rows k)) ↔
        ∃ w, (∀ j, j ∉ keptColumns F (schurComplement L red.matrix) → w j = 0) ∧
          (schurComplement L red.matrix).toMatrix *ᵥ w =
            (schurTarget L c red.matrix red.target).get) ∧
      (keptColumns F (schurComplement L red.matrix) = Set.univ →
        ∀ k, A.mulVec s.x (red.rows k) = b (red.rows k)) ∧
      ∀ lo hi lo' hi', FormBounds G.symmetrized.toMatrix lo hi →
        FormBounds (red.matrix.toMatrix * red.matrix.toMatrixᵀ) lo' hi' →
        hi * hi' * defaultCutoff red.numRows red.numRows < lo * lo' →
        keptColumns F (schurComplement L red.matrix) = Set.univ := by
  obtain ⟨L, hL⟩ := hC.exists_factor hG
  obtain ⟨red, hred⟩ := reduceConstraints_eq_ok F A b
  obtain ⟨y, hy, hs⟩ := solveRangeSpace_eq hQ L c hred
  have hof := reduceConstraints_of hred
  have hd : ∀ i, L i i ≠ 0 := fun i => (hC.diag_pos hL i).ne'
  have hpos := schurComplement_posDef hd (hC.product hL) hG
    fun y => reduceConstraints_independent hQ hred
  have hiff := (mulVec_substitute_spread_iff hd (hC.product hL) hG hof c y).trans
    (pivotedLeastSquares_solves_iff hQ hy)
  rw [hof.mulVec_eq_target_iff] at hiff
  refine ⟨L, red, _, by rw [choleskyFactor?_eq, hL], hred, hs, ?_, fun hall => ?_,
    fun lo hi lo' hi' h hR hc => ?_⟩
  · simpa only [Mat.coe_mulVec] using hiff
  · simp only [Mat.coe_mulVec]
    have hunit := (isUnit_iff_isUnit_det _).mp hpos.isUnit
    refine hiff.mpr ⟨(schurComplement L red.matrix).toMatrix⁻¹ *ᵥ
      (schurTarget L c red.matrix red.target).get, fun j hj => ?_, ?_⟩
    · exact absurd (hall ▸ Set.mem_univ j) hj
    · rw [mulVec_mulVec, mul_nonsing_inv _ hunit, one_mulVec]
  · refine keptColumns_eq_univ hQ hpos.posSemidef
      (schurComplement_formBounds hd (hC.product hL) hG h hR) ?_
    rw [mul_assoc, inv_mul_lt_iff₀ h.pos, ← mul_assoc, mul_comm lo, mul_assoc,
      lt_inv_mul_iff₀ h.hi_pos]
    linarith

section TwoWeights

theorem toMatrix_identity : (Mat.ofFn ![![1, 0], ![0, 1]] : Mat ℝ 2 2).toMatrix = 1 := by
  ext i j
  fin_cases i <;> fin_cases j <;> simp

theorem symmetrized_weights (g u : ℝ) :
    (Mat.ofFn ![![1, u], ![0, g]] : Mat ℝ 2 2).symmetrized.toMatrix = diagonal ![1, g] := by
  ext i j
  fin_cases i <;> fin_cases j <;> simp [Mat.symmetrized]

theorem reduceConstraints_identity (hQ : F.ExactPivotedQR) (b : Vec ℝ 2) :
    reduceConstraints F (Mat.ofFn ![![1, 0], ![0, 1]]) b =
      .ok ⟨Vec.ofFn fun _ => 1, 2, Vec.ofFn id, Mat.ofFn ![![1, 0], ![0, 1]], b⟩ := by
  apply reduceConstraints_of_orthonormal ?_ hQ (defaultCutoff_lt_one (by norm_num))
  rw [toMatrix_identity, transpose_one, Matrix.one_mul]

theorem posDef_weights {g : ℝ} (hg : 0 < g) :
    (diagonal ![1, g] : Matrix (Fin 2) (Fin 2) ℝ).PosDef := by
  apply PosDef.diagonal
  intro i
  fin_cases i
  · exact one_pos
  · exact hg

end TwoWeights

/-- What lies above the diagonal of the matrix is not read, and both rows hold. -/
theorem solveRangeSpace_enforces_identity :
    let G : Mat ℝ 2 2 := Mat.ofFn ![![1, 7], ![0, 2]]
    let A : Mat ℝ 2 2 := Mat.ofFn ![![1, 0], ![0, 1]]
    let c : Vec ℝ 2 := Vec.ofFn ![1, -1]
    let b : Vec ℝ 2 := Vec.ofFn ![3, 4]
    G.symmetrized.toMatrix.PosDef ∧
      ∃ L red s, choleskyFactor? Factorizations.exact G = .ok (some L) ∧
        reduceConstraints Factorizations.exact A b = .ok red ∧
        solveRangeSpace Factorizations.exact L c A b = .ok s ∧
        keptColumns Factorizations.exact (schurComplement L red.matrix) = Set.univ ∧
        ∀ k, A.mulVec s.x (red.rows k) = b (red.rows k) := by
  intro G A c b
  have hC := Factorizations.exact_exactCholesky
  have hQ := Factorizations.exact_exactPivotedQR
  have hG : G.symmetrized.toMatrix = diagonal ![1, 2] := symmetrized_weights 2 7
  have hpos : G.symmetrized.toMatrix.PosDef := hG ▸ posDef_weights two_pos
  obtain ⟨L, red, s, hL, hred, hs, -, hrows, hbounds⟩ := solveRangeSpace_enforces hC hQ hpos c A b
  obtain rfl := Except.ok.inj ((reduceConstraints_identity hQ b).symm.trans hred)
  have hform : FormBounds G.symmetrized.toMatrix 1 2 := by
    rw [hG]
    refine .diagonal one_pos one_le_two fun i => ?_
    fin_cases i <;> norm_num
  have hgram : FormBounds (A.toMatrix * A.toMatrixᵀ) 1 1 := by
    rw [toMatrix_identity, transpose_one, Matrix.one_mul]
    exact .one
  have hall := hbounds 1 2 1 1 hform hgram
    (by norm_num [defaultCutoff, Scalar.epsilon, Scalar.ratio_eq])
  exact ⟨hpos, L, _, s, hL, hred, hs, hall, hrows hall⟩

/-- A variable of a weight so large that its row, although it is orthogonal to the other one, is
discarded by the second decision. The variable stays at zero. -/
theorem solveRangeSpace_discards_row :
    let G : Mat ℝ 2 2 := Mat.ofFn ![![1, 0], ![0, 10 ^ 20]]
    let A : Mat ℝ 2 2 := Mat.ofFn ![![1, 0], ![0, 1]]
    let c : Vec ℝ 2 := Vec.zero
    let b : Vec ℝ 2 := Vec.ofFn ![0, 1]
    G.symmetrized.toMatrix.PosDef ∧
      ∃ L red s, choleskyFactor? Factorizations.exact G = .ok (some L) ∧
        reduceConstraints Factorizations.exact A b = .ok red ∧
        solveRangeSpace Factorizations.exact L c A b = .ok s ∧
        ∃ k, A.mulVec s.x (red.rows k) ≠ b (red.rows k) := by
  intro G A c b
  have hC := Factorizations.exact_exactCholesky
  have hQ := Factorizations.exact_exactPivotedQR
  have hg := Factorizations.exact_greedyPivotedQR
  have hG : G.symmetrized.toMatrix = diagonal ![1, 10 ^ 20] := symmetrized_weights (10 ^ 20) 0
  have hpos : G.symmetrized.toMatrix.PosDef := hG ▸ posDef_weights (by positivity)
  have hred := reduceConstraints_identity hQ b
  obtain ⟨L, hL⟩ := hC.exists_factor hpos
  have hd : ∀ i, L i i ≠ 0 := fun i => (hC.diag_pos hL i).ne'
  obtain ⟨y, hy, hs⟩ := solveRangeSpace_eq hQ L c hred
  have hS : (schurComplement L A).toMatrix = diagonal ![1, (10 ^ 20)⁻¹] := by
    rw [toMatrix_schurComplement hd (hC.product hL) hpos, toMatrix_identity, transpose_one,
      Matrix.one_mul, Matrix.mul_one, hG]
    apply inv_eq_right_inv
    rw [diagonal_mul_diagonal, ← diagonal_one]
    congr 1
    ext i
    fin_cases i <;> simp
  have hdiscarded : 1 ∉ keptColumns Factorizations.exact (schurComplement L A) := by
    refine (hQ _).notMem_leading_of_short (hg _) (defaultCutoff_nonneg 2 2) (u := 0) ?_
    rw [hS]
    norm_num [dotProduct, Fin.sum_univ_two, defaultCutoff, Scalar.epsilon, Scalar.ratio_eq]
  obtain ⟨y', hy', hbasic⟩ := pivotedLeastSquares_basic hQ (schurComplement L A)
    (schurTarget L c A b) none (defaultCutoff_nonneg 2 2)
  obtain rfl := Except.ok.inj (hy'.symm.trans hy)
  have hzero : y' 1 = 0 := hbasic.outside 1 hdiscarded
  -- without a multiplier of the second row nothing moves the second variable
  have hstat := stationary_substitute hd (hC.product hL) c A
    ((⟨Vec.ofFn fun _ => 1, 2, Vec.ofFn id, A, b⟩ : Reduced ℝ 2 2).spread y')
  rw [(reduceConstraints_of hred).transpose_mulVec_spread, hG, diagonal_mulVec_eq,
    toMatrix_identity, transpose_one, one_mulVec, Vec.coe_zero, add_zero] at hstat
  have hsecond := congrFun hstat 1
  rw [Pi.mul_apply, hzero] at hsecond
  have hx := (mul_eq_zero.mp hsecond).resolve_left (by norm_num)
  refine ⟨hpos, L, _, _, by rw [choleskyFactor?_eq, hL], hred, hs, 1, ?_⟩
  dsimp only
  rw [Vec.get_ofFn, id, Mat.coe_mulVec, toMatrix_identity, one_mulVec, hx, Vec.get_ofFn]
  exact zero_ne_one

end QuadraticProgram
