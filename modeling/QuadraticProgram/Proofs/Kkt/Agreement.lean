import QuadraticProgram.Proofs.Kkt.RangeSpace
import QuadraticProgram.Proofs.Kkt.System

/-! # Both ways to solve agree

For a positive definite matrix the reduced optimality conditions have one solution. Both ways reduce
the constraints to the same rows before they solve, so they agree even if the constraints
contradict each other.
-/

namespace QuadraticProgram
open Matrix

variable {m n k : ℕ} {F : Factorizations ℝ} {G : Mat ℝ n n} {A : Mat ℝ m n} {b : Vec ℝ m}

theorem eq_of_stationary {H : Matrix (Fin n) (Fin n) ℝ} (hH : H.PosDef)
    {R : Matrix (Fin k) (Fin n) ℝ} {c x z : Fin n → ℝ} {y w : Fin k → ℝ}
    (hx : H *ᵥ x + c = Rᵀ *ᵥ y) (hz : H *ᵥ z + c = Rᵀ *ᵥ w) (hxz : R *ᵥ x = R *ᵥ z) : x = z := by
  by_contra hne
  have hlt := objective_lt_of_stationary hH hx hxz.symm (Ne.symm hne)
  exact lt_asymm hlt (objective_lt_of_stationary hH hz hxz hne)

/-- If no rank decision discards anything, the full-system solver returns the point of the
range-space solver, whatever the constraints. -/
theorem solveFullSystem_eq_solveRangeSpace (hC : F.ExactCholesky) (hQ : F.ExactPivotedQR)
    (hS : F.ExactSVD) (hG : G.toMatrix.PosDef) (c : Vec ℝ n) (A : Mat ℝ m n) (b : Vec ℝ m)
    (hschur : SchurDecided F G A b) (hsys : SystemDecided F G A b) :
    ∃ L s, choleskyFactor? F G = .ok (some L) ∧ solveRangeSpace F L c A b = .ok s ∧
      solveFullSystem F G c A b = .ok s.x := by
  have hsymm : G.symmetrized = G :=
    Mat.symmetrized_of_isSymm (isHermitian_iff_isSymm.mp hG.isHermitian)
  have hG' : G.symmetrized.toMatrix.PosDef := hsymm.symm ▸ hG
  -- the range-space point satisfies the reduced conditions, so the full system has a solution
  obtain ⟨L, red, s, w, hL, hred, hs, -, hstat, hrows⟩ := solveRangeSpace_spec hC hQ hG' c A b
  have hrows := hrows (hschur.rank_eq hC hQ hG' hL hred)
  rw [hsymm] at hstat
  obtain ⟨x, y, hx, -, hstat', hrows'⟩ := solveFullSystem_solves hS hsys hred hstat hrows
  refine ⟨L, s, by rw [choleskyFactor?_eq, hL], hs, ?_⟩
  rw [hx, Vec.coe_injective (eq_of_stationary hG hstat' hstat (hrows'.trans hrows.symm))]

/-- Both ways find one point for constraints that contradict each other. -/
theorem solveFullSystem_contradictory :
    let G : Mat ℝ 2 2 := Mat.ofFn ![![1, 0], ![0, 1]]
    let A : Mat ℝ 2 2 := Mat.ofFn ![![1, 0], ![2, 0]]
    let c : Vec ℝ 2 := Vec.ofFn ![1, -1]
    let b : Vec ℝ 2 := Vec.ofFn ![1, 3]
    G.toMatrix.PosDef ∧ SchurDecided Factorizations.exact G A b ∧
      SystemDecided Factorizations.exact G A b ∧
      ∃ L s, choleskyFactor? Factorizations.exact G = .ok (some L) ∧
        solveRangeSpace Factorizations.exact L c A b = .ok s ∧
        solveFullSystem Factorizations.exact G c A b = .ok s.x := by
  intro G A c b
  have hC := Factorizations.exact_exactCholesky
  have hQ := Factorizations.exact_exactPivotedQR
  have hg := Factorizations.exact_greedyPivotedQR
  have hS := Factorizations.exact_exactSVD
  have hG : G.toMatrix.PosDef := by
    have hone : G.toMatrix = 1 := by
      ext i j
      fin_cases i <;> fin_cases j <;> simp [G]
    rw [hone]
    exact PosDef.one
  have hschur : SchurDecided Factorizations.exact G A b :=
    schurDecided_of_parallel hQ rowsAlong_double.parallel
  have hsys : SystemDecided Factorizations.exact G A b :=
    systemDecided_of_rowsAlong hQ hg rowsAlong_double two_pos (defaultCutoff_lt_one (by norm_num))
      (kktMatrix_fixed_keepsNonzero hS (.inr rfl))
  exact ⟨hG, hschur, hsys, solveFullSystem_eq_solveRangeSpace hC hQ hS hG c A b hschur hsys⟩

end QuadraticProgram
