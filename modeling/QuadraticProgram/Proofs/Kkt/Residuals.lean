import Mathlib.Analysis.Normed.Group.Constructions
import QuadraticProgram.Proofs.Arrays.Residuals
import QuadraticProgram.Proofs.Kkt.Certificate
import QuadraticProgram.Proofs.Kkt.Defect

/-! # The residuals are what the system is missed by

The residuals of a point and multipliers are the sup norms of the two parts by which the stacked
vector misses the system of the optimality conditions. So it misses the system by the larger of the
two, and solves it if and only if both are zero, for any matrix and for parts of any size.
-/

namespace QuadraticProgram
open Matrix

variable {m n k : ℕ}

/-- The sup norm is known by its bounds. -/
theorem eq_norm_of_le_iff {a : ℝ} (ha : 0 ≤ a) {v : Fin n → ℝ}
    (h : ∀ {t}, 0 ≤ t → (a ≤ t ↔ ∀ i, |v i| ≤ t)) : a = ‖v‖ := by
  apply le_antisymm
  · exact (h (norm_nonneg v)).mpr (norm_le_pi_norm v)
  · exact (pi_norm_le_iff_of_nonneg ha).mpr ((h ha).mp le_rfl)

/-- A stacked vector is as large as the larger of its parts. -/
theorem norm_append (x : Fin n → ℝ) (y : Fin k → ℝ) : ‖Fin.append x y‖ = max ‖x‖ ‖y‖ := by
  symm
  apply eq_norm_of_le_iff (le_max_of_le_left (norm_nonneg x))
  intro t ht
  rw [max_le_iff, pi_norm_le_iff_of_nonneg ht, pi_norm_le_iff_of_nonneg ht, Fin.forall_fin_add]
  simp only [Fin.append_left, Fin.append_right, Real.norm_eq_abs]

section Residuals

variable (G : Mat ℝ n n) (c : Vec ℝ n) (A : Mat ℝ m n) (b : Vec ℝ m) (x : Vec ℝ n) (y : Vec ℝ m)

theorem constraintResidual_eq_norm :
    constraintResidual A b x = ‖A.toMatrix *ᵥ x.get - b.get‖ :=
  eq_norm_of_le_iff (Scalar.maxAbs_nonneg _) (constraintResidual_le_iff A b x)

theorem stationarityResidual_eq_norm :
    stationarityResidual G c A x y = ‖gradientDefect G.toMatrix c.get A.toMatrix x.get y.get‖ :=
  eq_norm_of_le_iff (Scalar.maxAbs_nonneg _) (stationarityResidual_le_iff G c A x y)

/-- The stacked vector misses the system by the larger residual. -/
theorem norm_kktMatrix_mulVec_sub_target :
    ‖(kktMatrix G A).toMatrix *ᵥ Fin.append x.get y.get - (kktTarget c b).get‖ =
      max (constraintResidual A b x) (stationarityResidual G c A x y) := by
  rw [kktMatrix_mulVec_sub_target, norm_append, constraintResidual_eq_norm,
    stationarityResidual_eq_norm, max_comm]

theorem kktMatrix_mulVec_eq_iff_residuals :
    (kktMatrix G A).toMatrix *ᵥ Fin.append x.get y.get = (kktTarget c b).get ↔
      constraintResidual A b x = 0 ∧ stationarityResidual G c A x y = 0 := by
  rw [constraintResidual_eq_norm, stationarityResidual_eq_norm, norm_eq_zero, norm_eq_zero,
    gradientDefect, sub_eq_zero, sub_eq_zero, and_comm]
  exact kktMatrix_mulVec_eq_iff G A c b x.get y.get

end Residuals

/-- The system that is built from the data is missed by exactly the larger of the two residuals that
are computed from the same data, and it is solved if and only if both are zero. Nothing is asked of
the matrix, and there may be no variables or no rows. -/
theorem kktSystem_missed_by_residuals (G : Mat ℝ n n) (c : Vec ℝ n) (A : Mat ℝ m n)
    (b : Vec ℝ m) :
    ∃ (K : Mat ℝ (n + m) (n + m)) (t : Vec ℝ (n + m)),
      NDArray.kktSystem (.ofMat G) (.ofVec c) (.ofMat A) (.ofVec b) = .ok ⟨.ofMat K, .ofVec t⟩ ∧
      ∀ (x : Vec ℝ n) (y : Vec ℝ m), ∃ primal dual,
        NDArray.kktResiduals (.ofMat G) (.ofVec c) (.ofMat A) (.ofVec b) (.ofVec x)
          (some (.ofVec y)) = .ok ⟨primal, some dual⟩ ∧
        ‖K.toMatrix *ᵥ Fin.append x.get y.get - t.get‖ = max primal dual ∧
        (K.toMatrix *ᵥ Fin.append x.get y.get = t.get ↔ primal = 0 ∧ dual = 0) := by
  refine ⟨kktMatrix G A, kktTarget c b, NDArray.kktSystem_ofMat G c A b, fun x y => ?_⟩
  refine ⟨constraintResidual A b x, stationarityResidual G c A x y,
    NDArray.kktResiduals_ofMat G c A b x y, ?_, ?_⟩
  · exact norm_kktMatrix_mulVec_sub_target G c A b x y
  · exact kktMatrix_mulVec_eq_iff_residuals G c A b x y

end QuadraticProgram
