import Mathlib.Analysis.Matrix.Order
import QuadraticProgram.Proofs.Exact.Matrix

/-! # Stationary points minimize

A quadratic objective of a symmetric matrix grows from a point that is stationary on the constraints
by exactly half the curvature along the way.
-/

namespace QuadraticProgram
open Matrix

variable {m n : ℕ}

/-- The quadratic objective over the reals. -/
noncomputable def objective (G : Matrix (Fin n) (Fin n) ℝ) (c x : Fin n → ℝ) : ℝ :=
  x ⬝ᵥ G *ᵥ x / 2 + c ⬝ᵥ x

theorem quadraticCost_eq (G : Mat ℝ n n) (c x : Vec ℝ n) :
    quadraticCost G c x = objective G.toMatrix c.get x.get := by
  have hhalf : (x.map (Scalar.ratio 1 2 * ·)).get = (1 / 2 : ℝ) • x.get := by
    funext i
    rw [Vec.get_map, Scalar.ratio_eq, Pi.smul_apply, smul_eq_mul]
    norm_num
  change Vec.dot _ _ + Vec.dot _ _ = _
  rw [Vec.dot_eq, Vec.dot_eq, hhalf, Mat.coe_mulVec, smul_dotProduct, smul_eq_mul, objective]
  ring

/-- The gradient is a combination of the rows. -/
theorem stationary_iff (G : Mat ℝ n n) (c x : Vec ℝ n) (A : Mat ℝ m n) (y : Vec ℝ m) :
    (G.mulVec x).add c = A.transposeMulVec y ↔
      G.toMatrix *ᵥ x.get + c.get = A.toMatrixᵀ *ᵥ y.get := by
  rw [← Vec.coe_injective.eq_iff, Vec.coe_add, Mat.coe_mulVec, Mat.coe_transposeMulVec]

variable {G : Matrix (Fin n) (Fin n) ℝ} {A : Matrix (Fin m) (Fin n) ℝ}
variable {c x z : Fin n → ℝ} {y : Fin m → ℝ}

theorem objective_add (hG : G.IsSymm) (c x d : Fin n → ℝ) :
    objective G c (x + d) = objective G c x + (G *ᵥ x + c) ⬝ᵥ d + d ⬝ᵥ G *ᵥ d / 2 := by
  have hswap : x ⬝ᵥ G *ᵥ d = G *ᵥ x ⬝ᵥ d := by
    rw [dotProduct_mulVec, ← mulVec_transpose, hG.eq]
  simp only [objective, mulVec_add, add_dotProduct, dotProduct_add, hswap, dotProduct_comm d]
  ring

/-- Between points that agree on the constraints the objective differs by half the curvature. -/
theorem objective_of_stationary (hG : G.IsSymm) (hs : G *ᵥ x + c = Aᵀ *ᵥ y)
    (hz : A *ᵥ z = A *ᵥ x) :
    objective G c z = objective G c x + (z - x) ⬝ᵥ G *ᵥ (z - x) / 2 := by
  have hd : (G *ᵥ x + c) ⬝ᵥ (z - x) = 0 := by
    rw [hs, mulVec_transpose, ← dotProduct_mulVec, mulVec_sub, hz, sub_self, dotProduct_zero]
  rw [← add_sub_cancel x z, objective_add hG, hd, add_zero, add_sub_cancel]

theorem objective_lt_of_stationary (hG : G.PosDef) (hs : G *ᵥ x + c = Aᵀ *ᵥ y)
    (hz : A *ᵥ z = A *ᵥ x) (hne : z ≠ x) : objective G c x < objective G c z := by
  have hpos := hG.dotProduct_mulVec_pos (sub_ne_zero.mpr hne)
  rw [star_trivial] at hpos
  rw [objective_of_stationary (isHermitian_iff_isSymm.mp hG.isHermitian) hs hz]
  linarith

theorem objective_le_of_stationary (hG : G.PosSemidef) (hs : G *ᵥ x + c = Aᵀ *ᵥ y)
    (hz : A *ᵥ z = A *ᵥ x) : objective G c x ≤ objective G c z := by
  have hnonneg := hG.dotProduct_mulVec_nonneg (z - x)
  rw [star_trivial] at hnonneg
  rw [objective_of_stationary (isHermitian_iff_isSymm.mp hG.isHermitian) hs hz]
  linarith

/-- A point no worse than a stationary one has the same gradient. -/
theorem mulVec_eq_of_objective_le (hG : G.PosSemidef) (hs : G *ᵥ x + c = Aᵀ *ᵥ y)
    (hz : A *ᵥ z = A *ᵥ x) (hle : objective G c z ≤ objective G c x) : G *ᵥ z = G *ᵥ x := by
  have hnonneg := hG.dotProduct_mulVec_nonneg (z - x)
  have hzero : star (z - x) ⬝ᵥ G *ᵥ (z - x) = 0 := by
    rw [objective_of_stationary (isHermitian_iff_isSymm.mp hG.isHermitian) hs hz] at hle
    rw [star_trivial] at hnonneg ⊢
    linarith
  rw [hG.dotProduct_mulVec_zero_iff, mulVec_sub] at hzero
  exact sub_eq_zero.mp hzero

end QuadraticProgram
