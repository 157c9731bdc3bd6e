import Mathlib.Analysis.Convex.Function
import Mathlib.Tactic.Module
import QuadraticProgram.Proofs.Kkt.Objective

/-! # What a quadratic objective tells about its data

An objective fixes its linear term and the symmetric part of its matrix, and nothing else about the
matrix: along the axes and between two axes it shows every entry of both. It is strictly convex if
its matrix is positive definite.
-/

namespace QuadraticProgram
open Matrix

variable {n : ℕ} {G H : Matrix (Fin n) (Fin n) ℝ} {c d : Fin n → ℝ}

theorem objective_single (G : Matrix (Fin n) (Fin n) ℝ) (c : Fin n → ℝ) (i : Fin n) (t : ℝ) :
    objective G c (Pi.single i t) = t * t * G i i / 2 + t * c i := by
  simp only [objective, mulVec_single, op_smul_eq_smul, dotProduct_smul, single_dotProduct,
    col_apply, smul_eq_mul, dotProduct_single]
  ring

theorem objective_single_add_single (G : Matrix (Fin n) (Fin n) ℝ) (c : Fin n → ℝ) (i j : Fin n) :
    objective G c (Pi.single i 1 + Pi.single j 1) =
      (G i i + G j j + (G i j + G j i)) / 2 + (c i + c j) := by
  simp only [objective, mulVec_add, mulVec_single, MulOpposite.op_one, one_smul, dotProduct_add,
    add_dotProduct, single_dotProduct, col_apply, one_mul, dotProduct_single, mul_one]
  ring

/-- The linear term is half the difference between the objective at opposite points. -/
theorem eq_of_objective_eq (h : ∀ z, objective G c z = objective H d z) : c = d := by
  funext i
  have hpos := h (Pi.single i 1)
  have hneg := h (Pi.single i (-1))
  rw [objective_single, objective_single] at hpos hneg
  linarith

/-- Objectives that agree everywhere have matrices with the same symmetric part. -/
theorem add_transpose_eq_of_objective_eq (h : ∀ z, objective G c z = objective H d z) :
    G + Gᵀ = H + Hᵀ := by
  obtain rfl := eq_of_objective_eq h
  have hdiag : ∀ i, G i i = H i i := by
    intro i
    have hi := h (Pi.single i 1)
    rw [objective_single, objective_single] at hi
    linarith
  ext i j
  have hij := h (Pi.single i 1 + Pi.single j 1)
  rw [objective_single_add_single, objective_single_add_single, hdiag, hdiag] at hij
  change G i j + G j i = H i j + H j i
  linarith

/-- One triangle and the symmetric part are the whole matrix. -/
theorem eq_of_lower_eq (h : G + Gᵀ = H + Hᵀ) (hlower : ∀ i j, j ≤ i → G i j = H i j) : G = H := by
  ext i j
  rcases le_total j i with hji | hij
  · exact hlower i j hji
  · have hsum : G i j + G j i = H i j + H j i := congrFun (congrFun h i) j
    rw [hlower j i hij] at hsum
    exact add_right_cancel hsum

/-- A symmetric matrix is its symmetric part. -/
theorem eq_of_isSymm (h : G + Gᵀ = H + Hᵀ) (hG : G.IsSymm) (hH : H.IsSymm) : G = H := by
  rw [hG.eq, hH.eq] at h
  ext i j
  have hdouble : G i j + G i j = H i j + H i j := congrFun (congrFun h i) j
  linarith

theorem strictConvexOn_objective (hG : G.PosDef) (c : Fin n → ℝ) :
    StrictConvexOn ℝ Set.univ (objective G c) := by
  refine ⟨convex_univ, fun x _ y _ hne a b ha hb hab => ?_⟩
  have hsymm := isHermitian_iff_isSymm.mp hG.isHermitian
  have hpos := hG.dotProduct_mulVec_pos (sub_ne_zero.mpr hne.symm)
  rw [star_trivial] at hpos
  have hend := objective_add hsymm c x (y - x)
  rw [add_sub_cancel] at hend
  have hpoint : a • x + b • y = x + b • (y - x) := by
    rw [eq_sub_of_add_eq hab]
    module
  rw [hpoint, objective_add hsymm, hend]
  simp only [mulVec_smul, smul_dotProduct, dotProduct_smul, smul_eq_mul]
  -- what is gained is the curvature between the two points
  have hgain := mul_pos (mul_pos ha hb) hpos
  rw [eq_sub_of_add_eq hab] at hgain ⊢
  linarith

end QuadraticProgram
