import Mathlib.Algebra.QuadraticDiscriminant
import QuadraticProgram.Proofs.Exact.Matrix

/-! # Bounds of quadratic forms

The form of a positive semidefinite matrix may lie between two positive multiples of the squared
length. Then the matrix stretches by factors between them, and the form of the inverse lies between
the inverse multiples.
-/

namespace QuadraticProgram
open Matrix

variable {n k : ℕ} {B : Matrix (Fin n) (Fin n) ℝ} {lo hi : ℝ}

/-- The form of a matrix lies between two positive multiples of the squared length. -/
structure FormBounds (B : Matrix (Fin n) (Fin n) ℝ) (lo hi : ℝ) : Prop where
  pos : 0 < lo
  le : lo ≤ hi
  lower : ∀ v, lo * (v ⬝ᵥ v) ≤ v ⬝ᵥ B *ᵥ v
  upper : ∀ v, v ⬝ᵥ B *ᵥ v ≤ hi * (v ⬝ᵥ v)

/-- The inequality of Cauchy and Schwarz for the form of a matrix. -/
theorem sq_dotProduct_mulVec_le (hB : B.PosSemidef) (v w : Fin n → ℝ) :
    (v ⬝ᵥ B *ᵥ w) ^ 2 ≤ (v ⬝ᵥ B *ᵥ v) * (w ⬝ᵥ B *ᵥ w) := by
  have hsymm : w ⬝ᵥ B *ᵥ v = v ⬝ᵥ B *ᵥ w := by
    rw [dotProduct_mulVec, ← mulVec_transpose, (isHermitian_iff_isSymm.mp hB.isHermitian).eq,
      dotProduct_comm]
  have hquadratic : ∀ t : ℝ, 0 ≤ (v ⬝ᵥ B *ᵥ v) * (t * t) + 2 * (v ⬝ᵥ B *ᵥ w) * t + w ⬝ᵥ B *ᵥ w := by
    intro t
    have h := hB.dotProduct_mulVec_nonneg (t • v + w)
    simp only [star_trivial, mulVec_add, mulVec_smul, add_dotProduct, dotProduct_add,
      smul_dotProduct, dotProduct_smul, smul_eq_mul, hsymm] at h
    linarith
  have hdiscrim := discrim_le_zero hquadratic
  rw [discrim] at hdiscrim
  linarith

namespace FormBounds

theorem hi_pos (h : FormBounds B lo hi) : 0 < hi := h.pos.trans_le h.le

theorem diagonal {d : Fin n → ℝ} (hlo : 0 < lo) (hle : lo ≤ hi) (hd : ∀ i, lo ≤ d i ∧ d i ≤ hi) :
    FormBounds (diagonal d) lo hi := by
  refine ⟨hlo, hle, fun v => ?_, fun v => ?_⟩
  · rw [diagonal_mulVec_eq]
    exact le_dotProduct_mul (fun i => (hd i).1) v
  · rw [diagonal_mulVec_eq]
    exact dotProduct_mul_le (fun i => (hd i).2) v

theorem one : FormBounds (1 : Matrix (Fin n) (Fin n) ℝ) 1 1 :=
  ⟨one_pos, le_rfl, fun v => by rw [one_mulVec, one_mul], fun v => by rw [one_mulVec, one_mul]⟩

theorem mulVec_le_form (h : FormBounds B lo hi) (hB : B.PosSemidef) (v : Fin n → ℝ) :
    (B *ᵥ v) ⬝ᵥ (B *ᵥ v) ≤ hi * (v ⬝ᵥ B *ᵥ v) := by
  by_cases hv : B *ᵥ v = 0
  · rw [hv, zero_dotProduct, dotProduct_zero, mul_zero]
  · refine le_of_mul_le_mul_left ?_ (dotProduct_self_pos hv)
    have hform := hB.dotProduct_mulVec_nonneg v
    rw [star_trivial] at hform
    calc _ = ((B *ᵥ v) ⬝ᵥ B *ᵥ v) ^ 2 := (sq _).symm
      _ ≤ ((B *ᵥ v) ⬝ᵥ B *ᵥ (B *ᵥ v)) * (v ⬝ᵥ B *ᵥ v) := sq_dotProduct_mulVec_le hB _ _
      _ ≤ hi * ((B *ᵥ v) ⬝ᵥ (B *ᵥ v)) * (v ⬝ᵥ B *ᵥ v) :=
          mul_le_mul_of_nonneg_right (h.upper _) hform
      _ = _ := by ring

/-- The matrix stretches no vector by more than the larger multiple. -/
theorem mulVec_le (h : FormBounds B lo hi) (hB : B.PosSemidef) (v : Fin n → ℝ) :
    (B *ᵥ v) ⬝ᵥ (B *ᵥ v) ≤ hi ^ 2 * (v ⬝ᵥ v) :=
  calc _ ≤ hi * (v ⬝ᵥ B *ᵥ v) := h.mulVec_le_form hB v
    _ ≤ hi * (hi * (v ⬝ᵥ v)) := mul_le_mul_of_nonneg_left (h.upper v) h.hi_pos.le
    _ = _ := by ring

theorem form_le_mulVec (h : FormBounds B lo hi) (v : Fin n → ℝ) :
    lo * (v ⬝ᵥ B *ᵥ v) ≤ (B *ᵥ v) ⬝ᵥ (B *ᵥ v) := by
  have hform : 0 ≤ v ⬝ᵥ B *ᵥ v :=
    (mul_nonneg h.pos.le (dotProduct_self_nonneg v)).trans (h.lower v)
  rcases hform.eq_or_lt with hzero | hpos
  · rw [← hzero, mul_zero]
    exact dotProduct_self_nonneg _
  · refine le_of_mul_le_mul_left ?_ hpos
    calc _ = lo * (v ⬝ᵥ B *ᵥ v) ^ 2 := by ring
      _ ≤ lo * ((v ⬝ᵥ v) * ((B *ᵥ v) ⬝ᵥ (B *ᵥ v))) :=
          mul_le_mul_of_nonneg_left (sq_dotProduct_le _ _) h.pos.le
      _ = lo * (v ⬝ᵥ v) * ((B *ᵥ v) ⬝ᵥ (B *ᵥ v)) := (mul_assoc _ _ _).symm
      _ ≤ _ := mul_le_mul_of_nonneg_right (h.lower v) (dotProduct_self_nonneg _)

/-- The matrix stretches every vector by at least the smaller multiple. -/
theorem le_mulVec (h : FormBounds B lo hi) (v : Fin n → ℝ) :
    lo ^ 2 * (v ⬝ᵥ v) ≤ (B *ᵥ v) ⬝ᵥ (B *ᵥ v) :=
  calc _ = lo * (lo * (v ⬝ᵥ v)) := by ring
    _ ≤ lo * (v ⬝ᵥ B *ᵥ v) := mul_le_mul_of_nonneg_left (h.lower v) h.pos.le
    _ ≤ _ := h.form_le_mulVec v

/-- The form of the inverse. -/
theorem inv (h : FormBounds B lo hi) (hB : B.PosDef) : FormBounds B⁻¹ hi⁻¹ lo⁻¹ := by
  have hcancel : ∀ u, B *ᵥ (B⁻¹ *ᵥ u) = u := fun u => by
    rw [mulVec_mulVec, mul_nonsing_inv B ((isUnit_iff_isUnit_det B).mp hB.isUnit), one_mulVec]
  refine ⟨inv_pos.mpr h.hi_pos, inv_anti₀ h.pos h.le, fun u => ?_, fun u => ?_⟩
  · have hle := h.mulVec_le_form hB.posSemidef (B⁻¹ *ᵥ u)
    rwa [hcancel, dotProduct_comm (B⁻¹ *ᵥ u) u, ← inv_mul_le_iff₀ h.hi_pos] at hle
  · have hle := h.form_le_mulVec (B⁻¹ *ᵥ u)
    rwa [hcancel, dotProduct_comm (B⁻¹ *ᵥ u) u, ← le_inv_mul_iff₀ h.pos] at hle

/-- The form of the matrix between rows. -/
theorem conj {R : Matrix (Fin k) (Fin n) ℝ} {lo' hi' : ℝ} (h : FormBounds B lo hi)
    (hR : FormBounds (R * Rᵀ) lo' hi') : FormBounds (R * B * Rᵀ) (lo * lo') (hi * hi') := by
  have hlength : ∀ w, (Rᵀ *ᵥ w) ⬝ᵥ (Rᵀ *ᵥ w) = w ⬝ᵥ (R * Rᵀ) *ᵥ w := fun w => by
    rw [← mulVec_mulVec, dotProduct_mulVec w, ← mulVec_transpose]
  have hform : ∀ w, w ⬝ᵥ (R * B * Rᵀ) *ᵥ w = (Rᵀ *ᵥ w) ⬝ᵥ B *ᵥ (Rᵀ *ᵥ w) := fun w => by
    rw [← mulVec_mulVec, ← mulVec_mulVec, dotProduct_mulVec w, ← mulVec_transpose]
  refine ⟨mul_pos h.pos hR.pos, mul_le_mul h.le hR.le hR.pos.le h.hi_pos.le, fun w => ?_,
    fun w => ?_⟩
  · rw [hform, mul_assoc]
    refine (mul_le_mul_of_nonneg_left (hR.lower w) h.pos.le).trans ?_
    rw [← hlength]
    exact h.lower _
  · rw [hform, mul_assoc]
    refine (h.upper _).trans ?_
    rw [hlength]
    exact mul_le_mul_of_nonneg_left (hR.upper w) h.hi_pos.le

end FormBounds

end QuadraticProgram
