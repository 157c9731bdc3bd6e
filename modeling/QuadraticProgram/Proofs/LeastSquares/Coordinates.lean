import Mathlib.LinearAlgebra.Lagrange
import QuadraticProgram.Proofs.LeastSquares.Truncated

/-! # Truncated least squares in other coordinates

The truncated solution is a polynomial in `Mᵀ M` applied to `Mᵀ r`, whose values at the squares of
the singular values are all that matters. So it does not depend on the decomposition, and it turns
with the coordinates, whatever the cutoff.
-/

namespace QuadraticProgram
open Matrix

variable {m n : ℕ}

namespace ThinSVD

variable {d d' : ThinSVD ℝ m n} {M : Mat ℝ m n} {cutoff : ℝ}

/-- Orthonormal rows lengthen no vector. -/
theorem dotProduct_mulVec_le {k : ℕ} {V : Matrix (Fin k) (Fin n) ℝ} (hV : V * Vᵀ = 1)
    (v : Fin n → ℝ) : (V *ᵥ v) ⬝ᵥ (V *ᵥ v) ≤ v ⬝ᵥ v := by
  have hproj : (Vᵀ *ᵥ (V *ᵥ v)) ⬝ᵥ (Vᵀ *ᵥ (V *ᵥ v)) = (V *ᵥ v) ⬝ᵥ (V *ᵥ v) :=
    dotProduct_mulVec_mulVec (by rwa [transpose_transpose]) _ _
  have hcross : v ⬝ᵥ (Vᵀ *ᵥ (V *ᵥ v)) = (V *ᵥ v) ⬝ᵥ (V *ᵥ v) := by
    rw [dotProduct_mulVec, vecMul_transpose]
  have hnonneg := dotProduct_self_nonneg (v - Vᵀ *ᵥ (V *ᵥ v))
  simp only [sub_dotProduct, dotProduct_sub, hproj, hcross, dotProduct_comm _ v] at hnonneg
  linarith

/-- The first singular value bounds how far the matrix stretches. -/
theorem Exact.mulVec_le (hd : d.Exact M) (h : 0 < min m n) (v : Fin n → ℝ) :
    (M.toMatrix *ᵥ v) ⬝ᵥ (M.toMatrix *ᵥ v) ≤ d.sing ⟨0, h⟩ ^ 2 * (v ⬝ᵥ v) := by
  have hle : (d.sing.get * (d.vt.toMatrix *ᵥ v)) ⬝ᵥ (d.sing.get * (d.vt.toMatrix *ᵥ v)) ≤
      d.sing ⟨0, h⟩ ^ 2 * ((d.vt.toMatrix *ᵥ v) ⬝ᵥ (d.vt.toMatrix *ᵥ v)) := by
    rw [dotProduct, dotProduct, Finset.mul_sum]
    apply Finset.sum_le_sum
    intro i _
    have hfirst : d.sing i ^ 2 ≤ d.sing ⟨0, h⟩ ^ 2 :=
      pow_le_pow_left₀ (hd.nonneg i) (hd.antitone (Fin.le_def.mpr (Nat.zero_le _))) 2
    calc _ = d.sing i ^ 2 * ((d.vt.toMatrix *ᵥ v) i * (d.vt.toMatrix *ᵥ v) i) := by
            rw [Pi.mul_apply]
            ring
      _ ≤ _ := mul_le_mul_of_nonneg_right hfirst (mul_self_nonneg _)
  rw [hd.mulVec_eq, dotProduct_mulVec_mulVec hd.left_orthonormal]
  exact hle.trans (mul_le_mul_of_nonneg_left (dotProduct_mulVec_le hd.right_orthonormal v)
    (sq_nonneg _))

theorem Exact.first_le (hd : d.Exact M) (hd' : d'.Exact M) (h : 0 < min m n) :
    d.sing ⟨0, h⟩ ≤ d'.sing ⟨0, h⟩ :=
  (sq_le_sq₀ (hd.nonneg _) (hd'.nonneg _)).mp (hd.sing_sq_le (hd'.mulVec_le h) _)

/-- Both decompositions of a matrix have one largest singular value. -/
theorem Exact.first_eq (hd : d.Exact M) (hd' : d'.Exact M) (h : 0 < min m n) :
    d.sing ⟨0, h⟩ = d'.sing ⟨0, h⟩ :=
  le_antisymm (hd.first_le hd' h) (hd'.first_le hd h)

/-- Polynomials in `Mᵀ M` act on the right singular vectors through the squares of the singular
values. -/
theorem Exact.aeval_mulVec (hd : d.Exact M) (p : Polynomial ℝ) (w : Fin (min m n) → ℝ) :
    Polynomial.aeval (M.toMatrixᵀ * M.toMatrix) p *ᵥ (d.vt.toMatrixᵀ *ᵥ w) =
      d.vt.toMatrixᵀ *ᵥ fun i => p.eval (d.sing i ^ 2) * w i := by
  induction p using Polynomial.induction_on' with
  | add p q hp hq =>
    rw [map_add, add_mulVec, hp, hq, ← mulVec_add]
    congr 1
    ext i
    rw [Pi.add_apply, Polynomial.eval_add, add_mul]
  | monomial k a =>
    have hpow : (M.toMatrixᵀ * M.toMatrix) ^ k *ᵥ (d.vt.toMatrixᵀ *ᵥ w) =
        d.vt.toMatrixᵀ *ᵥ fun i => (d.sing i ^ 2) ^ k * w i := by
      induction k with
      | zero => simp
      | succ k ih =>
        rw [pow_succ', ← mulVec_mulVec, ih, ← mulVec_mulVec, hd.mulVec_right,
          hd.transpose_mulVec_left]
        congr 1
        ext i
        simp only [Pi.mul_apply]
        ring
    rw [Polynomial.aeval_monomial, ← Algebra.smul_def, smul_mulVec, hpow, ← mulVec_smul]
    congr 1
    ext i
    rw [Pi.smul_apply, smul_eq_mul, Polynomial.eval_monomial, mul_assoc]

/-- What the truncation makes of the square of a singular value. -/
noncomputable def truncatedSquare (threshold : ℝ) (s : ℝ) : ℝ :=
  if threshold < √s then 1 / s else 0

theorem Exact.truncatedInverse_eq (hd : d.Exact M) (cutoff : ℝ) (i : Fin (min m n)) :
    d.truncatedInverse cutoff i =
      truncatedSquare (d.sing ⟨0, i.pos⟩ * cutoff) (d.sing i ^ 2) * d.sing i := by
  rw [truncatedInverse, Vec.get_ofFn, truncatedSquare, Real.sqrt_sq (hd.nonneg i)]
  simp only [exceeds_iff]
  by_cases hi : d.sing ⟨0, i.pos⟩ * cutoff < d.sing i
  · rw [if_pos hi, if_pos hi]
    by_cases hzero : d.sing i = 0
    · simp [hzero]
    · field_simp
  · rw [if_neg hi, if_neg hi, zero_mul]

/-- The truncated solution through a polynomial that takes the values of the truncation. -/
theorem Exact.solve_eq_aeval (hd : d.Exact M) {p : Polynomial ℝ} {threshold : ℝ}
    (hfirst : ∀ h : 0 < min m n, d.sing ⟨0, h⟩ * cutoff = threshold)
    (hp : ∀ i, p.eval (d.sing i ^ 2) = truncatedSquare threshold (d.sing i ^ 2)) (r : Vec ℝ m) :
    (d.solve cutoff r).get =
      Polynomial.aeval (M.toMatrixᵀ * M.toMatrix) p *ᵥ (M.toMatrixᵀ *ᵥ r.get) := by
  rw [hd.transpose_mulVec_eq, hd.aeval_mulVec, solve, Mat.coe_transposeMulVec, Vec.coe_mul,
    Mat.coe_transposeMulVec]
  congr 1
  ext i
  rw [Pi.mul_apply, Pi.mul_apply, hd.truncatedInverse_eq, hfirst i.pos, hp, mul_assoc]

/-- The truncated solution does not depend on the decomposition. -/
theorem Exact.solve_eq (hd : d.Exact M) (hd' : d'.Exact M) (cutoff : ℝ) (r : Vec ℝ m) :
    d.solve cutoff r = d'.solve cutoff r := by
  -- one polynomial takes the values of the truncation at the squares of all singular values
  obtain ⟨threshold, ht⟩ : ∃ t, ∀ h : 0 < min m n, d.sing ⟨0, h⟩ * cutoff = t := by
    by_cases h : 0 < min m n
    · exact ⟨d.sing ⟨0, h⟩ * cutoff, fun _ => rfl⟩
    · exact ⟨0, fun h' => absurd h' h⟩
  have ht' : ∀ h : 0 < min m n, d'.sing ⟨0, h⟩ * cutoff = threshold := fun h => by
    rw [← hd.first_eq hd' h, ht h]
  let squares : Finset ℝ :=
    Finset.univ.image (fun i => d.sing i ^ 2) ∪ Finset.univ.image fun i => d'.sing i ^ 2
  have heval : ∀ s ∈ squares, (Lagrange.interpolate squares id (truncatedSquare threshold)).eval s =
      truncatedSquare threshold s := fun s hs =>
    Lagrange.eval_interpolate_at_node _ Function.injective_id.injOn hs
  apply Vec.coe_injective
  rw [hd.solve_eq_aeval ht fun i => heval _ ?_, hd'.solve_eq_aeval ht' fun i => heval _ ?_]
  · exact Finset.mem_union_right _ (Finset.mem_image_of_mem _ (Finset.mem_univ i))
  · exact Finset.mem_union_left _ (Finset.mem_image_of_mem _ (Finset.mem_univ i))

/-- The decomposition in turned coordinates. -/
noncomputable def turn (d : ThinSVD ℝ m n) (W : Matrix (Fin m) (Fin m) ℝ)
    (Z : Matrix (Fin n) (Fin n) ℝ) : ThinSVD ℝ m n where
  u := Mat.ofMatrix (W * d.u.toMatrix)
  sing := d.sing
  vt := Mat.ofMatrix (d.vt.toMatrix * Zᵀ)

variable {W : Matrix (Fin m) (Fin m) ℝ} {Z : Matrix (Fin n) (Fin n) ℝ}

@[simp] theorem turn_u : (d.turn W Z).u.toMatrix = W * d.u.toMatrix := Mat.toMatrix_ofMatrix _

@[simp] theorem turn_vt : (d.turn W Z).vt.toMatrix = d.vt.toMatrix * Zᵀ := Mat.toMatrix_ofMatrix _

theorem Exact.turn (hd : d.Exact M) {M' : Mat ℝ m n} (hW : Wᵀ * W = 1) (hZ : Zᵀ * Z = 1)
    (hM : M'.toMatrix = W * M.toMatrix * Zᵀ) : (d.turn W Z).Exact M' where
  left_orthonormal := by
    rw [turn_u, transpose_mul, Matrix.mul_assoc, ← Matrix.mul_assoc Wᵀ, hW, Matrix.one_mul,
      hd.left_orthonormal]
  right_orthonormal := by
    rw [turn_vt, transpose_mul, transpose_transpose, Matrix.mul_assoc, ← Matrix.mul_assoc Zᵀ, hZ,
      Matrix.one_mul, hd.right_orthonormal]
  product := by
    rw [turn_u, turn_vt, hM, hd.product]
    change _ = W * d.u.toMatrix * diagonal d.sing.get * (d.vt.toMatrix * Zᵀ)
    simp only [Matrix.mul_assoc]
  nonneg := hd.nonneg
  antitone := hd.antitone

theorem coe_solve_turn (d : ThinSVD ℝ m n) (hW : Wᵀ * W = 1) {r r' : Vec ℝ m}
    (hr : r'.get = W *ᵥ r.get) (cutoff : ℝ) :
    ((d.turn W Z).solve cutoff r').get = Z *ᵥ (d.solve cutoff r).get := by
  have hproj : (W * d.u.toMatrix)ᵀ *ᵥ (W *ᵥ r.get) = d.u.toMatrixᵀ *ᵥ r.get := by
    rw [transpose_mul, mulVec_mulVec, Matrix.mul_assoc, hW, Matrix.mul_one]
  rw [solve, solve, Mat.coe_transposeMulVec, Mat.coe_transposeMulVec, Vec.coe_mul, Vec.coe_mul,
    Mat.coe_transposeMulVec, Mat.coe_transposeMulVec, turn_u, turn_vt, hr, hproj, transpose_mul,
    transpose_transpose, ← mulVec_mulVec]
  rfl

end ThinSVD

/-- Truncated least squares turns with the coordinates. -/
theorem truncatedLeastSquares_turn {F : Factorizations ℝ} (hF : F.ExactSVD) {M M' : Mat ℝ m n}
    {W : Matrix (Fin m) (Fin m) ℝ} {Z : Matrix (Fin n) (Fin n) ℝ} (hW : Wᵀ * W = 1)
    (hZ : Zᵀ * Z = 1) (hM : M'.toMatrix = W * M.toMatrix * Zᵀ) {r r' : Vec ℝ m}
    (hr : r'.get = W *ᵥ r.get) :
    ∃ z z', truncatedLeastSquares F M r none = .ok z ∧
      truncatedLeastSquares F M' r' none = .ok z' ∧ z'.get = Z *ᵥ z.get := by
  by_cases hmn : m = 0 ∨ n = 0
  · refine ⟨Vec.zero, Vec.zero, if_pos hmn, if_pos hmn, ?_⟩
    rw [Vec.coe_zero, mulVec_zero]
  · refine ⟨(F.svd M).solve (defaultCutoff m n) r, (F.svd M').solve (defaultCutoff m n) r', ?_, ?_,
      ?_⟩
    · rw [truncatedLeastSquares, if_neg hmn, Mat.isFinite_eq_true]
      rfl
    · rw [truncatedLeastSquares, if_neg hmn, Mat.isFinite_eq_true]
      rfl
    · rw [(hF M').solve_eq ((hF M).turn hW hZ hM), ThinSVD.coe_solve_turn _ hW hr]

end QuadraticProgram
