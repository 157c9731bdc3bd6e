import Mathlib.Algebra.QuadraticDiscriminant
import Mathlib.LinearAlgebra.Dual.Lemmas
import QuadraticProgram.Proofs.Kkt.Objective

/-! # Residuals as certificates

If the matrix is positive semidefinite, a point and multipliers whose residuals are within a
tolerance are as good as any point that meets the constraints, up to the tolerance times the lengths
of the step between the points and of the multipliers. Without tolerance exactly the minimizers have
multipliers, whether or not the rows are independent.
-/

namespace QuadraticProgram
open Matrix

namespace Numeral

theorem ofInteger_eq (k : ℤ) : (ofInteger k : ℝ) = k := by
  have hcast : ((k.natAbs : ℤ) : ℝ) = (k.natAbs : ℝ) := Int.cast_natCast _
  unfold ofInteger
  split
  · rename_i hk
    rw [Int.ofNat_natAbs_of_nonpos hk.le, Int.cast_neg] at hcast
    exact neg_eq_iff_eq_neg.mpr hcast.symm
  · rename_i hk
    rw [Int.natAbs_of_nonneg (not_lt.mp hk)] at hcast
    exact hcast.symm

/-- Over the reals it makes no difference in which form a bound is given. -/
theorem admits_iff (t : Numeral ℝ) (a : ℝ) : t.admits a = true ↔ a ≤ t.value := by
  cases t with
  | real b => exact decide_eq_true_iff
  | whole k =>
    rw [value, ofInteger_eq]
    exact decide_eq_true_iff
  | truth b =>
    rw [value, ofInteger_eq]
    exact decide_eq_true_iff

end Numeral

variable {m n : ℕ}

theorem abs_dotProduct_le {u : Fin n → ℝ} {t : ℝ} (hu : ∀ i, |u i| ≤ t) (v : Fin n → ℝ) :
    |u ⬝ᵥ v| ≤ t * ∑ i, |v i| := by
  calc |u ⬝ᵥ v| ≤ ∑ i, |u i * v i| := Finset.abs_sum_le_sum_abs _ _
    _ ≤ ∑ i, t * |v i| := Finset.sum_le_sum fun i _ => by
        rw [abs_mul]
        exact mul_le_mul_of_nonneg_right (hu i) (abs_nonneg _)
    _ = t * ∑ i, |v i| := (Finset.mul_sum _ _ _).symm

/-- A direction that is orthogonal to all that the rows do not see is a combination of the rows. -/
theorem exists_transpose_mulVec_eq {A : Matrix (Fin m) (Fin n) ℝ} {g : Fin n → ℝ}
    (h : ∀ d, A *ᵥ d = 0 → g ⬝ᵥ d = 0) : ∃ y, g = Aᵀ *ᵥ y := by
  have hker : ⨅ i, LinearMap.ker (dotProductBilin ℝ ℝ (A i)) ≤
      LinearMap.ker (dotProductBilin ℝ ℝ g) := by
    intro d hd
    refine h d (funext fun i => ?_)
    exact (Submodule.mem_iInf _).mp hd i
  obtain ⟨y, hy⟩ := (Submodule.mem_span_range_iff_exists_fun ℝ).mp
    (mem_span_of_iInf_ker_le_ker hker)
  refine ⟨y, dotProduct_eq _ _ fun d => ?_⟩
  have hyd := LinearMap.congr_fun hy d
  rw [mulVec_transpose, ← dotProduct_mulVec]
  simpa [dotProduct, mulVec] using hyd.symm

section Convex

variable {G : Matrix (Fin n) (Fin n) ℝ} {A : Matrix (Fin m) (Fin n) ℝ}
variable {b : Fin m → ℝ} {c x z : Fin n → ℝ} {y : Fin m → ℝ} {t : ℝ}

/-- A convex objective stays above its tangents. -/
theorem tangent_le_objective (hG : G.PosSemidef) (c x z : Fin n → ℝ) :
    objective G c x + (G *ᵥ x + c) ⬝ᵥ (z - x) ≤ objective G c z := by
  have hcurvature := hG.dotProduct_mulVec_nonneg (z - x)
  rw [star_trivial] at hcurvature
  have hz := objective_add (isHermitian_iff_isSymm.mp hG.isHermitian) c x (z - x)
  rw [add_sub_cancel] at hz
  linarith

/-- No feasible point is better by more than the bound of the residuals times the lengths of the
step to it and of the multipliers. -/
theorem objective_le_of_residuals (hG : G.PosSemidef) (hprimal : ∀ i, |(A *ᵥ x - b) i| ≤ t)
    (hdual : ∀ j, |(G *ᵥ x + c - Aᵀ *ᵥ y) j| ≤ t) (hz : A *ᵥ z = b) :
    objective G c x - t * (∑ j, |z j - x j| + ∑ i, |y i|) ≤ objective G c z := by
  have hstep : (Aᵀ *ᵥ y) ⬝ᵥ (z - x) = -((A *ᵥ x - b) ⬝ᵥ y) := by
    rw [mulVec_transpose, ← dotProduct_mulVec, mulVec_sub, hz, dotProduct_comm, ← neg_dotProduct,
      neg_sub]
  have hslope : (G *ᵥ x + c) ⬝ᵥ (z - x) =
      (G *ᵥ x + c - Aᵀ *ᵥ y) ⬝ᵥ (z - x) - (A *ᵥ x - b) ⬝ᵥ y := by
    rw [sub_dotProduct (G *ᵥ x + c), hstep]
    ring
  have hs := (abs_le.mp (abs_dotProduct_le hdual (z - x))).1
  have hr := (abs_le.mp (abs_dotProduct_le hprimal y)).2
  have htangent := tangent_le_objective hG c x z
  simp only [Pi.sub_apply] at hs
  linarith

/-- Along directions that leave the constraints alone a minimizer has no slope. -/
theorem gradient_dotProduct_eq_zero (hG : G.IsSymm)
    (hmin : ∀ z, A *ᵥ z = A *ᵥ x → objective G c x ≤ objective G c z) {d : Fin n → ℝ}
    (hd : A *ᵥ d = 0) : (G *ᵥ x + c) ⬝ᵥ d = 0 := by
  have hquadratic : ∀ s : ℝ,
      0 ≤ d ⬝ᵥ G *ᵥ d / 2 * (s * s) + (G *ᵥ x + c) ⬝ᵥ d * s + 0 := by
    intro s
    have hle := hmin (x + s • d) (by rw [mulVec_add, mulVec_smul, hd, smul_zero, add_zero])
    rw [objective_add hG, mulVec_smul] at hle
    simp only [dotProduct_smul, smul_dotProduct, smul_eq_mul] at hle
    linarith
  have hdiscrim := discrim_le_zero hquadratic
  rw [discrim, mul_zero, sub_zero] at hdiscrim
  exact pow_eq_zero_iff two_ne_zero |>.mp (le_antisymm hdiscrim (sq_nonneg _))

end Convex

section Residuals

variable (G : Mat ℝ n n) (c : Vec ℝ n) (A : Mat ℝ m n) (b : Vec ℝ m) (x : Vec ℝ n) (y : Vec ℝ m)

theorem constraintResidual_le_iff {t : ℝ} (ht : 0 ≤ t) :
    constraintResidual A b x ≤ t ↔ ∀ i, |(A.toMatrix *ᵥ x.get - b.get) i| ≤ t := by
  rw [constraintResidual, Vec.maxAbs_le_iff _ ht, Vec.coe_sub, Mat.coe_mulVec]

/-- Without rows the multipliers contribute nothing, so that skipping them makes no difference. -/
theorem stationarityResidual_le_iff {t : ℝ} (ht : 0 ≤ t) :
    stationarityResidual G c A x y ≤ t ↔
      ∀ j, |(G.toMatrix *ᵥ x.get + c.get - A.toMatrixᵀ *ᵥ y.get) j| ≤ t := by
  unfold stationarityResidual
  dsimp only
  split
  · rename_i hm
    subst hm
    rw [Vec.maxAbs_le_iff _ ht, Vec.coe_add, Mat.coe_mulVec, Subsingleton.elim y.get 0, mulVec_zero,
      sub_zero]
  · rw [Vec.maxAbs_le_iff _ ht, Vec.coe_sub, Vec.coe_add, Mat.coe_mulVec, Mat.coe_transposeMulVec]

theorem within_iff (tol : Numeral ℝ) :
    (kktResiduals G c A b x (some y)).within tol = true ↔ 0 ≤ tol.value ∧
      (∀ i, |(A.toMatrix *ᵥ x.get - b.get) i| ≤ tol.value) ∧
      ∀ j, |(G.toMatrix *ᵥ x.get + c.get - A.toMatrixᵀ *ᵥ y.get) j| ≤ tol.value := by
  have hnonneg : 0 ≤ constraintResidual A b x := Scalar.maxAbs_nonneg _
  rw [kktResiduals, Residuals.within, Option.map_some, Option.all_some, Bool.and_eq_true,
    Numeral.admits_iff, Numeral.admits_iff]
  constructor
  · rintro ⟨hprimal, hdual⟩
    have ht := hnonneg.trans hprimal
    exact ⟨ht, (constraintResidual_le_iff A b x ht).mp hprimal,
      (stationarityResidual_le_iff G c A x y ht).mp hdual⟩
  · rintro ⟨ht, hprimal, hdual⟩
    exact ⟨(constraintResidual_le_iff A b x ht).mpr hprimal,
      (stationarityResidual_le_iff G c A x y ht).mpr hdual⟩

/-- Without tolerance the constraints hold and the gradient is a combination of the rows. -/
theorem within_zero_iff {tol : Numeral ℝ} (ht : tol.value = 0) :
    (kktResiduals G c A b x (some y)).within tol = true ↔
      A.toMatrix *ᵥ x.get = b.get ∧
        G.toMatrix *ᵥ x.get + c.get = A.toMatrixᵀ *ᵥ y.get := by
  rw [within_iff, ht, ← sub_eq_zero (a := A.toMatrix *ᵥ x.get),
    ← sub_eq_zero (a := G.toMatrix *ᵥ x.get + c.get), funext_iff, funext_iff]
  simp only [le_refl, true_and, abs_nonpos_iff, Pi.zero_apply]

end Residuals

/-- For a positive semidefinite matrix a certificate is sound and complete. If the residuals of a
point and of multipliers are within a tolerance, no point that meets the constraints costs less by
more than the tolerance times the lengths of the step to it and of the multipliers. A point that
meets the constraints minimizes over them if and only if some multipliers leave no residual. -/
theorem kkt_certificate {G : Mat ℝ n n} (hG : G.toMatrix.PosSemidef) (c : Vec ℝ n) (A : Mat ℝ m n)
    (b : Vec ℝ m) (x : Vec ℝ n) :
    (∀ (y : Vec ℝ m) (tol : Numeral ℝ), (kktResiduals G c A b x (some y)).within tol = true →
      ∀ z, A.mulVec z = b →
        quadraticCost G c x - tol.value * (∑ j, |z j - x j| + ∑ i, |y i|) ≤
          quadraticCost G c z) ∧
    ∀ tol : Numeral ℝ, tol.value = 0 →
      ((A.mulVec x = b ∧ ∀ z, A.mulVec z = b → quadraticCost G c x ≤ quadraticCost G c z) ↔
        ∃ y, (kktResiduals G c A b x (some y)).within tol = true) := by
  simp only [quadraticCost_eq, Mat.mulVec_eq_iff]
  constructor
  · intro y tol hwithin z hz
    obtain ⟨-, hprimal, hdual⟩ := (within_iff G c A b x y tol).mp hwithin
    exact objective_le_of_residuals hG hprimal hdual hz
  · intro tol ht
    simp only [within_zero_iff G c A b x _ ht]
    constructor
    · rintro ⟨hx, hmin⟩
      have hmin' : ∀ z : Fin n → ℝ, A.toMatrix *ᵥ z = A.toMatrix *ᵥ x.get →
          objective G.toMatrix c.get x.get ≤ objective G.toMatrix c.get z := fun z hz => by
        simpa using hmin (Vec.ofFn z) (by rw [Vec.coe_ofFn, hz, hx])
      obtain ⟨y, hy⟩ := exists_transpose_mulVec_eq fun d hd =>
        gradient_dotProduct_eq_zero (isHermitian_iff_isSymm.mp hG.isHermitian) hmin' hd
      exact ⟨Vec.ofFn y, hx, by rw [hy, Vec.coe_ofFn]⟩
    · rintro ⟨y, hx, hy⟩
      exact ⟨hx, fun z hz => objective_le_of_stationary hG hy (hz.trans hx.symm)⟩

/-- A matrix of rank one, a row that occurs twice and a point that is off the minimum by no more
than the tolerance allows. -/
theorem kkt_certificate_repeated_row :
    let G : Mat ℝ 2 2 := Mat.ofFn ![![1, 0], ![0, 0]]
    let A : Mat ℝ 2 2 := Mat.ofFn ![![0, 1], ![0, 1]]
    let c : Vec ℝ 2 := Vec.ofFn ![0, 2]
    let b : Vec ℝ 2 := Vec.ofFn ![1, 1]
    let x : Vec ℝ 2 := Vec.ofFn ![1 / 2, 1]
    let x₀ : Vec ℝ 2 := Vec.ofFn ![0, 1]
    let y : Vec ℝ 2 := Vec.ofFn ![3, -1]
    G.toMatrix.PosSemidef ∧
      (kktResiduals G c A b x (some y)).within (.real (1 / 2)) = true ∧
      (∀ z, A.mulVec z = b →
        quadraticCost G c x - 1 / 2 * (∑ j, |z j - x j| + ∑ i, |y i|) ≤ quadraticCost G c z) ∧
      (kktResiduals G c A b x₀ (some y)).within (.whole 0) = true ∧
      ∀ z, A.mulVec z = b → quadraticCost G c x₀ ≤ quadraticCost G c z := by
  intro G A c b x x₀ y
  have hdiagonal : G.toMatrix = diagonal ![1, 0] := by
    ext i j
    fin_cases i <;> fin_cases j <;> simp [G]
  have hG : G.toMatrix.PosSemidef := by
    rw [hdiagonal]
    refine PosSemidef.diagonal fun i => ?_
    fin_cases i <;> simp
  have hwithin : (kktResiduals G c A b x (some y)).within (.real (1 / 2)) = true := by
    rw [within_iff, hdiagonal, diagonal_mulVec_eq]
    refine ⟨by norm_num [Numeral.value], fun i => ?_, fun j => ?_⟩
    · fin_cases i <;> norm_num [A, x, b, Numeral.value, mulVec, dotProduct, Fin.sum_univ_two]
    · fin_cases j <;>
        norm_num [c, A, x, y, vecHead, vecTail, Numeral.value, mulVec, dotProduct,
          Fin.sum_univ_two, abs_le]
  have hzero : (Numeral.whole 0 : Numeral ℝ).value = 0 :=
    (Numeral.ofInteger_eq 0).trans Int.cast_zero
  have hexact : (kktResiduals G c A b x₀ (some y)).within (.whole 0) = true := by
    rw [within_zero_iff G c A b x₀ y hzero, hdiagonal, diagonal_mulVec_eq]
    refine ⟨funext fun i => ?_, funext fun j => ?_⟩
    · fin_cases i <;> norm_num [A, x₀, b, mulVec, dotProduct, Fin.sum_univ_two]
    · fin_cases j <;> norm_num [c, A, x₀, y, mulVec, dotProduct, Fin.sum_univ_two]
  exact ⟨hG, hwithin, (kkt_certificate hG c A b x).1 y _ hwithin, hexact,
    (((kkt_certificate hG c A b x₀).2 _ hzero).mpr ⟨y, hexact⟩).2⟩

end QuadraticProgram
