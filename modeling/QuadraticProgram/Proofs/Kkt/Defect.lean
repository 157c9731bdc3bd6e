import QuadraticProgram.Proofs.Kkt.System

/-! # What least squares leaves of the optimality conditions

If the optimality conditions have no solution, least squares spreads a residual over stationarity
and constraints. The residual spares the constraints exactly if some feasible point is stationary up
to a direction that neither the matrix nor the rows see. A positive semidefinite matrix always
leaves the residual in such a direction.
-/

namespace QuadraticProgram
open Matrix

variable {m n k l : ℕ}

/-- What the gradient differs by from a combination of the rows. -/
def gradientDefect (G : Matrix (Fin n) (Fin n) ℝ) (c : Fin n → ℝ) (R : Matrix (Fin k) (Fin n) ℝ)
    (x : Fin n → ℝ) (y : Fin k → ℝ) : Fin n → ℝ :=
  G *ᵥ x + c - Rᵀ *ᵥ y

/-- The gradient is a combination of the rows up to a direction that neither the matrix nor the rows
see. -/
structure FlatStationary (G : Matrix (Fin n) (Fin n) ℝ) (c : Fin n → ℝ)
    (R : Matrix (Fin k) (Fin n) ℝ) (x : Fin n → ℝ) (y : Fin k → ℝ) : Prop where
  hessian : G *ᵥ gradientDefect G c R x y = 0
  rows : R *ᵥ gradientDefect G c R x y = 0

section Matrices

variable {G : Matrix (Fin n) (Fin n) ℝ} {R : Matrix (Fin k) (Fin n) ℝ}
variable {R' : Matrix (Fin l) (Fin n) ℝ} {c x x' : Fin n → ℝ} {y : Fin k → ℝ} {y' : Fin l → ℝ}

theorem gradientDefect_of_stationary (h : G *ᵥ x + c = Rᵀ *ᵥ y) : gradientDefect G c R x y = 0 :=
  sub_eq_zero.mpr h

theorem FlatStationary.of_stationary (h : G *ᵥ x + c = Rᵀ *ᵥ y) : FlatStationary G c R x y where
  hessian := by rw [gradientDefect_of_stationary h, mulVec_zero]
  rows := by rw [gradientDefect_of_stationary h, mulVec_zero]

/-- A direction that neither the matrix nor the rows see is orthogonal to all that they produce. -/
theorem dotProduct_eq_zero_of_unseen (hG : G.IsSymm) {v : Fin n → ℝ} (hv : G *ᵥ v = 0)
    (hR : R *ᵥ v = 0) (x : Fin n → ℝ) (y : Fin k → ℝ) : v ⬝ᵥ (G *ᵥ x - Rᵀ *ᵥ y) = 0 := by
  have hGx : v ⬝ᵥ G *ᵥ x = 0 := by
    rw [dotProduct_mulVec, ← mulVec_transpose, hG.eq, hv, zero_dotProduct]
  have hRy : v ⬝ᵥ Rᵀ *ᵥ y = 0 := by
    rw [dotProduct_mulVec, ← mulVec_transpose, transpose_transpose, hR, zero_dotProduct]
  rw [dotProduct_sub, hGx, hRy, sub_zero]

/-- The defect is the part of the gradient at zero that neither the matrix nor the rows see, so it
depends on the rows only through the directions that they do not see. -/
theorem FlatStationary.defect_eq (hG : G.IsSymm) (h : FlatStationary G c R x y)
    (h' : FlatStationary G c R' x' y') (hrows : ∀ v, R *ᵥ v = 0 ↔ R' *ᵥ v = 0) :
    gradientDefect G c R x y = gradientDefect G c R' x' y' := by
  have hGv : G *ᵥ (gradientDefect G c R x y - gradientDefect G c R' x' y') = 0 := by
    rw [mulVec_sub, h.hessian, h'.hessian, sub_zero]
  have hRv : R *ᵥ (gradientDefect G c R x y - gradientDefect G c R' x' y') = 0 := by
    rw [mulVec_sub, h.rows, (hrows _).mpr h'.rows, sub_zero]
  have hsplit : gradientDefect G c R x y - gradientDefect G c R' x' y' =
      (G *ᵥ x - Rᵀ *ᵥ y) - (G *ᵥ x' - R'ᵀ *ᵥ y') := by
    simp only [gradientDefect]
    abel
  have hzero := dotProduct_sub (gradientDefect G c R x y - gradientDefect G c R' x' y')
    (G *ᵥ x - Rᵀ *ᵥ y) (G *ᵥ x' - R'ᵀ *ᵥ y')
  rw [dotProduct_eq_zero_of_unseen hG hGv hRv,
    dotProduct_eq_zero_of_unseen hG hGv ((hrows _).mp hRv), sub_zero, ← hsplit,
    dotProduct_self_eq_zero] at hzero
  exact sub_eq_zero.mp hzero

/-- Points that are stationary up to such directions, on rows that see the same directions, have the
same gradient if they agree on the rows. -/
theorem FlatStationary.mulVec_eq (hG : G.PosSemidef) (h : FlatStationary G c R x y)
    (h' : FlatStationary G c R' x' y') (hrows : ∀ v, R *ᵥ v = 0 ↔ R' *ᵥ v = 0)
    (hxx : R *ᵥ (x' - x) = 0) : G *ᵥ x' = G *ᵥ x := by
  have hdefect := h.defect_eq (isHermitian_iff_isSymm.mp hG.isHermitian) h' hrows
  have hdiff : G *ᵥ (x' - x) = R'ᵀ *ᵥ y' - Rᵀ *ᵥ y := by
    simp only [gradientDefect] at hdefect
    rw [mulVec_sub]
    linear_combination -hdefect
  have hcurve : star (x' - x) ⬝ᵥ G *ᵥ (x' - x) = 0 := by
    rw [star_trivial, hdiff, dotProduct_sub, dotProduct_mulVec, dotProduct_mulVec, vecMul_transpose,
      vecMul_transpose, hxx, (hrows _).mp hxx, zero_dotProduct, zero_dotProduct, sub_zero]
  rw [hG.dotProduct_mulVec_zero_iff, mulVec_sub] at hcurve
  exact sub_eq_zero.mp hcurve

end Matrices

section LeastSquares

variable {G : Mat ℝ n n} {R : Mat ℝ k n} {c : Vec ℝ n} {t : Vec ℝ k}
variable {x x₀ : Fin n → ℝ} {y y₀ : Fin k → ℝ}

theorem kktMatrix_mulVec_sub_target (G : Mat ℝ n n) (R : Mat ℝ k n) (c : Vec ℝ n) (t : Vec ℝ k)
    (x : Fin n → ℝ) (y : Fin k → ℝ) :
    (kktMatrix G R).toMatrix *ᵥ Fin.append x y - (kktTarget c t).get =
      Fin.append (gradientDefect G.toMatrix c.get R.toMatrix x y) (R.toMatrix *ᵥ x - t.get) := by
  rw [kktMatrix_mulVec, coe_kktTarget]
  refine append_ext (fun i => ?_) fun j => ?_
  · simp only [Pi.sub_apply, Fin.append_left, gradientDefect, Pi.add_apply, Pi.neg_apply]
    ring
  · simp only [Pi.sub_apply, Fin.append_right]

/-- The conditions of least squares, for the defect and what the rows miss. -/
theorem kktMatrix_normal_iff (hG : G.toMatrix.IsSymm) :
    (kktMatrix G R).toMatrixᵀ *ᵥ ((kktMatrix G R).toMatrix *ᵥ Fin.append x y) =
        (kktMatrix G R).toMatrixᵀ *ᵥ (kktTarget c t).get ↔
      G.toMatrix *ᵥ gradientDefect G.toMatrix c.get R.toMatrix x y =
          R.toMatrixᵀ *ᵥ (t.get - R.toMatrix *ᵥ x) ∧
        R.toMatrix *ᵥ gradientDefect G.toMatrix c.get R.toMatrix x y = 0 := by
  have hzero : (0 : Fin (n + k) → ℝ) = Fin.append 0 0 := by
    refine append_ext (fun i => ?_) fun j => ?_
    · rw [Fin.append_left, Pi.zero_apply, Pi.zero_apply]
    · rw [Fin.append_right, Pi.zero_apply, Pi.zero_apply]
  rw [← sub_eq_zero, ← mulVec_sub, kktMatrix_mulVec_sub_target, kktMatrix_transpose_mulVec G R hG,
    hzero, append_eq_append_iff, neg_eq_zero, ← neg_sub t.get, mulVec_neg, ← sub_eq_add_neg,
    sub_eq_zero]

/-- A feasible point meets the conditions of least squares if it is stationary up to directions that
neither the matrix nor the rows see. -/
theorem FlatStationary.normal (hG : G.toMatrix.IsSymm)
    (h : FlatStationary G.toMatrix c.get R.toMatrix x y) (ht : R.toMatrix *ᵥ x = t.get) :
    (kktMatrix G R).toMatrixᵀ *ᵥ ((kktMatrix G R).toMatrix *ᵥ Fin.append x y) =
      (kktMatrix G R).toMatrixᵀ *ᵥ (kktTarget c t).get := by
  rw [kktMatrix_normal_iff hG]
  refine ⟨?_, h.rows⟩
  rw [h.hessian, ht, sub_self, mulVec_zero]

/-- What a least-squares solution that meets the rows satisfies. -/
theorem LeastNorm.flatStationary (hG : G.toMatrix.IsSymm)
    (h : LeastNorm (kktMatrix G R).toMatrix (kktTarget c t).get (Fin.append x y))
    (ht : R.toMatrix *ᵥ x = t.get) : FlatStationary G.toMatrix c.get R.toMatrix x y := by
  obtain ⟨hgrad, hrows⟩ := (kktMatrix_normal_iff hG).mp h.normal
  refine ⟨?_, hrows⟩
  rw [hgrad, ht, sub_self, mulVec_zero]

/-- A least-squares solution meets the rows exactly if some point meets them and is stationary up to
directions that neither the matrix nor the rows see. -/
theorem LeastNorm.rows_hold_iff (hG : G.toMatrix.IsSymm)
    (h : LeastNorm (kktMatrix G R).toMatrix (kktTarget c t).get (Fin.append x y)) :
    R.toMatrix *ᵥ x = t.get ↔ ∃ x₀ y₀, R.toMatrix *ᵥ x₀ = t.get ∧
      FlatStationary G.toMatrix c.get R.toMatrix x₀ y₀ := by
  constructor
  · exact fun ht => ⟨x, y, ht, h.flatStationary hG ht⟩
  · rintro ⟨x₀, y₀, ht, hflat⟩
    have himage := LeastNorm.mulVec_eq_of_normal (h.normal.trans (hflat.normal hG ht).symm)
    rw [kktMatrix_mulVec, kktMatrix_mulVec, append_eq_append_iff] at himage
    rw [himage.2, ht]

/-- On independent rows a positive semidefinite matrix leaves no residual. -/
theorem LeastNorm.rows_hold_of_posSemidef (hG : G.toMatrix.PosSemidef)
    (hR : ∀ w, R.toMatrixᵀ *ᵥ w = 0 → w = 0)
    (h : LeastNorm (kktMatrix G R).toMatrix (kktTarget c t).get (Fin.append x y)) :
    R.toMatrix *ᵥ x = t.get := by
  obtain ⟨hgrad, hrows⟩ :=
    (kktMatrix_normal_iff (isHermitian_iff_isSymm.mp hG.isHermitian)).mp h.normal
  -- along the defect there is no curvature, since the rows do not see it
  have hcurve : star (gradientDefect G.toMatrix c.get R.toMatrix x y) ⬝ᵥ
      G.toMatrix *ᵥ gradientDefect G.toMatrix c.get R.toMatrix x y = 0 := by
    rw [star_trivial, hgrad, dotProduct_mulVec, vecMul_transpose, hrows, zero_dotProduct]
  rw [(hG.dotProduct_mulVec_zero_iff _).mp hcurve] at hgrad
  exact (sub_eq_zero.mp (hR _ hgrad.symm)).symm

/-- Least-squares solutions on rows that see the same directions have the same point, if both meet
their rows and they agree on them. -/
theorem LeastNorm.point_eq {R' : Mat ℝ l n} {t' : Vec ℝ l} {x' : Fin n → ℝ} {y' : Fin l → ℝ}
    (hG : G.toMatrix.PosSemidef)
    (h : LeastNorm (kktMatrix G R).toMatrix (kktTarget c t).get (Fin.append x y))
    (h' : LeastNorm (kktMatrix G R').toMatrix (kktTarget c t').get (Fin.append x' y'))
    (ht : R.toMatrix *ᵥ x = t.get) (ht' : R'.toMatrix *ᵥ x' = t'.get)
    (hdir : ∀ v, R.toMatrix *ᵥ v = 0 ↔ R'.toMatrix *ᵥ v = 0)
    (hxx : R.toMatrix *ᵥ (x' - x) = 0) : x' = x := by
  have hsymm := isHermitian_iff_isSymm.mp hG.isHermitian
  have hgrad := (h.flatStationary hsymm ht).mulVec_eq hG (h'.flatStationary hsymm ht') hdir hxx
  have hR := hxx
  have hR' := (hdir _).mp hxx
  rw [mulVec_sub, sub_eq_zero] at hR hR'
  exact eq_of_leastNorm h h' hgrad hR hgrad hR'

end LeastSquares

/-- If the rows kept span all rows, the reduced constraints have the same points that are stationary
up to directions that are not seen. -/
theorem Reduced.Of.exists_flatStationary_iff {A : Mat ℝ m n} {b : Vec ℝ m} {red : Reduced ℝ m n}
    (hof : red.Of A b) (hs : red.Spans A) (G : Matrix (Fin n) (Fin n) ℝ) (c x : Fin n → ℝ) :
    (∃ w, FlatStationary G c red.matrix.toMatrix x w) ↔ ∃ y, FlatStationary G c A.toMatrix x y := by
  constructor
  · rintro ⟨w, hw⟩
    have hdefect : gradientDefect G c A.toMatrix x (red.spread (Vec.ofFn w)).get =
        gradientDefect G c red.matrix.toMatrix x w := by
      rw [gradientDefect, hof.transpose_mulVec_spread, Vec.coe_ofFn, gradientDefect]
    refine ⟨(red.spread (Vec.ofFn w)).get, ?_, ?_⟩
    · rw [hdefect, hw.hessian]
    · rw [hdefect, ← hof.mulVec_eq_zero_iff_of_spans hs, hw.rows]
  · rintro ⟨y, hy⟩
    obtain ⟨w, hw⟩ := hof.exists_transpose_mulVec_eq hs y
    have hdefect : gradientDefect G c red.matrix.toMatrix x w =
        gradientDefect G c A.toMatrix x y := by
      rw [gradientDefect, gradientDefect, hw]
    refine ⟨w, ?_, ?_⟩
    · rw [hdefect, hy.hessian]
    · rw [hdefect, hof.mulVec_eq_zero_iff_of_spans hs, hy.rows]

end QuadraticProgram
