import QuadraticProgram.Kkt.System
import QuadraticProgram.Proofs.Constraints.Parallel
import QuadraticProgram.Proofs.Factorization.Standard
import QuadraticProgram.Proofs.Kkt.Objective
import QuadraticProgram.Proofs.LeastSquares.Truncated

/-! # The full-system solution

A point and multipliers stacked solve the system exactly if they satisfy the optimality conditions
of the reduced constraints. A point that solves the system remains a solution if it is replaced by
any other minimizer next to the same multipliers, so the least norm of the stacked vector is the
least norm of the point.
-/

namespace QuadraticProgram
open Matrix

variable {m n k : ℕ}

/-- The rank decision on the reduced optimality system discards no nonzero singular value. -/
def SystemDecided (F : Factorizations ℝ) (G : Mat ℝ n n) (A : Mat ℝ m n) (b : Vec ℝ m) : Prop :=
  ∀ red, reduceConstraints F A b = .ok red →
    (F.svd (kktMatrix G red.matrix)).KeepsNonzero
      (defaultCutoff (n + red.numRows) (n + red.numRows))

/-- The rank decision on the reduced optimality system would discard no nonzero singular value with
`s` times the cutoff either. -/
def SystemMargin (F : Factorizations ℝ) (G : Mat ℝ n n) (A : Mat ℝ m n) (b : Vec ℝ m) (s : ℝ) :
    Prop :=
  ∀ red, reduceConstraints F A b = .ok red →
    (F.svd (kktMatrix G red.matrix)).KeepsNonzero
      (s * defaultCutoff (n + red.numRows) (n + red.numRows))

section Blocks

variable (G : Mat ℝ n n) (R : Mat ℝ k n)

theorem kktMatrix_mulVec (x : Fin n → ℝ) (y : Fin k → ℝ) :
    (kktMatrix G R).toMatrix *ᵥ Fin.append x y =
      Fin.append (G.toMatrix *ᵥ x - R.toMatrixᵀ *ᵥ y) (R.toMatrix *ᵥ x) := by
  funext i
  refine Fin.addCases (fun i => ?_) (fun i => ?_) i
  · rw [Fin.append_left, mulVec, dotProduct, Fin.sum_univ_add, Pi.sub_apply, sub_eq_add_neg]
    simp only [Fin.append_left, Fin.append_right, kktMatrix, Mat.toMatrix_ofFn, of_apply,
      Fin.addCases_left, Fin.addCases_right, mulVec, dotProduct, ← Finset.sum_neg_distrib]
    congr 1
    exact Finset.sum_congr rfl fun j _ => neg_mul _ _
  · rw [Fin.append_right, mulVec, dotProduct, Fin.sum_univ_add]
    simp only [Fin.append_left, Fin.append_right, kktMatrix, Mat.toMatrix_ofFn, of_apply,
      Fin.addCases_left, Fin.addCases_right]
    exact add_eq_left.mpr (Finset.sum_eq_zero fun j _ => zero_mul (y j))

theorem kktMatrix_transpose_mulVec (hG : G.toMatrix.IsSymm) (u : Fin n → ℝ) (v : Fin k → ℝ) :
    (kktMatrix G R).toMatrixᵀ *ᵥ Fin.append u v =
      Fin.append (G.toMatrix *ᵥ u + R.toMatrixᵀ *ᵥ v) (-(R.toMatrix *ᵥ u)) := by
  funext i
  refine Fin.addCases (fun i => ?_) (fun i => ?_) i
  · rw [Fin.append_left, mulVec, dotProduct, Fin.sum_univ_add, Pi.add_apply]
    simp only [Fin.append_left, Fin.append_right, kktMatrix, Mat.toMatrix_ofFn, transpose_apply,
      of_apply, Fin.addCases_left, Fin.addCases_right, mulVec, dotProduct]
    congr 1
    exact Finset.sum_congr rfl fun j _ => congrArg (· * u j) (hG.apply i j)
  · rw [Fin.append_right, mulVec, dotProduct, Fin.sum_univ_add, Pi.neg_apply]
    simp only [Fin.append_left, Fin.append_right, kktMatrix, Mat.toMatrix_ofFn, transpose_apply,
      of_apply, Fin.addCases_left, Fin.addCases_right, mulVec, dotProduct,
      ← Finset.sum_neg_distrib]
    rw [Finset.sum_eq_zero fun j _ => zero_mul (v j), add_zero]
    exact Finset.sum_congr rfl fun j _ => neg_mul _ _

theorem coe_kktTarget (c : Vec ℝ n) (t : Vec ℝ k) :
    (kktTarget c t).get = Fin.append (-c.get) t.get := by
  rw [kktTarget, Vec.coe_append, Vec.coe_neg]

/-- The system holds exactly where point and multipliers satisfy the optimality conditions. -/
theorem kktMatrix_mulVec_eq_iff (c : Vec ℝ n) (t : Vec ℝ k) (x : Fin n → ℝ) (y : Fin k → ℝ) :
    (kktMatrix G R).toMatrix *ᵥ Fin.append x y = (kktTarget c t).get ↔
      G.toMatrix *ᵥ x + c.get = R.toMatrixᵀ *ᵥ y ∧ R.toMatrix *ᵥ x = t.get := by
  rw [kktMatrix_mulVec, coe_kktTarget, append_eq_append_iff, sub_eq_iff_eq_add, neg_add_eq_sub,
    eq_sub_iff_add_eq]

end Blocks

section Solution

variable {F : Factorizations ℝ} {G : Mat ℝ n n} {c : Vec ℝ n} {A : Mat ℝ m n} {b : Vec ℝ m}
variable {red : Reduced ℝ m n}

/-- The full-system solver returns the first part of the least-squares solution. -/
theorem solveFullSystem_eq_map (G : Mat ℝ n n) (c : Vec ℝ n)
    (hred : reduceConstraints F A b = .ok red) :
    solveFullSystem F G c A b =
      (truncatedLeastSquares F (kktMatrix G red.matrix) (kktTarget c red.target) none).map
        Vec.first := by
  rw [solveFullSystem, hred]
  rfl

theorem solveFullSystem_of_leastSquares (hred : reduceConstraints F A b = .ok red)
    {z : Vec ℝ (n + red.numRows)} (hz : truncatedLeastSquares F (kktMatrix G red.matrix)
      (kktTarget c red.target) none = .ok z) : solveFullSystem F G c A b = .ok z.first := by
  rw [solveFullSystem_eq_map G c hred, hz]
  rfl

/-- The full-system solver always has a result, of least norm together with its multipliers. -/
theorem solveFullSystem_eq (hS : F.ExactSVD) (c : Vec ℝ n) (hsys : SystemDecided F G A b)
    (hred : reduceConstraints F A b = .ok red) :
    ∃ x y, solveFullSystem F G c A b = .ok x ∧
      LeastNorm (kktMatrix G red.matrix).toMatrix (kktTarget c red.target).get
        (Fin.append x.get y) := by
  obtain ⟨z, hz, hnorm⟩ := truncatedLeastSquares_eq hS (kktMatrix G red.matrix)
    (kktTarget c red.target) (hsys red hred)
  refine ⟨z.first, fun j => z (j.natAdd n), solveFullSystem_of_leastSquares hred hz, ?_⟩
  have hsplit : Fin.append z.first.get (fun j => z (j.natAdd n)) = z.get := by
    conv_rhs => rw [← Fin.append_castAdd_natAdd (f := z.get)]
    congr 1
    exact funext (Vec.get_first z)
  rwa [hsplit]

/-- If the reduced optimality conditions have a solution, the point returned satisfies them. -/
theorem solveFullSystem_solves (hS : F.ExactSVD) (hsys : SystemDecided F G A b)
    (hred : reduceConstraints F A b = .ok red) {x₀ : Fin n → ℝ} {y₀ : Fin red.numRows → ℝ}
    (hs : G.toMatrix *ᵥ x₀ + c.get = red.matrix.toMatrixᵀ *ᵥ y₀)
    (ht : red.matrix.toMatrix *ᵥ x₀ = red.target.get) :
    ∃ x y, solveFullSystem F G c A b = .ok x ∧
      LeastNorm (kktMatrix G red.matrix).toMatrix (kktTarget c red.target).get
        (Fin.append x.get y) ∧
      G.toMatrix *ᵥ x.get + c.get = red.matrix.toMatrixᵀ *ᵥ y ∧
      red.matrix.toMatrix *ᵥ x.get = red.target.get := by
  obtain ⟨x, y, hx, hnorm⟩ := solveFullSystem_eq hS c hsys hred
  have hsolves := hnorm.solves ((kktMatrix_mulVec_eq_iff G red.matrix c red.target x₀ y₀).mpr
    ⟨hs, ht⟩)
  exact ⟨x, y, hx, hnorm, (kktMatrix_mulVec_eq_iff _ _ _ _ _ _).mp hsolves⟩

/-- A different point that solves the system with the same multipliers is longer. -/
theorem dotProduct_lt_of_leastNorm {R : Mat ℝ k n} {r : Fin (n + k) → ℝ} {x z : Fin n → ℝ}
    {y : Fin k → ℝ} (h : LeastNorm (kktMatrix G R).toMatrix r (Fin.append x y))
    (hG : G.toMatrix *ᵥ z = G.toMatrix *ᵥ x) (hR : R.toMatrix *ᵥ z = R.toMatrix *ᵥ x)
    (hne : z ≠ x) : x ⬝ᵥ x < z ⬝ᵥ z := by
  have hlt := h.dotProduct_lt (w := Fin.append z y) (by
      rw [kktMatrix_mulVec, kktMatrix_mulVec, hG, hR])
    fun heq => hne ((append_eq_append_iff _ _ _ _).mp heq).1
  rw [append_dotProduct, append_dotProduct] at hlt
  exact lt_of_add_lt_add_right hlt

/-- Systems that take the same values at two points, each the point of a solution of least norm of
one of them, have one such point. -/
theorem eq_of_leastNorm {l : ℕ} {G' : Mat ℝ n n} {R : Mat ℝ k n} {R' : Mat ℝ l n}
    {r : Fin (n + k) → ℝ} {r' : Fin (n + l) → ℝ} {x x' : Fin n → ℝ} {y : Fin k → ℝ}
    {y' : Fin l → ℝ} (h : LeastNorm (kktMatrix G R).toMatrix r (Fin.append x y))
    (h' : LeastNorm (kktMatrix G' R').toMatrix r' (Fin.append x' y'))
    (hG : G.toMatrix *ᵥ x' = G.toMatrix *ᵥ x) (hR : R.toMatrix *ᵥ x' = R.toMatrix *ᵥ x)
    (hG' : G'.toMatrix *ᵥ x' = G'.toMatrix *ᵥ x) (hR' : R'.toMatrix *ᵥ x' = R'.toMatrix *ᵥ x) :
    x' = x := by
  -- the shorter of two different points would be longer than the other one
  by_contra hne
  exact lt_asymm (dotProduct_lt_of_leastNorm h hG hR hne)
    (dotProduct_lt_of_leastNorm h' hG'.symm hR'.symm (Ne.symm hne))

theorem systemMargin_one_iff : SystemMargin F G A b 1 ↔ SystemDecided F G A b := by
  simp only [SystemMargin, SystemDecided, one_mul]

/-- A larger margin is a smaller one. -/
theorem SystemMargin.mono (hS : F.ExactSVD) {s s' : ℝ} (h : SystemMargin F G A b s')
    (hs : s ≤ s') : SystemMargin F G A b s := by
  intro red hred i hi
  have hexceeds := (exceeds_iff _ _ _).mp (h red hred i hi)
  rw [exceeds_iff]
  refine lt_of_le_of_lt (mul_le_mul_of_nonneg_left ?_ ((hS _).nonneg _)) hexceeds
  exact mul_le_mul_of_nonneg_right hs (defaultCutoff_nonneg _ _)

/-- For rows along one unit vector the system is that of this vector. -/
theorem systemMargin_of_rowsAlong (hQ : F.ExactPivotedQR) (hg : F.GreedyPivotedQR) {u : Fin n → ℝ}
    (hA : A.RowsAlong u) (hm : 0 < m) (hc : (defaultCutoff m n : ℝ) < 1) {s : ℝ}
    (hu : (F.svd (kktMatrix G (Mat.ofFn fun _ : Fin 1 => u))).KeepsNonzero
      (s * defaultCutoff (n + 1) (n + 1))) : SystemMargin F G A b s := by
  intro red hred
  obtain ⟨scales, rows, t, rfl⟩ := hA.reduced_eq hQ hg hm hc hred
  exact hu

theorem systemDecided_of_rowsAlong (hQ : F.ExactPivotedQR) (hg : F.GreedyPivotedQR) {u : Fin n → ℝ}
    (hA : A.RowsAlong u) (hm : 0 < m) (hc : (defaultCutoff m n : ℝ) < 1)
    (hu : (F.svd (kktMatrix G (Mat.ofFn fun _ : Fin 1 => u))).KeepsNonzero
      (defaultCutoff (n + 1) (n + 1))) : SystemDecided F G A b :=
  systemMargin_one_iff.mp (systemMargin_of_rowsAlong hQ hg hA hm hc (by rwa [one_mul]))

end Solution

section TwoVariables

/-- The system of a fixed variable next to a free one of weight `g`. -/
def fixedSystem (g : ℝ) : Matrix (Fin 3) (Fin 3) ℝ := !![1, 0, -1; 0, g, 0; 1, 0, 0]

theorem toMatrix_kktMatrix_fixed (g : ℝ) :
    (kktMatrix (Mat.ofFn ![![1, 0], ![0, g]]) (Mat.ofFn fun _ : Fin 1 => ![1, 0])).toMatrix =
      fixedSystem g := by
  ext i j
  fin_cases i <;> fin_cases j <;> simp [fixedSystem, kktMatrix, Fin.addCases]

theorem fixedSystem_mulVec (g : ℝ) (v : Fin 3 → ℝ) :
    fixedSystem g *ᵥ v = ![v 0 - v 2, g * v 1, v 0] := by
  ext i
  fin_cases i <;> simp [fixedSystem, mulVec, dotProduct, Fin.sum_univ_three, sub_eq_add_neg]

theorem fixedSystem_transpose_mulVec (g : ℝ) (v : Fin 3 → ℝ) :
    (fixedSystem g)ᵀ *ᵥ v = ![v 0 + v 2, g * v 1, -v 0] := by
  ext i
  fin_cases i <;> simp [fixedSystem, mulVec, dotProduct, Fin.sum_univ_three]

/-- Whether the free variable has a weight or none, all nonzero singular values of the system are
much larger than the cutoff. -/
theorem kktMatrix_fixed_margin {F : Factorizations ℝ} (hS : F.ExactSVD) {g cutoff : ℝ}
    (hg : g = 0 ∨ g = 1) (hc : 3 * cutoff ^ 2 < 1 / 4) :
    (F.svd (kktMatrix (Mat.ofFn ![![1, 0], ![0, g]])
      (Mat.ofFn fun _ : Fin 1 => ![1, 0]))).KeepsNonzero cutoff := by
  apply (hS _).keepsNonzero (1 / 4) 3
  · intro v
    rw [toMatrix_kktMatrix_fixed, fixedSystem_mulVec, vec3_dotProduct', dotProduct,
      Fin.sum_univ_three]
    rcases hg with rfl | rfl <;>
      nlinarith [sq_nonneg (v 0 + v 2), sq_nonneg (v 0), sq_nonneg (v 1), sq_nonneg (v 2)]
  · intro v
    rw [toMatrix_kktMatrix_fixed, fixedSystem_transpose_mulVec, fixedSystem_mulVec,
      vec3_dotProduct', vec3_dotProduct']
    simp only [cons_val]
    rcases hg with rfl | rfl <;>
      nlinarith [sq_nonneg (7 * (v 0 + v 2) + 4 * v 0), sq_nonneg (v 0), sq_nonneg (v 1)]
  · exact hc

theorem kktMatrix_fixed_keepsNonzero {F : Factorizations ℝ} (hS : F.ExactSVD) {g : ℝ}
    (hg : g = 0 ∨ g = 1) :
    (F.svd (kktMatrix (Mat.ofFn ![![1, 0], ![0, g]])
      (Mat.ofFn fun _ : Fin 1 => ![1, 0]))).KeepsNonzero (defaultCutoff 3 3) :=
  kktMatrix_fixed_margin hS hg (by norm_num [defaultCutoff, Scalar.epsilon, Scalar.ratio_eq])

theorem rowsDecided_double {F : Factorizations ℝ} (hQ : F.ExactPivotedQR) (hg : F.GreedyPivotedQR)
    (b : Vec ℝ 2) : RowsDecided F (Mat.ofFn ![![1, 0], ![2, 0]]) b :=
  rowsDecided_of_parallel hQ hg rowsAlong_double.parallel (rowsAlong_double.toMatrix_ne_zero 0)
    (defaultCutoff_lt_one (by norm_num))

theorem systemDecided_double {F : Factorizations ℝ} (hQ : F.ExactPivotedQR)
    (hg : F.GreedyPivotedQR) (hS : F.ExactSVD) {g : ℝ} (hg' : g = 0 ∨ g = 1) (b : Vec ℝ 2) :
    SystemDecided F (Mat.ofFn ![![1, 0], ![0, g]]) (Mat.ofFn ![![1, 0], ![2, 0]]) b :=
  systemDecided_of_rowsAlong hQ hg rowsAlong_double two_pos (defaultCutoff_lt_one (by norm_num))
    (kktMatrix_fixed_keepsNonzero hS hg')

theorem posSemidef_weight {g : ℝ} (hg : 0 ≤ g) :
    (Mat.ofFn ![![g, 0], ![0, 0]] : Mat ℝ 2 2).toMatrix.PosSemidef := by
  have hdiag : (Mat.ofFn ![![g, 0], ![0, 0]] : Mat ℝ 2 2).toMatrix = diagonal ![g, 0] := by
    ext i j
    fin_cases i <;> fin_cases j <;> simp
  rw [hdiag]
  apply PosSemidef.diagonal
  intro i
  fin_cases i
  · exact hg
  · exact le_rfl

theorem posSemidef_fixed :
    (Mat.ofFn ![![1, 0], ![0, 0]] : Mat ℝ 2 2).toMatrix.PosSemidef :=
  posSemidef_weight zero_le_one

end TwoVariables

/-- If the constraints have a solution and the optimality conditions have one, the point returned
satisfies both. For a positive semidefinite matrix it is a global minimizer, and every other one is
longer. -/
theorem solveFullSystem_optimal {F : Factorizations ℝ} (hS : F.ExactSVD) (G : Mat ℝ n n)
    (c : Vec ℝ n) (A : Mat ℝ m n) (b : Vec ℝ m)
    (hkkt : ∃ x₀ y₀, (G.mulVec x₀).add c = A.transposeMulVec y₀ ∧ A.mulVec x₀ = b)
    (hrows : RowsDecided F A b) (hsys : SystemDecided F G A b) :
    ∃ x, solveFullSystem F G c A b = .ok x ∧ A.mulVec x = b ∧
      (∃ y, (G.mulVec x).add c = A.transposeMulVec y) ∧
      (G.toMatrix.PosSemidef →
        (∀ z, A.mulVec z = b → quadraticCost G c x ≤ quadraticCost G c z) ∧
        ∀ z, A.mulVec z = b →
          (∀ w, A.mulVec w = b → quadraticCost G c z ≤ quadraticCost G c w) →
          z ≠ x → x.norm < z.norm) := by
  rcases hkkt with ⟨x₀, y₀, hs₀, hfeas⟩
  obtain ⟨red, hred⟩ := reduceConstraints_eq_ok F A b
  have hof := reduceConstraints_of hred
  have hspans := hrows red hred
  have hmeets := fun z => A.mulVec_eq_iff z b
  have htarget := fun z => hof.mulVec_eq_target_iff_of_spans hspans ((hmeets x₀).mp hfeas) z
  -- the given optimality conditions hold for the reduced constraints too
  obtain ⟨w, hw⟩ := hof.exists_transpose_mulVec_eq hspans y₀.get
  rw [stationary_iff, hw] at hs₀
  obtain ⟨x, y, hx, hnorm, hs, ht⟩ := solveFullSystem_solves hS hsys hred hs₀
    ((htarget x₀.get).mpr ((hmeets x₀).mp hfeas))
  have hxb := (htarget x.get).mp ht
  have hagree : ∀ z, A.mulVec z = b → A.toMatrix *ᵥ z.get = A.toMatrix *ᵥ x.get := fun z hz =>
    ((hmeets z).mp hz).trans hxb.symm
  have hs' : G.toMatrix *ᵥ x.get + c.get = A.toMatrixᵀ *ᵥ (red.spread (Vec.ofFn y)).get := by
    rw [hs, hof.transpose_mulVec_spread, Vec.coe_ofFn]
  refine ⟨x, hx, (hmeets x).mpr hxb, ⟨red.spread (Vec.ofFn y), ?_⟩, fun hG => ⟨?_, ?_⟩⟩
  · rw [stationary_iff, hs']
  · intro z hz
    rw [quadraticCost_eq, quadraticCost_eq]
    exact objective_le_of_stationary hG hs' (hagree z hz)
  · intro z hz hmin hne
    have hle := hmin x ((hmeets x).mpr hxb)
    rw [quadraticCost_eq, quadraticCost_eq] at hle
    rw [Vec.norm_lt_norm_iff]
    refine dotProduct_lt_of_leastNorm hnorm ?_ ?_ fun h => hne (Vec.coe_injective h)
    · exact mulVec_eq_of_objective_le hG hs' (hagree z hz) hle
    · rw [ht, (htarget z.get).mpr ((hmeets z).mp hz)]

/-- Neither the matrix nor the system is regular, and one of the constraints repeats the other. -/
theorem solveFullSystem_singular :
    let G : Mat ℝ 2 2 := Mat.ofFn ![![1, 0], ![0, 0]]
    let A : Mat ℝ 2 2 := Mat.ofFn ![![1, 0], ![2, 0]]
    let c : Vec ℝ 2 := Vec.ofFn ![1, 0]
    let b : Vec ℝ 2 := Vec.ofFn ![1, 2]
    G.toMatrix.PosSemidef ∧
      (∃ x₀ y₀, (G.mulVec x₀).add c = A.transposeMulVec y₀ ∧ A.mulVec x₀ = b) ∧
      RowsDecided Factorizations.exact A b ∧ SystemDecided Factorizations.exact G A b ∧
      ∃ x, solveFullSystem Factorizations.exact G c A b = .ok x ∧ A.mulVec x = b ∧
        (∀ z, A.mulVec z = b → quadraticCost G c x ≤ quadraticCost G c z) ∧
        ∀ z, A.mulVec z = b →
          (∀ w, A.mulVec w = b → quadraticCost G c z ≤ quadraticCost G c w) →
          z ≠ x → x.norm < z.norm := by
  intro G A c b
  have hQ := Factorizations.exact_exactPivotedQR
  have hg := Factorizations.exact_greedyPivotedQR
  have hS := Factorizations.exact_exactSVD
  have hG : G.toMatrix.PosSemidef := by
    have hdiag : G.toMatrix = diagonal ![1, 0] := by
      ext i j
      fin_cases i <;> fin_cases j <;> simp [G]
    rw [hdiag]
    apply PosSemidef.diagonal
    intro i
    fin_cases i <;> simp
  have hc : (defaultCutoff 2 2 : ℝ) < 1 := defaultCutoff_lt_one (by norm_num)
  have hkkt : ∃ x₀ y₀, (G.mulVec x₀).add c = A.transposeMulVec y₀ ∧ A.mulVec x₀ = b := by
    refine ⟨Vec.ofFn ![1, 0], Vec.ofFn ![2, 0], ?_, ?_⟩
    · apply Vec.ext_get
      intro i
      fin_cases i <;> simp [G, A, c, Scalar.sum_eq, Fin.sum_univ_two, one_add_one_eq_two]
    · apply Vec.ext_get
      intro i
      fin_cases i <;> simp [A, b, Scalar.sum_eq, Fin.sum_univ_two]
  have hrows : RowsDecided Factorizations.exact A b :=
    rowsDecided_of_parallel hQ hg rowsAlong_double.parallel
      (rowsAlong_double.toMatrix_ne_zero 0) hc
  have hsys : SystemDecided Factorizations.exact G A b :=
    systemDecided_of_rowsAlong hQ hg rowsAlong_double two_pos hc
      (kktMatrix_fixed_keepsNonzero hS (.inl rfl))
  obtain ⟨x, hx, hmeets, -, hmin⟩ := solveFullSystem_optimal hS G c A b hkkt hrows hsys
  exact ⟨hG, hkkt, hrows, hsys, x, hx, hmeets, hmin hG⟩

end QuadraticProgram
