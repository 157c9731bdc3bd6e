import QuadraticProgram.Proofs.Constraints.Orthonormal
import QuadraticProgram.Proofs.Kkt.Defect
import QuadraticProgram.Proofs.LeastSquares.Balance
import QuadraticProgram.Proofs.LeastSquares.Scaling
import QuadraticProgram.Proofs.Solver.Superposition

/-! # Factors of the objective

A positive factor of the objective divides the Schur complement, and a relative cutoff counts the
same pivots of it. The rows of the full system keep their length, so there the factor weighs the
Hessian against them, and a singular value that one system keeps may be discarded in the other. If
neither discards any, the factor turns up in the multipliers alone.
-/

namespace QuadraticProgram
open Matrix

variable {n m k : ℕ} {F : Factorizations ℝ} {t : ℝ}

theorem symmetrized_smul (t : ℝ) (G : Mat ℝ n n) :
    (t • G).symmetrized.toMatrix = t • G.symmetrized.toMatrix := by
  rw [← Mat.toMatrix_smul]
  congr 1
  apply Mat.ext_get
  intro i j
  rw [Mat.symmetrized, Mat.get_ofFn, Mat.smul_apply, Mat.smul_apply, Mat.smul_apply,
    Mat.symmetrized, Mat.get_ofFn, mul_ite]

theorem posDef_symmetrized_smul_iff (ht : 0 < t) {G : Mat ℝ n n} :
    (t • G).symmetrized.toMatrix.PosDef ↔ G.symmetrized.toMatrix.PosDef := by
  rw [symmetrized_smul]
  constructor
  · intro h
    have hG := h.smul (inv_pos.mpr ht)
    rwa [inv_smul_smul₀ ht.ne'] at hG
  · exact fun h => h.smul ht

theorem cholesky_smul_eq_none_iff (hC : F.ExactCholesky) (ht : 0 < t) {G : Mat ℝ n n} :
    F.cholesky (t • G) = none ↔ F.cholesky G = none := by
  rw [hC.eq_none_iff, hC.eq_none_iff, posDef_symmetrized_smul_iff ht]

/-- A positive factor of the Hessian does not change the path. -/
theorem chosenPath_smul (hC : F.ExactCholesky) (ht : 0 < t) (G : Mat ℝ n n) :
    chosenPath F (t • G) = chosenPath F G := by
  have hsome : (F.cholesky (t • G)).isSome = (F.cholesky G).isSome := by
    rw [Bool.eq_iff_iff, Option.isSome_iff_ne_none, Option.isSome_iff_ne_none, Ne, Ne,
      cholesky_smul_eq_none_iff hC ht]
  rw [chosenPath, chosenPath, hsome]

section RangeSpace

variable {G L L' : Mat ℝ n n}

/-- Substitution with a factor of the multiple divides by it. -/
theorem substitute_of_smul (hC : F.ExactCholesky) (ht : 0 < t) (hL : F.cholesky G = some L)
    (hL' : F.cholesky (t • G) = some L') (v : Vec ℝ n) :
    substitute L' v = t⁻¹ • substitute L v := by
  have hd : ∀ i, L i i ≠ 0 := fun i => (hC.diag_pos hL i).ne'
  have hd' : ∀ i, L' i i ≠ 0 := fun i => (hC.diag_pos hL' i).ne'
  have hunit := (isUnit_iff_isUnit_det _).mp (hC.posDef hL).isUnit
  have := invertibleOfNonzero ht.ne'
  apply Vec.coe_injective
  rw [Vec.coe_smul, coe_substitute hd' (hC.product hL') (hC.posDef hL'),
    coe_substitute hd (hC.product hL) (hC.posDef hL), symmetrized_smul, inv_smul _ t hunit,
    smul_mulVec, invOf_eq_inv]

theorem schurComplement_of_smul (hsub : ∀ v, substitute L' v = t⁻¹ • substitute L v)
    (R : Mat ℝ k n) : schurComplement L' R = t⁻¹ • schurComplement L R := by
  apply Mat.ext_get
  intro i j
  rw [Mat.smul_apply, schurComplement, schurComplement, Mat.get_ofFn, Mat.get_ofFn, hsub,
    Vec.dot_eq, Vec.dot_eq, Vec.coe_smul, dotProduct_smul, smul_eq_mul]

/-- A factor of the gradient makes up for the factor of the matrix. -/
theorem schurTarget_of_smul (ht : t ≠ 0) (hsub : ∀ v, substitute L' v = t⁻¹ • substitute L v)
    (c : Vec ℝ n) (R : Mat ℝ k n) (b : Vec ℝ k) :
    schurTarget L' (t • c) R b = schurTarget L c R b := by
  apply Vec.ext_get
  intro i
  rw [schurTarget, schurTarget, Vec.get_ofFn, Vec.get_ofFn, hsub, Vec.dot_eq, Vec.dot_eq,
    Vec.coe_smul, Vec.coe_smul, smul_dotProduct, dotProduct_smul, smul_smul, inv_mul_cancel₀ ht,
    one_smul]

/-- The range-space solver returns the same point for a multiple of the objective. -/
theorem solveRangeSpace_smul (hC : F.ExactCholesky) (hQ : F.ExactPivotedQR)
    (hg : F.FirstLongestPivotedQR) (ht : 0 < t) (hL : F.cholesky G = some L)
    (hL' : F.cholesky (t • G) = some L') (c : Vec ℝ n) (A : Mat ℝ m n) (b : Vec ℝ m) :
    ∃ s s', solveRangeSpace F L c A b = .ok s ∧ solveRangeSpace F L' (t • c) A b = .ok s' ∧
      s'.x = s.x := by
  have hsub := substitute_of_smul hC ht hL hL'
  obtain ⟨red, hred⟩ := reduceConstraints_eq_ok F A b
  obtain ⟨y, hy, hs⟩ := solveRangeSpace_eq hQ L c hred
  have hy' := pivotedLeastSquares_smul hQ hg (inv_pos.mpr ht) hy
  rw [inv_inv, ← schurComplement_of_smul hsub, ← schurTarget_of_smul ht.ne' hsub] at hy'
  have hs' := solveRangeSpace_eq_map L' (t • c) hred
  rw [hy'] at hs'
  refine ⟨_, _, hs, hs', ?_⟩
  have hspread : red.spread (t • y) = t • red.spread y :=
    (isLinearMap_spread red.rows red.scales).map_smul t y
  have hpoint := (isLinearMap_substitute_sub L' A).map_smul t (c, red.spread y)
  dsimp only
  rw [hspread]
  refine hpoint.trans ?_
  rw [hsub, smul_inv_smul₀ ht.ne']

end RangeSpace

section FullSystem

variable {G : Mat ℝ n n} {A : Mat ℝ m n} {b : Vec ℝ m}

/-- The factors that multiply the Hessian and leave the rows alone. -/
noncomputable def balance (n k : ℕ) (t : ℝ) : Fin (n + k) → ℝ :=
  Fin.append (fun _ => √t) fun _ => (√t)⁻¹

theorem toMatrix_kktMatrix_smul (ht : 0 < t) (G : Mat ℝ n n) (R : Mat ℝ k n) :
    (kktMatrix (t • G) R).toMatrix =
      diagonal (balance n k t) * (kktMatrix G R).toMatrix * diagonal (balance n k t) := by
  have hne : √t ≠ 0 := (Real.sqrt_pos.mpr ht).ne'
  have hweigh : ∀ a, √t * a * √t = t * a := fun a => by
    rw [mul_right_comm, Real.mul_self_sqrt ht.le]
  have hcancel : ∀ a, √t * a * (√t)⁻¹ = a := fun a => by
    rw [mul_right_comm, mul_inv_cancel₀ hne, one_mul]
  have hcancel' : ∀ a, (√t)⁻¹ * a * √t = a := fun a => by
    rw [mul_right_comm, inv_mul_cancel₀ hne, one_mul]
  ext i j
  rw [mul_diagonal, diagonal_mul, kktMatrix, kktMatrix, balance]
  refine Fin.addCases (fun i => ?_) (fun i => ?_) i <;>
    refine Fin.addCases (fun j => ?_) (fun j => ?_) j
  · simp [hweigh]
  · simp [hcancel]
  · simp [hcancel']
  · simp

theorem balance_mul_self (ht : 0 < t) (i : Fin (n + k)) :
    balance n k t i * balance n k t i = t ∨ balance n k t i * balance n k t i = t⁻¹ := by
  have hsq : √t * √t = t := Real.mul_self_sqrt ht.le
  rw [balance]
  refine Fin.addCases (fun i => ?_) (fun i => ?_) i
  · left
    rw [Fin.append_left, hsq]
  · right
    rw [Fin.append_right, ← mul_inv, hsq]

/-- A decision with the square of the factor to spare, or of its inverse, is not changed by it. -/
theorem SystemMargin.decided_smul (hS : F.ExactSVD) (ht : 0 < t)
    (h : SystemMargin F G A b (max t t⁻¹ ^ 2)) : SystemDecided F (t • G) A b := by
  intro red hred
  have hmax : 0 < max t t⁻¹ := ht.trans_le (le_max_left _ _)
  have hspare : max t t⁻¹ ^ 2 = max t t⁻¹ / (max t t⁻¹)⁻¹ := by rw [div_inv_eq_mul, sq]
  have hk := h red hred
  rw [hspare] at hk
  refine (hS _).keepsNonzero_of_balanced (hS _) (toMatrix_kktMatrix_smul ht G red.matrix)
    (inv_pos.mpr hmax) (fun i => ?_) (fun i => ?_) (defaultCutoff_nonneg _ _) hk
  · rcases balance_mul_self ht i with hi | hi
    · rw [hi, inv_le_comm₀ hmax ht]
      exact le_max_right _ _
    · rw [hi, inv_le_inv₀ hmax ht]
      exact le_max_left _ _
  · rcases balance_mul_self ht i with hi | hi
    · exact hi.trans_le (le_max_left _ _)
    · exact hi.trans_le (le_max_right _ _)

theorem gradientDefect_smul (ht : t ≠ 0) (G : Matrix (Fin n) (Fin n) ℝ) (c : Fin n → ℝ)
    (R : Matrix (Fin k) (Fin n) ℝ) (x : Fin n → ℝ) (y : Fin k → ℝ) :
    gradientDefect (t • G) (t • c) R x y = t • gradientDefect G c R x (t⁻¹ • y) := by
  rw [gradientDefect, gradientDefect, smul_sub, smul_add, mulVec_smul, smul_inv_smul₀ ht,
    smul_mulVec]

theorem FlatStationary.of_smul (ht : t ≠ 0) {G : Matrix (Fin n) (Fin n) ℝ} {c x : Fin n → ℝ}
    {R : Matrix (Fin k) (Fin n) ℝ} {y : Fin k → ℝ}
    (h : FlatStationary (t • G) (t • c) R x y) : FlatStationary G c R x (t⁻¹ • y) where
  hessian := by
    have hG := h.hessian
    rw [gradientDefect_smul ht, mulVec_smul, smul_mulVec, smul_smul] at hG
    exact (smul_eq_zero.mp hG).resolve_left (mul_ne_zero ht ht)
  rows := by
    have hR := h.rows
    rw [gradientDefect_smul ht, mulVec_smul] at hR
    exact (smul_eq_zero.mp hR).resolve_left ht

/-- If neither system discards anything, the full-system solver returns the same point for a
multiple of the objective. -/
theorem solveFullSystem_smul (hQ : F.ExactPivotedQR) (hS : F.ExactSVD) (ht : 0 < t)
    (hG : G.toMatrix.PosSemidef) (c : Vec ℝ n) (hsys : SystemDecided F G A b)
    (hsys' : SystemDecided F (t • G) A b) :
    ∃ x, solveFullSystem F G c A b = .ok x ∧ solveFullSystem F (t • G) (t • c) A b = .ok x := by
  have hsymm := isHermitian_iff_isSymm.mp hG.isHermitian
  have hG' : (t • G).toMatrix.PosSemidef := by
    rw [Mat.toMatrix_smul]
    exact hG.smul ht.le
  obtain ⟨red, hred⟩ := reduceConstraints_eq_ok F A b
  have hind := fun w => reduceConstraints_independent hQ hred (y := w)
  obtain ⟨x, y, hx, hnorm⟩ := solveFullSystem_eq hS c hsys hred
  obtain ⟨x', y', hx', hnorm'⟩ := solveFullSystem_eq hS (t • c) hsys' hred
  have hrows := hnorm.rows_hold_of_posSemidef hG hind
  have hrows' := hnorm'.rows_hold_of_posSemidef hG' hind
  have hflat := hnorm.flatStationary hsymm hrows
  have hflat' := hnorm'.flatStationary (isHermitian_iff_isSymm.mp hG'.isHermitian) hrows'
  rw [Mat.toMatrix_smul, Vec.coe_smul] at hflat'
  -- both points are stationary for the original objective, on the same rows
  have hR : red.matrix.toMatrix *ᵥ x'.get = red.matrix.toMatrix *ᵥ x.get := hrows'.trans hrows.symm
  have hgrad : G.toMatrix *ᵥ x'.get = G.toMatrix *ᵥ x.get :=
    hflat.mulVec_eq hG (hflat'.of_smul ht.ne') (fun _ => Iff.rfl) (by rw [mulVec_sub, hR, sub_self])
  have hgrad' : (t • G).toMatrix *ᵥ x'.get = (t • G).toMatrix *ᵥ x.get := by
    rw [Mat.toMatrix_smul, smul_mulVec, smul_mulVec, hgrad]
  have heq := Vec.coe_injective (eq_of_leastNorm hnorm hnorm' hgrad hR hgrad' hR)
  exact ⟨x, hx, heq ▸ hx'⟩

end FullSystem

/-- The problem whose objective is multiplied by a factor. -/
noncomputable def Problem.scaledObjective (t : ℝ) (P : Problem ℝ n m) : Problem ℝ n m :=
  { P with hessian := t • P.hessian, gradient := t • P.gradient }

theorem quadraticCost_smul (t : ℝ) (G : Mat ℝ n n) (c x : Vec ℝ n) :
    quadraticCost (t • G) (t • c) x = t * quadraticCost G c x := by
  rw [quadraticCost_eq, quadraticCost_eq, objective, objective, Mat.toMatrix_smul, Vec.coe_smul,
    smul_mulVec, dotProduct_smul, smul_dotProduct, smul_eq_mul, smul_eq_mul]
  ring

/-- The candidates for an objective and a multiple of it have the same point, on the full-system
path if neither system discards anything. -/
theorem candidate_scaledObjective (hC : F.ExactCholesky) (hQ : F.ExactPivotedQR)
    (hg : F.FirstLongestPivotedQR) (hS : F.ExactSVD) (ht : 0 < t) {P : Problem ℝ n m}
    (hG : P.hessian.toMatrix.PosSemidef) {s s' : Candidate ℝ n m}
    (hs : (findCandidate F P).result = .ok s)
    (hs' : (findCandidate F (P.scaledObjective t)).result = .ok s')
    (h : s.path = .rangeSpace ∨ SystemDecided F P.hessian P.matrix P.target ∧
      SystemDecided F (t • P.hessian) P.matrix P.target) : s'.x = s.x := by
  by_cases hn : n = 0
  · subst hn
    exact Vec.ext_get fun i => i.elim0
  cases hL : F.cholesky P.hessian with
  | some L =>
    obtain ⟨L', hL'⟩ := hC.exists_factor ((posDef_symmetrized_smul_iff ht).mpr (hC.posDef hL))
    obtain ⟨w, w', hw, hw', hx⟩ :=
      solveRangeSpace_smul hC hQ hg ht hL hL' P.gradient P.matrix P.target
    rw [findCandidate_of_factor hn hL, hw] at hs
    rw [findCandidate_of_factor (P := P.scaledObjective t) hn hL'] at hs'
    change (solveRangeSpace F L' (t • P.gradient) P.matrix P.target).map _ = _ at hs'
    rw [hw'] at hs'
    obtain rfl := Except.ok.inj hs
    obtain rfl := Except.ok.inj hs'
    exact hx
  | none =>
    have hL' := (cholesky_smul_eq_none_iff hC ht).mpr hL
    rw [findCandidate_of_no_factor hn hL] at hs
    rw [findCandidate_of_no_factor (P := P.scaledObjective t) hn hL'] at hs'
    change (solveFullSystem F (t • P.hessian) (t • P.gradient) P.matrix P.target).map _ = _ at hs'
    obtain ⟨x, hx, rfl⟩ := map_eq_ok hs
    obtain ⟨x', hx', rfl⟩ := map_eq_ok hs'
    obtain ⟨hsys, hsys'⟩ := h.resolve_left KktPath.noConfusion
    obtain ⟨z, hz, hz'⟩ := solveFullSystem_smul hQ hS ht hG P.gradient hsys hsys'
    rw [Except.ok.inj (hx'.symm.trans hz'), Except.ok.inj (hx.symm.trans hz)]

/-- A positive factor of a convex objective does not change the path. On the range-space path the
point is the same and the cost is multiplied. On the full-system path this holds if neither
optimality system discards a nonzero singular value, which is so if the original one keeps them all
with the square of the factor, or of its inverse, to spare. -/
theorem Problem.solve_scaledObjective (hC : F.ExactCholesky) (hQ : F.ExactPivotedQR)
    (hg : F.FirstLongestPivotedQR) (hS : F.ExactSVD) (ht : 0 < t) (P : Problem ℝ n m)
    (hG : P.hessian.toMatrix.PosSemidef) :
    ∃ o o', P.HasOutcome F o ∧ (P.scaledObjective t).HasOutcome F o' ∧ o'.path = o.path ∧
      (o.path = .rangeSpace ∨
        (SystemDecided F P.hessian P.matrix P.target ∧
          SystemDecided F (t • P.hessian) P.matrix P.target) ∨
        SystemMargin F P.hessian P.matrix P.target (max t t⁻¹ ^ 2) →
      o'.x = o.x ∧ o'.cost = t * o.cost) := by
  obtain ⟨s, hs⟩ := exists_candidate hQ P
  obtain ⟨s', hs'⟩ := exists_candidate hQ (P.scaledObjective t)
  refine ⟨_, _, hasOutcome_of_candidate hs, hasOutcome_of_candidate hs', ?_, fun h => ?_⟩
  · exact (findCandidate_path hs').trans
      ((chosenPath_smul hC ht P.hessian).trans (findCandidate_path hs).symm)
  · have hx : s'.x = s.x := by
      apply candidate_scaledObjective hC hQ hg hS ht hG hs hs'
      rcases h with h | h | h
      · exact .inl h
      · exact .inr h
      · refine .inr ⟨systemMargin_one_iff.mp (h.mono hS ?_), h.decided_smul hS ht⟩
        apply one_le_pow₀
        rcases le_total 1 t with ht1 | ht1
        · exact ht1.trans (le_max_left _ _)
        · exact ((one_le_inv₀ ht).mpr ht1).trans (le_max_right _ _)
    refine ⟨hx, ?_⟩
    change quadraticCost (t • P.hessian) (t • P.gradient) s'.x = _
    rw [quadraticCost_smul, hx]
    rfl

/-- A singular Hessian, and a gradient along which the objective has no lower bound. -/
theorem Problem.solve_doubled_objective :
    let P : Problem ℝ 2 2 := ⟨Mat.ofFn ![![1, 0], ![0, 0]], Vec.ofFn ![1, -1],
      Mat.ofFn ![![1, 0], ![2, 0]], Vec.ofFn ![1, 2]⟩
    P.hessian.toMatrix.PosSemidef ∧
      ∃ o o', P.HasOutcome Factorizations.exact o ∧
        (P.scaledObjective 2).HasOutcome Factorizations.exact o' ∧ o'.path = o.path ∧
        o'.x = o.x ∧ o'.cost = 2 * o.cost := by
  intro P
  have hS := Factorizations.exact_exactSVD
  have hmargin : SystemMargin Factorizations.exact P.hessian P.matrix P.target
      (max 2 2⁻¹ ^ 2) := by
    refine systemMargin_of_rowsAlong Factorizations.exact_exactPivotedQR
      Factorizations.exact_greedyPivotedQR rowsAlong_double two_pos
      (defaultCutoff_lt_one (by norm_num)) (kktMatrix_fixed_margin hS (.inl rfl) ?_)
    norm_num [defaultCutoff, Scalar.epsilon, Scalar.ratio_eq]
  obtain ⟨o, o', ho, ho', hpath, hsame⟩ := solve_scaledObjective Factorizations.exact_exactCholesky
    Factorizations.exact_exactPivotedQR Factorizations.exact_firstLongestPivotedQR hS two_pos P
    posSemidef_fixed
  obtain ⟨hx, hcost⟩ := hsame (.inr (.inr hmargin))
  exact ⟨posSemidef_fixed, o, o', ho, ho', hpath, hx, hcost⟩

section Heavy

/-- Minimize `g x₀² / 2` subject to `x₁ = 1`. -/
noncomputable def heavy (g : ℝ) : Problem ℝ 2 1 :=
  ⟨Mat.ofFn ![![g, 0], ![0, 0]], Vec.zero, Mat.ofFn ![![0, 1]], Vec.ofFn ![1]⟩

theorem scaledObjective_heavy (t g : ℝ) : (heavy g).scaledObjective t = heavy (t * g) := by
  have hhessian : t • (heavy g).hessian = (heavy (t * g)).hessian := by
    apply Mat.ext_get
    intro i j
    fin_cases i <;> fin_cases j <;> simp [heavy]
  have hgradient : t • (heavy g).gradient = (heavy (t * g)).gradient := smul_zero t
  rw [Problem.scaledObjective, hhessian, hgradient]
  rfl

/-- A decomposition of the optimality system. -/
noncomputable def heavyDecomposition (g : ℝ) : ThinSVD ℝ 3 3 where
  u := Mat.ofMatrix (1 : Matrix (Fin 3) (Fin 3) ℝ)
  sing := Vec.ofFn ![g, 1, 1]
  vt := Mat.ofMatrix !![1, 0, 0; 0, 0, -1; 0, 1, 0]

theorem heavyDecomposition_exact {g : ℝ} (hg : 1 ≤ g) :
    (heavyDecomposition g).Exact (kktMatrix (heavy g).hessian (heavy g).matrix) where
  left_orthonormal := by
    rw [heavyDecomposition, Mat.toMatrix_ofMatrix, transpose_one]
    exact Matrix.one_mul 1
  right_orthonormal := by
    rw [heavyDecomposition, Mat.toMatrix_ofMatrix]
    ext i j
    fin_cases i <;> fin_cases j <;> simp [mul_apply, Fin.sum_univ_three]
  product := by
    have hsystem : (kktMatrix (heavy g).hessian (heavy g).matrix).toMatrix =
        (1 : Matrix (Fin 3) (Fin 3) ℝ) * diagonal ![g, 1, 1] * !![1, 0, 0; 0, 0, -1; 0, 1, 0] := by
      rw [Matrix.one_mul]
      ext i j
      rw [diagonal_mul]
      fin_cases i <;> fin_cases j <;> simp [heavy, kktMatrix, Fin.addCases]
    rw [heavyDecomposition, Mat.toMatrix_ofMatrix, Mat.toMatrix_ofMatrix, Vec.coe_ofFn]
    exact hsystem
  nonneg i := by
    have hg0 : 0 ≤ g := zero_le_one.trans hg
    fin_cases i <;> simp [heavyDecomposition, hg0]
  antitone := by
    refine antitone_iff_forall_lt.mpr fun i j hij => ?_
    fin_cases i <;> fin_cases j <;> simp [heavyDecomposition, hg] at hij ⊢

/-- The constraint is met through the last singular value. -/
theorem heavyDecomposition_solve (g cutoff : ℝ) :
    (heavyDecomposition g).solve cutoff (kktTarget (heavy g).gradient (heavy g).target) 1 =
      if g * cutoff < 1 then 1 else 0 := by
  have htarget : (heavyDecomposition g).u.transposeMulVec
      (kktTarget (heavy g).gradient (heavy g).target) = Vec.ofFn ![0, 0, 1] := by
    apply Vec.coe_injective
    rw [Mat.coe_transposeMulVec, heavyDecomposition, Mat.toMatrix_ofMatrix, transpose_one]
    refine (Matrix.one_mulVec _).trans ?_
    rw [coe_kktTarget, Vec.coe_ofFn]
    ext i
    fin_cases i <;> simp [heavy, Fin.append, Fin.addCases]
  rw [ThinSVD.solve, htarget, Mat.get_transposeMulVec, Scalar.sum_eq]
  change ∑ l : Fin 3, (heavyDecomposition g).vt l 1 * _ = _
  rw [Fin.sum_univ_three]
  simp [heavyDecomposition, ThinSVD.truncatedInverse, exceeds]

/-- Once the weight is so large that the other singular values are discarded, the point found does
not move to the constraint. -/
theorem heavy_candidate (hC : F.ExactCholesky) (hQ : F.ExactPivotedQR) (hS : F.ExactSVD) {g : ℝ}
    (hg : 1 ≤ g) : ∃ x, (findCandidate F (heavy g)).result = .ok ⟨.fullSystem, x, none⟩ ∧
      x 1 = if g * defaultCutoff 3 3 < 1 then 1 else 0 := by
  have hL : F.cholesky (heavy g).hessian = none := hC.eq_none_of_diag (i := 1) (by simp [heavy])
  have hA : (heavy g).matrix.toMatrix * (heavy g).matrix.toMatrixᵀ = 1 := by
    ext i j
    fin_cases i
    fin_cases j
    simp [heavy, mul_apply, Fin.sum_univ_two]
  have hred := reduceConstraints_of_orthonormal hA hQ (defaultCutoff_lt_one (by norm_num))
    (heavy g).target
  have hx := solveFullSystem_eq_map (heavy g).hessian (heavy g).gradient hred
  rw [truncatedLeastSquares, if_neg (by norm_num), Mat.isFinite_eq_true] at hx
  refine ⟨_, by rw [findCandidate_of_no_factor two_ne_zero hL, hx]; rfl, ?_⟩
  rw [Vec.get_first, (hS _).solve_eq (heavyDecomposition_exact hg)]
  exact heavyDecomposition_solve g (defaultCutoff 3 3)

end Heavy

/-- The optimality system of a Hessian of weight one has singular values `1`, `1`, `1`; that of its
multiple has one so large that the others are discarded, and with them the constraint. -/
theorem Problem.scaledObjective_moves_point :
    let P : Problem ℝ 2 1 := ⟨Mat.ofFn ![![1, 0], ![0, 0]], Vec.zero, Mat.ofFn ![![0, 1]],
      Vec.ofFn ![1]⟩
    P.hessian.toMatrix.PosSemidef ∧ (∃ z, P.matrix.mulVec z = P.target) ∧
      ∃ o o', P.HasOutcome Factorizations.exact o ∧
        (P.scaledObjective (10 ^ 20)).HasOutcome Factorizations.exact o' ∧
        o.x 1 = 1 ∧ o'.x 1 = 0 ∧ o'.x ≠ o.x := by
  intro P
  have hC := Factorizations.exact_exactCholesky
  have hQ := Factorizations.exact_exactPivotedQR
  have hS := Factorizations.exact_exactSVD
  obtain ⟨x, hx, hone⟩ := heavy_candidate hC hQ hS le_rfl
  obtain ⟨x', hx', hzero⟩ := heavy_candidate hC hQ hS (g := 10 ^ 20) (by norm_num)
  rw [if_pos (by norm_num [defaultCutoff, Scalar.epsilon, Scalar.ratio_eq])] at hone
  rw [if_neg (by norm_num [defaultCutoff, Scalar.epsilon, Scalar.ratio_eq])] at hzero
  have hscaled : P.scaledObjective (10 ^ 20) = heavy (10 ^ 20) := by
    rw [show P = heavy 1 from rfl, scaledObjective_heavy, mul_one]
  rw [← hscaled] at hx'
  refine ⟨posSemidef_fixed, ⟨Vec.ofFn ![0, 1], Vec.ext_get fun i => ?_⟩, _, _,
    hasOutcome_of_candidate hx, hasOutcome_of_candidate hx', hone, hzero, fun h => ?_⟩
  · fin_cases i
    simp [P, Scalar.sum_eq, Fin.sum_univ_two]
  · have hsame : x' 1 = x 1 := congrArg (fun v : Vec ℝ 2 => v 1) h
    rw [hone, hzero] at hsame
    exact zero_ne_one hsame

end QuadraticProgram
