import QuadraticProgram.Proofs.Solver.Dense
import QuadraticProgram.Proofs.Solver.Fallback

/-! # Equivalent constraints

Constraints with the same solutions see the same directions. For a definite Hessian both solves find
the only minimizer; for a singular one both find the shortest of the points that are stationary up
to directions that are not seen, whether the objective has a lower bound or not.
-/

namespace QuadraticProgram
open Matrix

variable {n m l : ℕ} {F : Factorizations ℝ}

/-- No rank decision that a solve takes discards anything. -/
structure Problem.RanksDecided (F : Factorizations ℝ) (P : Problem ℝ n m) : Prop where
  rows : RowsDecided F P.matrix P.target
  schur : SchurDecided F P.hessian P.matrix P.target
  system : F.cholesky P.hessian = none → SystemDecided F P.hessian P.matrix P.target

/-- Problems that differ only in how their constraints are written. The constraints have a
solution. -/
structure Problem.SameSolutions (P : Problem ℝ n m) (P' : Problem ℝ n l) : Prop where
  hessian : P'.hessian = P.hessian
  gradient : P'.gradient = P.gradient
  feasible : ∃ z, P.matrix.mulVec z = P.target
  meets_iff : ∀ z, P.matrix.mulVec z = P.target ↔ P'.matrix.mulVec z = P'.target

variable {P : Problem ℝ n m} {P' : Problem ℝ n l}

/-- Solutions differ by the directions that the rows do not see. -/
theorem mulVec_add_eq_iff {A : Mat ℝ m n} {b : Vec ℝ m} {z₀ : Vec ℝ n} (hz₀ : A.mulVec z₀ = b)
    (v : Fin n → ℝ) : A.mulVec (Vec.ofFn (z₀.get + v)) = b ↔ A.toMatrix *ᵥ v = 0 := by
  rw [Mat.mulVec_eq_iff, Vec.coe_ofFn, mulVec_add, (Mat.mulVec_eq_iff _ _ _).mp hz₀, add_eq_left]

/-- Constraints with the same solutions see the same directions. -/
theorem Problem.SameSolutions.mulVec_eq_zero_iff (h : P.SameSolutions P') (v : Fin n → ℝ) :
    P.matrix.toMatrix *ᵥ v = 0 ↔ P'.matrix.toMatrix *ᵥ v = 0 := by
  obtain ⟨z₀, hz₀⟩ := h.feasible
  rw [← mulVec_add_eq_iff hz₀, h.meets_iff, mulVec_add_eq_iff ((h.meets_iff z₀).mp hz₀)]

/-- On a positive definite Hessian both candidates are the only minimizer. -/
theorem Problem.SameSolutions.candidate_of_posDef (h : P.SameSolutions P') (hC : F.ExactCholesky)
    (hQ : F.ExactPivotedQR) (hG : P.hessian.toMatrix.PosDef) (hP : P.RanksDecided F)
    (hP' : P'.RanksDecided F) :
    ∃ s s', (findCandidate F P).result = .ok s ∧ (findCandidate F P').result = .ok s' ∧
      s'.x = s.x ∧ P.matrix.mulVec s.x = P.target := by
  obtain ⟨z₀, hz₀⟩ := h.feasible
  have hG' : P'.hessian.toMatrix.PosDef := h.hessian ▸ hG
  obtain ⟨s, hs, hx, hmin⟩ := findCandidate_minimal hC hQ hG hz₀ hP.rows hP.schur
  obtain ⟨s', hs', hx', hmin'⟩ :=
    findCandidate_minimal hC hQ hG' ((h.meets_iff z₀).mp hz₀) hP'.rows hP'.schur
  rw [h.hessian, h.gradient] at hmin'
  refine ⟨s, s', hs, hs', ?_, hx⟩
  by_contra hne
  exact lt_asymm (hmin s'.x ((h.meets_iff _).mpr hx') hne)
    (hmin' s.x ((h.meets_iff _).mp hx) (Ne.symm hne))

/-- Without a factor both candidates are the shortest of the same points. -/
theorem Problem.SameSolutions.candidate_of_no_factor (h : P.SameSolutions P')
    (hQ : F.ExactPivotedQR) (hS : F.ExactSVD) (hn : n ≠ 0) (hG : P.hessian.toMatrix.PosSemidef)
    (hL : F.cholesky P.hessian = none) (hP : P.RanksDecided F) (hP' : P'.RanksDecided F) :
    ∃ s s', (findCandidate F P).result = .ok s ∧ (findCandidate F P').result = .ok s' ∧
      s'.x = s.x ∧ P.matrix.mulVec s.x = P.target := by
  obtain ⟨z₀, hz₀⟩ := h.feasible
  have hL' : F.cholesky P'.hessian = none := h.hessian.symm ▸ hL
  obtain ⟨red, hred⟩ := reduceConstraints_eq_ok F P.matrix P.target
  obtain ⟨red', hred'⟩ := reduceConstraints_eq_ok F P'.matrix P'.target
  have hof := reduceConstraints_of hred
  have hof' := reduceConstraints_of hred'
  have hspans := hP.rows red hred
  have hspans' := hP'.rows red' hred'
  have hmeets := hof.meets_iff_of_spans hspans hz₀
  have hmeets' := hof'.meets_iff_of_spans hspans' ((h.meets_iff z₀).mp hz₀)
  obtain ⟨x, y, hs, hnorm⟩ := findCandidate_leastNorm hS hn hL (hP.system hL) hred
  obtain ⟨x', y', hs', hnorm'⟩ := findCandidate_leastNorm hS hn hL' (hP'.system hL') hred'
  rw [h.hessian, h.gradient] at hnorm'
  have ht := hnorm.rows_hold_of_posSemidef hG fun w => reduceConstraints_independent hQ hred
  have ht' := hnorm'.rows_hold_of_posSemidef hG fun w => reduceConstraints_independent hQ hred'
  -- the rows kept may be others, but they see the same directions and agree on both points
  have hdir : ∀ v, red.matrix.toMatrix *ᵥ v = 0 ↔ red'.matrix.toMatrix *ᵥ v = 0 := fun v => by
    rw [hof.mulVec_eq_zero_iff_of_spans hspans, hof'.mulVec_eq_zero_iff_of_spans hspans',
      h.mulVec_eq_zero_iff]
  have hdiff : red.matrix.toMatrix *ᵥ (x'.get - x.get) = 0 := by
    rw [mulVec_sub, ht, (hmeets x').mp ((h.meets_iff x').mpr ((hmeets' x').mpr ht')), sub_self]
  refine ⟨_, _, hs, hs', ?_, (hmeets x).mpr ht⟩
  exact Vec.coe_injective (hnorm.point_eq hG hnorm' ht ht' hdir hdiff)

/-- Problems that differ only in how their constraints are written have the same candidate. -/
theorem Problem.SameSolutions.candidate (h : P.SameSolutions P') (hC : F.ExactCholesky)
    (hQ : F.ExactPivotedQR) (hS : F.ExactSVD) (hG : P.hessian.toMatrix.PosSemidef)
    (hP : P.RanksDecided F) (hP' : P'.RanksDecided F) :
    ∃ s s', (findCandidate F P).result = .ok s ∧ (findCandidate F P').result = .ok s' ∧
      s'.x = s.x ∧ P.matrix.mulVec s.x = P.target := by
  have hsymm := Mat.symmetrized_of_isSymm (isHermitian_iff_isSymm.mp hG.isHermitian)
  cases hL : F.cholesky P.hessian with
  | some L =>
    have hpos := hC.posDef hL
    rw [hsymm] at hpos
    exact h.candidate_of_posDef hC hQ hpos hP hP'
  | none =>
    by_cases hn : n = 0
    · have hpos : P.hessian.toMatrix.PosDef := by
        subst hn
        rw [Subsingleton.elim P.hessian.toMatrix 1]
        exact PosDef.one
      exact h.candidate_of_posDef hC hQ hpos hP hP'
    · exact h.candidate_of_no_factor hQ hS hn hG hL hP hP'

/-- For a positive semidefinite Hessian and exact rank decisions the point found is a solution of
the constraints, and the path, the point and the cost depend on them only through their
solutions. -/
theorem Problem.solve_depends_on_solutions (hC : F.ExactCholesky) (hQ : F.ExactPivotedQR)
    (hS : F.ExactSVD) {G : Mat ℝ n n} (hG : G.toMatrix.PosSemidef) (c : Vec ℝ n)
    {A : Mat ℝ m n} {b : Vec ℝ m} {A' : Mat ℝ l n} {b' : Vec ℝ l}
    (hfeas : ∃ z, A.mulVec z = b) (hsame : ∀ z, A.mulVec z = b ↔ A'.mulVec z = b')
    (hP : (Problem.mk G c A b).RanksDecided F) (hP' : (Problem.mk G c A' b').RanksDecided F) :
    ∃ o o', A.mulVec o.x = b ∧ o'.path = o.path ∧ o'.x = o.x ∧ o'.cost = o.cost ∧
      ∀ checks, ((Problem.mk G c A b).solve F checks).result = .ok o ∧
        ((Problem.mk G c A' b').solve F checks).result = .ok o' := by
  have hsymm : G.toMatrix.IsSymm := isHermitian_iff_isSymm.mp hG.isHermitian
  let P : Problem ℝ n m := ⟨G, c, A, b⟩
  let P' : Problem ℝ n l := ⟨G, c, A', b'⟩
  have h : P.SameSolutions P' := ⟨rfl, rfl, hfeas, hsame⟩
  obtain ⟨s, s', hs, hs', hxx, hx⟩ := h.candidate hC hQ hS hG hP hP'
  have hx' : P'.matrix.mulVec s'.x = P'.target := hxx ▸ (hsame s.x).mp hx
  refine ⟨s.outcome P, s'.outcome P', hx, ?_, hxx, congrArg (quadraticCost G c) hxx,
    fun checks => ⟨?_, ?_⟩⟩
  · exact (findCandidate_path hs').trans (findCandidate_path hs).symm
  · exact P.solve_eq_ok checks hsymm hs hx
  · exact P'.solve_eq_ok checks hsymm hs' hx'

/-- One row in place of two proportional ones, for an objective that has no lower bound. -/
theorem Problem.solve_single_row :
    let G : Mat ℝ 2 2 := Mat.ofFn ![![1, 0], ![0, 0]]
    let c : Vec ℝ 2 := Vec.ofFn ![1, -1]
    let A : Mat ℝ 2 2 := Mat.ofFn ![![1, 0], ![2, 0]]
    let b : Vec ℝ 2 := Vec.ofFn ![1, 2]
    let A' : Mat ℝ 1 2 := Mat.ofFn ![![3, 0]]
    let b' : Vec ℝ 1 := Vec.ofFn ![3]
    G.toMatrix.PosSemidef ∧ (∃ z, A.mulVec z = b) ∧ (∀ z, A.mulVec z = b ↔ A'.mulVec z = b') ∧
      (Problem.mk G c A b).RanksDecided Factorizations.exact ∧
      (Problem.mk G c A' b').RanksDecided Factorizations.exact ∧
      ∃ o o', A.mulVec o.x = b ∧ o'.path = o.path ∧ o'.x = o.x ∧ o'.cost = o.cost ∧
        ∀ checks, ((Problem.mk G c A b).solve Factorizations.exact checks).result = .ok o ∧
          ((Problem.mk G c A' b').solve Factorizations.exact checks).result = .ok o' := by
  intro G c A b A' b'
  have hC := Factorizations.exact_exactCholesky
  have hQ := Factorizations.exact_exactPivotedQR
  have hg := Factorizations.exact_greedyPivotedQR
  have hS := Factorizations.exact_exactSVD
  have hfixed : ∀ z, A.mulVec z = b ↔ z 0 = 1 := by
    intro z
    rw [← Vec.coe_injective.eq_iff, funext_iff, Fin.forall_fin_two]
    simp [A, b, Scalar.sum_eq, Fin.sum_univ_two]
  have hfixed' : ∀ z, A'.mulVec z = b' ↔ z 0 = 1 := by
    intro z
    rw [← Vec.coe_injective.eq_iff, funext_iff, Fin.forall_fin_one]
    simp [A', b', Scalar.sum_eq, Fin.sum_univ_two]
  have hfeas : ∃ z, A.mulVec z = b := ⟨Vec.ofFn ![1, 0], (hfixed _).mpr (Vec.get_ofFn _ 0)⟩
  have hsame : ∀ z, A.mulVec z = b ↔ A'.mulVec z = b' := fun z => by rw [hfixed, hfixed']
  have hP : (Problem.mk G c A b).RanksDecided Factorizations.exact :=
    { rows := rowsDecided_double hQ hg b
      schur := schurDecided_of_parallel hQ rowsAlong_double.parallel
      system := fun _ => systemDecided_double hQ hg hS (.inl rfl) b }
  have halong : A'.RowsAlong ![1, 0] := rowsAlong_single three_pos
  have hc : (defaultCutoff 1 2 : ℝ) < 1 := defaultCutoff_lt_one (by norm_num)
  have hP' : (Problem.mk G c A' b').RanksDecided Factorizations.exact :=
    { rows := rowsDecided_of_parallel hQ hg halong.parallel (halong.toMatrix_ne_zero 0) hc
      schur := schurDecided_of_parallel hQ halong.parallel
      system := fun _ => systemDecided_of_rowsAlong hQ hg halong one_pos hc
        (kktMatrix_fixed_keepsNonzero hS (.inl rfl)) }
  exact ⟨posSemidef_fixed, hfeas, hsame, hP, hP',
    Problem.solve_depends_on_solutions hC hQ hS posSemidef_fixed c hfeas hsame hP hP'⟩

end QuadraticProgram
