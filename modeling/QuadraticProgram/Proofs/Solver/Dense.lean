import QuadraticProgram.Proofs.Solver.Execution

/-! # Solving dense problems with a positive definite Hessian

A positive definite Hessian has a factor, so the candidate is the range-space point. If no rank
decision discards anything, that is the only minimizer.
-/

namespace QuadraticProgram
open Matrix

variable {n m : ℕ}

/-- Without constraints the solution is the stationary point of the lower triangle. -/
theorem findCandidate_unconstrained {F : Factorizations ℝ} (hF : F.ExactCholesky)
    {P : Problem ℝ n 0} (hn : n ≠ 0) (hG : P.hessian.symmetrized.toMatrix.PosDef) {x : Vec ℝ n}
    (hx : P.hessian.symmetrized.toMatrix *ᵥ x.get = -P.gradient.get) :
    (findCandidate F P).result = .ok ⟨.rangeSpace, x, some Vec.zero⟩ := by
  obtain ⟨L, hL⟩ := hF.exists_factor hG
  have hpoint : substitute L P.gradient.neg = x := by
    apply Vec.coe_injective
    apply mulVec_injective_of_isUnit hG.isUnit
    rw [mulVec_substitute (fun i => (hF.diag_pos hL i).ne') (hF.product hL), hx, Vec.coe_neg]
  rw [findCandidate_of_factor hn hL, solveRangeSpace, if_pos rfl, factorSolve_eq, hpoint]
  rfl

/-- For a positive definite Hessian and constraints that have a solution the candidate is the only
minimizer, unless a rank decision discards too much. -/
theorem findCandidate_minimal {F : Factorizations ℝ} (hC : F.ExactCholesky)
    (hQ : F.ExactPivotedQR) {P : Problem ℝ n m} (hG : P.hessian.toMatrix.PosDef)
    {z₀ : Vec ℝ n} (hfeas : P.matrix.mulVec z₀ = P.target)
    (hrows : RowsDecided F P.matrix P.target)
    (hschur : SchurDecided F P.hessian P.matrix P.target) :
    ∃ s, (findCandidate F P).result = .ok s ∧ P.matrix.mulVec s.x = P.target ∧
      ∀ z, P.matrix.mulVec z = P.target → z ≠ s.x →
        quadraticCost P.hessian P.gradient s.x < quadraticCost P.hessian P.gradient z := by
  have hsub : n = 0 → ∀ x z : Vec ℝ n, x = z := by
    rintro rfl x z
    exact Vec.ext_get fun i => i.elim0
  by_cases hn : n = 0
  · refine ⟨_, findCandidate_of_no_variables F P hn, ?_, ?_⟩
    · rw [hsub hn Vec.zero z₀, hfeas]
    · exact fun z _ hne => absurd (hsub hn _ _) hne
  · have hsymm : P.hessian.symmetrized = P.hessian :=
      Mat.symmetrized_of_isSymm (isHermitian_iff_isSymm.mp hG.isHermitian)
    have hG' : P.hessian.symmetrized.toMatrix.PosDef := hsymm.symm ▸ hG
    obtain ⟨L, red, s, y, hL, hred, hs, -, hstat, ht⟩ :=
      solveRangeSpace_spec hC hQ hG' P.gradient P.matrix P.target
    have ht := ht (hschur.rank_eq hC hQ hG' hL hred)
    have hof := reduceConstraints_of hred
    have hmeets := hof.meets_iff_of_spans (hrows red hred) hfeas
    rw [hsymm] at hstat
    refine ⟨⟨.rangeSpace, s.x, some s.y⟩, ?_, (hmeets s.x).mpr ht, fun z hz hne => ?_⟩
    · rw [findCandidate_of_factor hn hL, hs]
      rfl
    · rw [quadraticCost_eq, quadraticCost_eq]
      refine objective_lt_of_stationary hG hstat ?_ fun h => hne (Vec.coe_injective h)
      rw [ht, (hmeets z).mp hz]

end QuadraticProgram
