import QuadraticProgram.Proofs.Kkt.RangeSpace
import QuadraticProgram.Proofs.Solver.Logged

/-! # What a solve returns and reports

The Hessian decides between two ways to find a candidate. The checks may refuse a problem or its
outcome and change nothing else; they never refuse a symmetric problem for a candidate that meets
the constraints, and no such candidate is reported to miss them.
-/

namespace QuadraticProgram
open Matrix

variable {n m : ℕ}

section Checks

section Refusal

variable {α : Type} [Scalar α]

theorem assertSymmetric_eq_ok_iff {G : Mat α n n} {t : α} :
    assertSymmetric G (.real t) = .ok () ↔ isSymmetric G t = true := by
  unfold assertSymmetric
  split
  · exact iff_of_true rfl ‹_›
  · exact iff_of_false nofun ‹_›

theorem assertWithin_real (r t : α) : assertWithin r (.real t) =
    if r ≤ t then .ok () else .error (.infeasible r (.real t)) := by
  by_cases h : r ≤ t
  · rw [if_pos h]
    exact if_pos (decide_eq_true h)
  · rw [if_neg h]
    exact if_neg fun hadmits => h (of_decide_eq_true hadmits)

theorem assertWithin_eq_ok_iff {r t : α} : assertWithin r (.real t) = .ok () ↔ r ≤ t := by
  rw [assertWithin_real]
  split
  · exact iff_of_true rfl ‹_›
  · exact iff_of_false nofun ‹_›

end Refusal

theorem asymmetry_eq_zero {G : Mat ℝ n n} (hG : G.toMatrix.IsSymm) : asymmetry G = 0 := by
  have hrow : ∀ i, Vec.maxAbs (Vec.ofFn fun j => G i j - G j i) = (0 : ℝ) := by
    intro i
    have hzero : (Vec.ofFn fun j => G i j - G j i).get = fun _ => (0 : ℝ) := by
      funext j
      rw [Vec.get_ofFn]
      exact sub_eq_zero.mpr (hG.apply i j).symm
    rw [Vec.maxAbs, hzero, Scalar.maxAbs_zero]
  simp only [asymmetry, hrow, Scalar.maxAbs_zero]

theorem assertSymmetric_eq_ok {G : Mat ℝ n n} (hG : G.toMatrix.IsSymm) {t : ℝ} (ht : 0 ≤ t) :
    assertSymmetric G (.real t) = .ok () := by
  have hle : decide (asymmetry G ≤ t) = true := decide_eq_true ((asymmetry_eq_zero hG).trans_le ht)
  rw [assertSymmetric_eq_ok_iff, isSymmetric, hle]
  exact Bool.or_true _

theorem residualTolerance_nonneg (b : Vec ℝ m) : 0 ≤ residualTolerance b := by
  have hshare : (0 : ℝ) ≤ feasibilityTolerance := by
    rw [feasibilityTolerance, Scalar.ratio_eq]
    positivity
  have hscale : (0 : ℝ) ≤ Scalar.larger 1 b.maxAbs := by
    rw [Scalar.larger_eq_max]
    exact le_max_of_le_left zero_le_one
  exact mul_nonneg hshare hscale

theorem constraintResidual_nonpos {A : Mat ℝ m n} {b : Vec ℝ m} {x : Vec ℝ n}
    (h : A.mulVec x = b) : constraintResidual A b x ≤ 0 := by
  rw [constraintResidual, Vec.maxAbs_le_iff _ le_rfl]
  intro i
  rw [h, Vec.coe_sub, sub_self]
  simp

theorem assertSymmetric_hessian {G : Mat ℝ n n} (hG : G.toMatrix.IsSymm) :
    assertSymmetric G (.real symmetryTolerance) = .ok () := by
  apply assertSymmetric_eq_ok hG
  rw [symmetryTolerance, Scalar.ratio_eq]
  positivity

theorem constraintResidual_le_tolerance {A : Mat ℝ m n} {b : Vec ℝ m} {x : Vec ℝ n}
    (h : A.mulVec x = b) : constraintResidual A b x ≤ residualTolerance b :=
  (constraintResidual_nonpos h).trans (residualTolerance_nonneg b)

theorem assertWithin_eq_ok {A : Mat ℝ m n} {b : Vec ℝ m} {x : Vec ℝ n} (h : A.mulVec x = b) :
    assertWithin (constraintResidual A b x) (.real (residualTolerance b)) = .ok () :=
  assertWithin_eq_ok_iff.mpr (constraintResidual_le_tolerance h)

end Checks

section Conclusion

variable {α : Type} [Scalar α]

/-- The warning about a residual beyond the tolerance. -/
def missedEvents (residual tolerance : α) : List (Event α) :=
  if tolerance < residual then [.constraintsMissed residual tolerance] else []

theorem mem_missedEvents_iff {residual tolerance : α} {e : Event α} :
    e ∈ missedEvents residual tolerance ↔
      tolerance < residual ∧ e = .constraintsMissed residual tolerance := by
  rw [missedEvents]
  split
  · simp [*]
  · simp [*]

/-- What becomes of a candidate. Its outcome and the warning are the same with and without checks;
these add a report of the residuals and may refuse the outcome. -/
theorem concludeCandidate_cases (P : Problem α n m) (s : Candidate α n m) :
    ∃ o : Outcome α n m, o.primalResidual = constraintResidual P.matrix P.target s.x ∧
      concludeCandidate false P s =
        ⟨missedEvents o.primalResidual (residualTolerance P.target), .ok o⟩ ∧
      concludeCandidate true P s =
        ⟨missedEvents o.primalResidual (residualTolerance P.target) ++
            [.residuals o.path ⟨o.primalResidual, o.dualResidual⟩],
          (assertWithin o.primalResidual (.real (residualTolerance P.target))).map fun _ => o⟩ := by
  let o : Outcome α n m :=
    { x := s.x
      cost := quadraticCost P.hessian P.gradient s.x
      path := s.path
      multipliers := s.multipliers
      primalResidual := constraintResidual P.matrix P.target s.x
      dualResidual := s.multipliers.map (stationarityResidual P.hessian P.gradient P.matrix s.x) }
  have hconclude (checks : Bool) : concludeCandidate checks P s = (do
      if residualTolerance P.target < o.primalResidual then
        Logged.report (.constraintsMissed o.primalResidual (residualTolerance P.target))
      if checks then
        Logged.report (.residuals o.path ⟨o.primalResidual, o.dualResidual⟩)
        Logged.ofExcept (assertWithin o.primalResidual (.real (residualTolerance P.target)))
      pure o) := rfl
  refine ⟨o, rfl, ?_⟩
  rw [hconclude, hconclude, missedEvents]
  by_cases hmissed : residualTolerance P.target < o.primalResidual
  · simp only [if_pos hmissed, if_pos, Logged.report_bind, Logged.ofExcept_bind_pure]
    exact ⟨rfl, rfl⟩
  · simp only [if_neg hmissed, if_pos, Logged.report_bind, Logged.ofExcept_bind_pure]
    exact ⟨rfl, rfl⟩

end Conclusion

/-- The outcome that a candidate becomes unless the checks refuse it. -/
noncomputable def Candidate.outcome (s : Candidate ℝ n m) (P : Problem ℝ n m) : Outcome ℝ n m where
  x := s.x
  cost := quadraticCost P.hessian P.gradient s.x
  path := s.path
  multipliers := s.multipliers
  primalResidual := constraintResidual P.matrix P.target s.x
  dualResidual := s.multipliers.map (stationarityResidual P.hessian P.gradient P.matrix s.x)

theorem concludeCandidate_result (checks : Bool) (P : Problem ℝ n m) (s : Candidate ℝ n m) :
    (concludeCandidate checks P s).result = (do
      if checks then
        assertWithin (constraintResidual P.matrix P.target s.x) (.real (residualTolerance P.target))
      .ok (s.outcome P)) := by
  unfold concludeCandidate
  dsimp only [kktResiduals]
  cases checks with
  | false => split <;> rfl
  | true =>
    split
    · simp only [if_pos, Logged.result_bind, Logged.result_ofExcept]
      rfl
    · simp only [if_pos, Logged.result_bind, Logged.result_ofExcept]
      rfl

/-- The checks may refuse a problem or its outcome, and change nothing else. -/
theorem Problem.solve_result (F : Factorizations ℝ) (checks : Bool) (P : Problem ℝ n m) :
    (P.solve F checks).result = (do
      if checks then assertSymmetric P.hessian (.real symmetryTolerance)
      let s ← (findCandidate F P).result
      if checks then
        assertWithin (constraintResidual P.matrix P.target s.x) (.real (residualTolerance P.target))
      .ok (s.outcome P)) := by
  unfold Problem.solve
  cases checks with
  | false =>
    simp only [Bool.false_eq_true, if_false]
    change (findCandidate F P >>= concludeCandidate false P).result = _
    rw [Logged.result_bind, funext (concludeCandidate_result false P)]
    rfl
  | true =>
    simp only [if_pos, Logged.result_bind, Logged.result_ofExcept]
    rw [funext (concludeCandidate_result true P)]
    rfl

/-- Without checks every candidate is accepted. -/
theorem Problem.solve_unchecked_of_candidate {F : Factorizations ℝ} {P : Problem ℝ n m}
    {s : Candidate ℝ n m} (hs : (findCandidate F P).result = .ok s) :
    (P.solve F false).result = .ok (s.outcome P) := by
  rw [Problem.solve_result, hs]
  rfl

/-- With checks on, the candidate of a symmetric problem still has to meet the constraints. -/
theorem Problem.solve_checked_of_candidate {F : Factorizations ℝ} {P : Problem ℝ n m}
    (hG : P.hessian.toMatrix.IsSymm) {s : Candidate ℝ n m}
    (hs : (findCandidate F P).result = .ok s) :
    (P.solve F true).result = (do
      assertWithin (constraintResidual P.matrix P.target s.x) (.real (residualTolerance P.target))
      .ok (s.outcome P)) := by
  rw [Problem.solve_result, if_pos rfl, assertSymmetric_hessian hG, hs]
  rfl

/-- With or without checks, a candidate that meets the constraints is accepted. -/
theorem Problem.solve_eq_ok (checks : Bool) {F : Factorizations ℝ} {P : Problem ℝ n m}
    (hG : P.hessian.toMatrix.IsSymm) {s : Candidate ℝ n m}
    (hs : (findCandidate F P).result = .ok s) (h : P.matrix.mulVec s.x = P.target) :
    (P.solve F checks).result = .ok (s.outcome P) := by
  cases checks with
  | false => exact solve_unchecked_of_candidate hs
  | true =>
    rw [solve_checked_of_candidate hG hs, assertWithin_eq_ok h]
    rfl

/-- What passes the checks comes from a candidate that misses the constraints by no more than the
tolerance. -/
theorem Problem.exists_candidate_of_checked {F : Factorizations ℝ} {P : Problem ℝ n m}
    {o : Outcome ℝ n m} (h : (P.solve F true).result = .ok o) :
    ∃ s, (findCandidate F P).result = .ok s ∧ s.outcome P = o ∧
      constraintResidual P.matrix P.target s.x ≤ residualTolerance P.target := by
  rw [Problem.solve_result, if_pos rfl] at h
  obtain ⟨_, -, h⟩ := bind_eq_ok h
  obtain ⟨s, hs, h⟩ := bind_eq_ok h
  rw [if_pos rfl] at h
  obtain ⟨_, hwithin, h⟩ := bind_eq_ok h
  exact ⟨s, hs, Except.ok.inj h, assertWithin_eq_ok_iff.mp hwithin⟩

/-- What passes the checks is what is returned without them. -/
theorem Problem.solve_unchecked_of_checked {F : Factorizations ℝ} {P : Problem ℝ n m}
    {o : Outcome ℝ n m} (h : (P.solve F true).result = .ok o) :
    (P.solve F false).result = .ok o := by
  obtain ⟨s, hs, rfl, -⟩ := exists_candidate_of_checked h
  exact solve_unchecked_of_candidate hs

/-- The outcome of a solve. The checks may refuse it and change nothing. -/
def Problem.HasOutcome (F : Factorizations ℝ) (P : Problem ℝ n m) (o : Outcome ℝ n m) : Prop :=
  (P.solve F false).result = .ok o ∧ ∀ u, (P.solve F true).result = .ok u → u = o

theorem Problem.hasOutcome_of_candidate {F : Factorizations ℝ} {P : Problem ℝ n m}
    {s : Candidate ℝ n m} (hs : (findCandidate F P).result = .ok s) :
    P.HasOutcome F (s.outcome P) := by
  refine ⟨solve_unchecked_of_candidate hs, fun u hu => ?_⟩
  exact Except.ok.inj ((solve_unchecked_of_checked hu).symm.trans (solve_unchecked_of_candidate hs))

/-- Without a candidate there is no outcome. -/
theorem Problem.solve_of_no_candidate {F : Factorizations ℝ} {P : Problem ℝ n m} {e : Fault ℝ}
    (he : (findCandidate F P).result = .error e) : (P.solve F false).result = .error e := by
  rw [Problem.solve_result, he]
  rfl

section Finding

/-- Without variables there is one point. -/
theorem findCandidate_of_no_variables (F : Factorizations ℝ) (P : Problem ℝ n m) (hn : n = 0) :
    (findCandidate F P).result = .ok ⟨.rangeSpace, Vec.zero, some Vec.zero⟩ := by
  rw [findCandidate, if_pos hn]
  rfl

/-- A Hessian with a factor is solved by the range-space solver. -/
theorem findCandidate_of_factor {F : Factorizations ℝ} {P : Problem ℝ n m} (hn : n ≠ 0)
    {L : Mat ℝ n n} (hL : F.cholesky P.hessian = some L) :
    (findCandidate F P).result = (solveRangeSpace F L P.gradient P.matrix P.target).map
      fun s => ⟨.rangeSpace, s.x, some s.y⟩ := by
  rw [findCandidate, if_neg hn, choleskyFactor?_eq, hL, Logged.result_bind]
  change ((do
    Logged.report (.positiveDefinite n m)
    let s ← Logged.ofExcept (solveRangeSpace F L P.gradient P.matrix P.target)
    pure (⟨.rangeSpace, s.x, some s.y⟩ : Candidate ℝ n m)) : Logged ℝ _).result = _
  cases solveRangeSpace F L P.gradient P.matrix P.target with
  | error e => rfl
  | ok s => rfl

/-- A Hessian without a factor is solved by the full-system solver. -/
theorem findCandidate_of_no_factor {F : Factorizations ℝ} {P : Problem ℝ n m} (hn : n ≠ 0)
    (hL : F.cholesky P.hessian = none) :
    (findCandidate F P).result = (solveFullSystem F P.hessian P.gradient P.matrix P.target).map
      fun x => ⟨.fullSystem, x, none⟩ := by
  rw [findCandidate, if_neg hn, choleskyFactor?_eq, hL, Logged.result_bind]
  change ((do
    Logged.report (.notPositiveDefinite n m)
    let x ← Logged.ofExcept (solveFullSystem F P.hessian P.gradient P.matrix P.target)
    pure (⟨.fullSystem, x, none⟩ : Candidate ℝ n m)) : Logged ℝ _).result = _
  cases solveFullSystem F P.hessian P.gradient P.matrix P.target with
  | error e => rfl
  | ok x => rfl

/-- The path that a Hessian decides on. -/
noncomputable def chosenPath (F : Factorizations ℝ) (G : Mat ℝ n n) : KktPath :=
  if n = 0 ∨ (F.cholesky G).isSome then .rangeSpace else .fullSystem

/-- What a candidate is: with multipliers on the range-space path, without them on the other. -/
theorem findCandidate_cases {F : Factorizations ℝ} {P : Problem ℝ n m} {s : Candidate ℝ n m}
    (h : (findCandidate F P).result = .ok s) :
    (chosenPath F P.hessian = .rangeSpace ∧ ∃ x y, s = ⟨.rangeSpace, x, some y⟩) ∨
      (chosenPath F P.hessian = .fullSystem ∧ ∃ x, s = ⟨.fullSystem, x, none⟩) := by
  by_cases hn : n = 0
  · rw [findCandidate_of_no_variables F P hn] at h
    obtain rfl := Except.ok.inj h
    exact .inl ⟨if_pos (.inl hn), _, _, rfl⟩
  · cases hL : F.cholesky P.hessian with
    | none =>
      rw [findCandidate_of_no_factor hn hL] at h
      obtain ⟨x, -, rfl⟩ := map_eq_ok h
      exact .inr ⟨by simp [chosenPath, hn, hL], x, rfl⟩
    | some L =>
      rw [findCandidate_of_factor hn hL] at h
      obtain ⟨x, -, rfl⟩ := map_eq_ok h
      exact .inl ⟨by simp [chosenPath, hL], _, _, rfl⟩

theorem findCandidate_path {F : Factorizations ℝ} {P : Problem ℝ n m} {s : Candidate ℝ n m}
    (h : (findCandidate F P).result = .ok s) : s.path = chosenPath F P.hessian := by
  obtain ⟨hpath, x, y, rfl⟩ | ⟨hpath, x, rfl⟩ := findCandidate_cases h
  · exact hpath.symm
  · exact hpath.symm

end Finding

section Reports

/-- Finding a candidate gives no cause for a warning. -/
theorem findCandidate_quiet {α : Type} [Scalar α] (F : Factorizations α) (P : Problem α n m) :
    (findCandidate F P).Quiet := by
  unfold findCandidate
  split
  · exact Logged.quiet_pure _
  · refine (Logged.quiet_ofExcept _).bind fun factor _ => ?_
    cases factor with
    | none =>
      refine (Logged.quiet_report (by nofun)).bind fun _ _ => ?_
      exact (Logged.quiet_ofExcept _).bind fun _ _ => Logged.quiet_pure _
    | some L =>
      refine (Logged.quiet_report (by nofun)).bind fun _ _ => ?_
      exact (Logged.quiet_ofExcept _).bind fun _ _ => Logged.quiet_pure _

/-- A candidate is reported exactly if it misses the constraints by more than the tolerance. -/
theorem concludeCandidate_quiet_iff (checks : Bool) (P : Problem ℝ n m) (s : Candidate ℝ n m) :
    (concludeCandidate checks P s).Quiet ↔
      constraintResidual P.matrix P.target s.x ≤ residualTolerance P.target := by
  obtain ⟨o, hprimal, hplain, hchecked⟩ := concludeCandidate_cases P s
  have hmissed : (∀ e ∈ missedEvents o.primalResidual (residualTolerance P.target),
      e.severity ≠ .warning) ↔ o.primalResidual ≤ residualTolerance P.target := by
    rw [← not_lt]
    refine ⟨fun h hlt => h _ (mem_missedEvents_iff.mpr ⟨hlt, rfl⟩) rfl, fun h e he => ?_⟩
    exact absurd (mem_missedEvents_iff.mp he).1 h
  rw [← hprimal, ← hmissed]
  cases checks with
  | false => rw [hplain, Logged.Quiet]
  | true =>
    rw [hchecked, Logged.Quiet, List.forall_mem_append]
    refine and_iff_left fun e he => ?_
    rw [List.mem_singleton.mp he]
    nofun

/-- A solve whose candidates meet the constraints reports no warning. -/
theorem Problem.solve_quiet (checks : Bool) {F : Factorizations ℝ} {P : Problem ℝ n m}
    (h : ∀ s, (findCandidate F P).result = .ok s → P.matrix.mulVec s.x = P.target) :
    (P.solve F checks).Quiet := by
  have hmain : (findCandidate F P >>= concludeCandidate checks P).Quiet :=
    (findCandidate_quiet F P).bind fun s hs => (concludeCandidate_quiet_iff checks P s).mpr
      (constraintResidual_le_tolerance (h s hs))
  unfold Problem.solve
  cases checks with
  | false => exact hmain
  | true => exact (Logged.quiet_ofExcept _).bind fun _ _ => hmain

/-- A candidate that misses the constraints is reported when there are no checks. -/
theorem Problem.not_quiet_of_tolerance_lt {F : Factorizations ℝ} {P : Problem ℝ n m}
    {s : Candidate ℝ n m} (hs : (findCandidate F P).result = .ok s)
    (hlt : residualTolerance P.target < constraintResidual P.matrix P.target s.x) :
    ¬(P.solve F false).Quiet := by
  intro hquiet
  refine not_lt.mpr ((concludeCandidate_quiet_iff false P s).mp fun e he => hquiet e ?_) hlt
  change e ∈ (findCandidate F P >>= concludeCandidate false P).events
  rw [Logged.bind_of_ok hs]
  exact List.mem_append_right _ he

end Reports

end QuadraticProgram
