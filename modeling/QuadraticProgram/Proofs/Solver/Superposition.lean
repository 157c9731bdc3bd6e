import QuadraticProgram.Proofs.Kkt.System
import QuadraticProgram.Proofs.LeastSquares.Linear
import QuadraticProgram.Proofs.Solver.Execution

/-! # Gradients and targets enter linearly

For a fixed Hessian and fixed constraint rows, gradient and target never decide which path is taken,
which rows are kept, how many pivots or singular values count, or whether a solver fails. So
outcomes for combined data are combinations of outcomes, also where rows depend on each other or
contradict each other and where no optimality conditions hold.
-/

namespace QuadraticProgram

variable {n m k : ℕ}

section RangeSpace

/-- The right-hand side of the Schur complement is linear in gradient and target together. -/
theorem isLinearMap_schurTarget (L : Mat ℝ n n) (R : Mat ℝ k n) :
    IsLinearMap ℝ fun p : Vec ℝ n × Vec ℝ k => schurTarget L p.1 R p.2 := by
  apply Vec.isLinearMap_of_apply
  intro i
  simp only [schurTarget, Vec.get_ofFn, Vec.dot_eq]
  constructor
  · intro p q
    change _ ⬝ᵥ (p.1 + q.1).get + (p.2 + q.2) i = _
    rw [Vec.add_apply, show (p.1 + q.1).get = p.1.get + q.1.get from Vec.coe_add _ _,
      dotProduct_add]
    ring
  · intro a p
    change _ ⬝ᵥ (a • p.1).get + (a • p.2) i = _
    rw [Vec.smul_apply, Vec.coe_smul, dotProduct_smul, smul_eq_mul, smul_eq_mul]
    ring

/-- Multipliers are scaled back and spread over the rows linearly. -/
theorem isLinearMap_spread (rows : Vec (Fin m) k) (scales : Vec ℝ m) :
    IsLinearMap ℝ fun y : Vec ℝ k => Vec.scatter rows (y.div (scales.select rows)) :=
  isLinearMap_comp (Vec.isLinearMap_scatter rows) (Vec.isLinearMap_div _)

/-- The point that belongs to multipliers is linear in gradient and multipliers together. -/
theorem isLinearMap_substitute_sub (L : Mat ℝ n n) (A : Mat ℝ m n) :
    IsLinearMap ℝ fun p : Vec ℝ n × Vec ℝ m => substitute L ((A.transposeMulVec p.2).sub p.1) := by
  refine isLinearMap_comp (isLinearMap_substitute L) (isLinearMap_sub ?_ isLinearMap_fst)
  exact isLinearMap_comp (Vec.isLinearMap_of_mulVec _ A.coe_transposeMulVec) isLinearMap_snd

/-- Gradient and target with the target reduced to the rows kept. -/
theorem isLinearMap_reducedData (A : Mat ℝ m n) (kept : List (Fin m)) :
    IsLinearMap ℝ fun d : Vec ℝ n × Vec ℝ m =>
      (d.1, (d.2.div (rowScales A)).select (positions kept)) := by
  have hscaled := isLinearMap_comp (Vec.isLinearMap_div (rowScales A))
    (isLinearMap_snd (V := Vec ℝ n))
  have htarget := isLinearMap_comp (Vec.isLinearMap_select (positions kept)) hscaled
  exact isLinearMap_prod isLinearMap_fst htarget

/-- The range-space solver is linear in gradient and target together. -/
theorem linearRun_solveRangeSpace (F : Factorizations ℝ) (L : Mat ℝ n n) (A : Mat ℝ m n) :
    LinearRun fun d : Vec ℝ n × Vec ℝ m =>
      (solveRangeSpace F L d.1 A d.2).map fun s => (s.x, s.y) := by
  obtain ⟨kept, -, hred⟩ := exists_keeping F A
  -- the rows kept, and with them the Schur complement, are the same for every target
  let R := (scaleRows A (rowScales A)).selectRows (positions kept)
  have hleast := (linearRun_pivotedLeastSquares F (schurComplement L R) none).comp
    (isLinearMap_comp (isLinearMap_schurTarget L R) (isLinearMap_reducedData A kept))
  let spread := fun y : Vec ℝ kept.length =>
    Vec.scatter (positions kept) (y.div ((rowScales A).select (positions kept)))
  have hspread := isLinearMap_comp (isLinearMap_spread (positions kept) (rowScales A))
    (isLinearMap_snd (V := Vec ℝ n × Vec ℝ m))
  have hpoint := isLinearMap_comp (isLinearMap_substitute_sub L A)
    (isLinearMap_prod (isLinearMap_comp isLinearMap_fst isLinearMap_fst) hspread)
  refine (hleast.map (f := fun d y =>
    (substitute L ((A.transposeMulVec (spread y)).sub d.1), spread y))
    (isLinearMap_prod hpoint hspread)).congr fun d => ?_
  rw [solveRangeSpace_eq_map L d.1 (hred d.2)]
  dsimp only [Reduced.keeping, Reduced.spread]
  cases pivotedLeastSquares F (schurComplement L R)
      (schurTarget L d.1 R ((d.2.div (rowScales A)).select (positions kept))) none with
  | error e => rfl
  | ok y => rfl

end RangeSpace

section FullSystem

theorem isLinearMap_kktTarget :
    IsLinearMap ℝ fun p : Vec ℝ n × Vec ℝ k => kktTarget p.1 p.2 :=
  Vec.isLinearMap_append (-LinearMap.fst ℝ (Vec ℝ n) (Vec ℝ k)).isLinear isLinearMap_snd

theorem isLinearMap_first : IsLinearMap ℝ fun z : Vec ℝ (n + k) => z.first := by
  apply Vec.isLinearMap_of_apply
  intro i
  simp only [Vec.get_first]
  exact Vec.isLinearMap_apply isLinearMap_id (i.castAdd k)

/-- The full-system solver is linear in gradient and target together. -/
theorem linearRun_solveFullSystem (F : Factorizations ℝ) (G : Mat ℝ n n) (A : Mat ℝ m n) :
    LinearRun fun d : Vec ℝ n × Vec ℝ m => solveFullSystem F G d.1 A d.2 := by
  obtain ⟨kept, -, hred⟩ := exists_keeping F A
  have hleast := (linearRun_truncatedLeastSquares F (kktMatrix G
    ((scaleRows A (rowScales A)).selectRows (positions kept))) none).comp
    (isLinearMap_comp isLinearMap_kktTarget (isLinearMap_reducedData A kept))
  have hfirst := isLinearMap_comp (isLinearMap_first (n := n) (k := kept.length))
    (isLinearMap_snd (V := Vec ℝ n × Vec ℝ m))
  refine (hleast.map (f := fun _ z => z.first) hfirst).congr fun d => ?_
  rw [solveFullSystem_eq_map G d.1 (hred d.2)]

end FullSystem

/-- Point and multipliers as a candidate. Multipliers are kept on the range-space path only. -/
def candidateOn (path : KktPath) (w : Vec ℝ n × Vec ℝ m) : Candidate ℝ n m :=
  ⟨path, w.1, if path = .rangeSpace then some w.2 else none⟩

section Superposition

variable (F : Factorizations ℝ) (G : Mat ℝ n n) (A : Mat ℝ m n)

/-- The path depends on the Hessian alone, and on either path the candidate is made by a linear run
on gradient and target. -/
theorem findCandidate_linear : ∃ run : Vec ℝ n × Vec ℝ m → Except (Fault ℝ) (Vec ℝ n × Vec ℝ m),
    LinearRun run ∧ ∀ c b,
      (findCandidate F ⟨G, c, A, b⟩).result = (run (c, b)).map (candidateOn (chosenPath F G)) := by
  by_cases hn : n = 0
  · have hpath : chosenPath F G = .rangeSpace := if_pos (.inl hn)
    refine ⟨fun _ => .ok 0, .ok (0 : Vec ℝ n × Vec ℝ m →ₗ[ℝ] Vec ℝ n × Vec ℝ m).isLinear,
      fun c b => ?_⟩
    rw [findCandidate_of_no_variables F _ hn, hpath]
    rfl
  · cases hL : F.cholesky G with
    | some L =>
      have hpath : chosenPath F G = .rangeSpace := by simp [chosenPath, hL]
      refine ⟨fun d => (solveRangeSpace F L d.1 A d.2).map fun s => (s.x, s.y),
        linearRun_solveRangeSpace F L A, fun c b => ?_⟩
      rw [findCandidate_of_factor hn hL, hpath]
      dsimp only
      cases solveRangeSpace F L c A b with
      | error e => rfl
      | ok s => rfl
    | none =>
      have hpath : chosenPath F G = .fullSystem := by simp [chosenPath, hn, hL]
      have hpoint := isLinearMap_comp (LinearMap.inl ℝ (Vec ℝ n) (Vec ℝ m)).isLinear
        (isLinearMap_snd (V := Vec ℝ n × Vec ℝ m))
      refine ⟨fun d => (solveFullSystem F G d.1 A d.2).map fun x => (x, 0),
        (linearRun_solveFullSystem F G A).map (f := fun _ x => (x, 0)) hpoint, fun c b => ?_⟩
      rw [findCandidate_of_no_factor hn hL, hpath]
      dsimp only
      cases solveFullSystem F G c A b with
      | error e => rfl
      | ok x => rfl

variable {F}

/-- With exact pivoted factorizations a candidate is always found. -/
theorem exists_candidate (hQ : F.ExactPivotedQR) (P : Problem ℝ n m) :
    ∃ a, (findCandidate F P).result = .ok a := by
  by_cases hn : n = 0
  · exact ⟨_, findCandidate_of_no_variables F P hn⟩
  · obtain ⟨red, hred⟩ := reduceConstraints_eq_ok F P.matrix P.target
    cases hL : F.cholesky P.hessian with
    | some L =>
      obtain ⟨y, -, hs⟩ := solveRangeSpace_eq hQ L P.gradient hred
      rw [findCandidate_of_factor hn hL, hs]
      exact ⟨_, rfl⟩
    | none =>
      obtain ⟨z, hz⟩ := exists_truncatedLeastSquares F (kktMatrix P.hessian red.matrix)
        (kktTarget P.gradient red.target) none
      rw [findCandidate_of_no_factor hn hL, solveFullSystem_of_leastSquares hred hz]
      exact ⟨_, rfl⟩

end Superposition

/-- For the same Hessian and the same constraint rows, the solve for a combination of gradients and
targets takes the same path as the solves for the data combined, and its point and, on the
range-space path, its multipliers are the same combination of theirs. Only a factorization that is
not exact can make a solver fail, and then all three fail for the same reason. Cutoffs, dependent or
contradictory rows and unsolvable optimality conditions make no difference. -/
theorem Problem.solve_superposition (F : Factorizations ℝ) (G : Mat ℝ n n) (A : Mat ℝ m n)
    (c₁ c₂ : Vec ℝ n) (b₁ b₂ : Vec ℝ m) (s t : ℝ) :
    let P₁ : Problem ℝ n m := ⟨G, c₁, A, b₁⟩
    let P₂ : Problem ℝ n m := ⟨G, c₂, A, b₂⟩
    let P : Problem ℝ n m := ⟨G, s • c₁ + t • c₂, A, s • b₁ + t • b₂⟩
    (F.ExactPivotedQR → ∃ o, P.HasOutcome F o) ∧
    ((∃ e, (P₁.solve F false).result = .error e ∧ (P₂.solve F false).result = .error e ∧
        (P.solve F false).result = .error e) ∨
      ∃ o₁ o₂ o, P₁.HasOutcome F o₁ ∧ P₂.HasOutcome F o₂ ∧ P.HasOutcome F o ∧
        o.path = o₁.path ∧ o.path = o₂.path ∧ o.x = s • o₁.x + t • o₂.x ∧
        (o.path = .rangeSpace → ∃ y₁ y₂, o₁.multipliers = some y₁ ∧ o₂.multipliers = some y₂ ∧
          o.multipliers = some (s • y₁ + t • y₂))) := by
  intro P₁ P₂ P
  constructor
  · intro hQ
    obtain ⟨a, ha⟩ := exists_candidate hQ P
    exact ⟨_, hasOutcome_of_candidate ha⟩
  obtain ⟨run, hrun, hfind⟩ := findCandidate_linear F G A
  have hP₁ := hfind c₁ b₁
  have hP₂ := hfind c₂ b₂
  have hP := hfind (s • c₁ + t • c₂) (s • b₁ + t • b₂)
  rcases hrun.superpose s t (c₁, b₁) (c₂, b₂) with ⟨e, h₁, h₂, h⟩ | ⟨w₁, w₂, h₁, h₂, h⟩
  · left
    rw [h₁] at hP₁
    rw [h₂] at hP₂
    refine ⟨e, solve_of_no_candidate hP₁, solve_of_no_candidate hP₂, solve_of_no_candidate ?_⟩
    exact hP.trans (congrArg _ h)
  · right
    rw [h₁] at hP₁
    rw [h₂] at hP₂
    refine ⟨_, _, _, hasOutcome_of_candidate hP₁, hasOutcome_of_candidate hP₂,
      hasOutcome_of_candidate (hP.trans (congrArg _ h)), rfl, rfl, rfl, fun hpath => ?_⟩
    exact ⟨w₁.2, w₂.2, if_pos hpath, if_pos hpath, if_pos hpath⟩

/-- Constraints that contradict each other, with a Hessian that is not symmetric. -/
theorem Problem.solve_superposed_contradictory :
    let G : Mat ℝ 2 2 := Mat.ofFn ![![2, 7], ![0, 2]]
    let A : Mat ℝ 2 2 := Mat.ofFn ![![1, 0], ![2, 0]]
    let P₁ : Problem ℝ 2 2 := ⟨G, Vec.ofFn ![1, -1], A, Vec.ofFn ![1, 3]⟩
    let P₂ : Problem ℝ 2 2 := ⟨G, Vec.ofFn ![0, 1], A, Vec.ofFn ![0, 2]⟩
    let P : Problem ℝ 2 2 := ⟨G, Vec.ofFn ![2, -5], A, Vec.ofFn ![2, 0]⟩
    ∃ o₁ o₂ o, P₁.HasOutcome Factorizations.exact o₁ ∧ P₂.HasOutcome Factorizations.exact o₂ ∧
      P.HasOutcome Factorizations.exact o ∧ o.path = o₁.path ∧ o.path = o₂.path ∧
      o.x = (2 : ℝ) • o₁.x + (-3 : ℝ) • o₂.x ∧
      (o.path = .rangeSpace → ∃ y₁ y₂, o₁.multipliers = some y₁ ∧ o₂.multipliers = some y₂ ∧
        o.multipliers = some ((2 : ℝ) • y₁ + (-3 : ℝ) • y₂)) := by
  intro G A P₁ P₂ P
  have hc : (2 : ℝ) • (Vec.ofFn ![1, -1] : Vec ℝ 2) + (-3 : ℝ) • (Vec.ofFn ![0, 1] : Vec ℝ 2) =
      Vec.ofFn ![2, -5] := by
    apply Vec.ext_get
    intro i
    fin_cases i <;> norm_num
  have hb : (2 : ℝ) • (Vec.ofFn ![1, 3] : Vec ℝ 2) + (-3 : ℝ) • (Vec.ofFn ![0, 2] : Vec ℝ 2) =
      Vec.ofFn ![2, 0] := by
    apply Vec.ext_get
    intro i
    fin_cases i <;> norm_num
  obtain ⟨hok, hcases⟩ := solve_superposition Factorizations.exact G A (Vec.ofFn ![1, -1])
    (Vec.ofFn ![0, 1]) (Vec.ofFn ![1, 3]) (Vec.ofFn ![0, 2]) 2 (-3)
  rw [hc, hb] at hok hcases
  rcases hcases with ⟨e, -, -, he⟩ | ⟨o₁, o₂, o, hsolved⟩
  · obtain ⟨o, ho, -⟩ := hok Factorizations.exact_exactPivotedQR
    rw [he] at ho
    cases ho
  · exact ⟨o₁, o₂, o, hsolved⟩

end QuadraticProgram
