import QuadraticProgram.Proofs.Program.Invariant
import QuadraticProgram.Proofs.Solver.Superposition

/-! # Solving fails on shapes only

Once the sizes of the data fit, nothing on the way to an outcome can go wrong: no scale, diagonal
entry or singular value that is divided by is zero, there is a first pivot or singular value
wherever one is compared with, and no more pivots are taken than there are.
-/

namespace QuadraticProgram

section Shapes

variable {α : Type} {G : AnyMat α} {c : AnyVec α} {A : Option (AnyMat α)} {b : AnyVec α}

/-- The Hessian has a row and a column for each entry of the gradient. -/
def HessianFits (G : AnyMat α) (c : AnyVec α) : Prop := G.numRows = c.size ∧ G.numCols = c.size

/-- The constraints, if there are any, have a column for each entry of the gradient and a row for
each target. -/
def ConstraintsFit (A : Option (AnyMat α)) (b c : AnyVec α) : Prop :=
  ∀ M ∈ A, M.numCols = c.size ∧ b.size = M.numRows

theorem constraintsFit_some {M : AnyMat α} (h : M.numCols = c.size ∧ b.size = M.numRows) :
    ConstraintsFit (some M) b c := by
  rintro _ ⟨⟩
  exact h

/-- How many constraints there are. -/
def constraintCount (A : Option (AnyMat α)) : ℕ := A.elim 0 AnyMat.numRows

variable [Scalar α]

/-- Reading a problem from a matrix and a vector and, maybe, constraints. -/
def readArrays (G : AnyMat α) (c : AnyVec α) (A : Option (AnyMat α)) (b : AnyVec α) :
    Except (Fault α) (AnyProblem α) :=
  AnyProblem.read (NDArray.ofMat G.entries) (NDArray.ofVec c.entries)
    (A.map fun M => NDArray.ofMat M.entries) (NDArray.ofVec b.entries)

theorem readArrays_of_not_hessianFits (hG : ¬HessianFits G c) :
    readArrays G c A b = .error .hessianShape := by
  rw [readArrays, AnyProblem.read, readVec_ofVec, readMat_ofMat]
  exact dif_neg hG

theorem readArrays_of_not_constraintsFit (hG : HessianFits G c) {M : AnyMat α}
    (hM : ¬(M.numCols = c.size ∧ b.size = M.numRows)) :
    readArrays G c (some M) b = .error (.constraintShape M.shape b.shape c.size) := by
  obtain ⟨p, q, G⟩ := G
  obtain ⟨n, c⟩ := c
  obtain ⟨rfl, rfl⟩ : p = n ∧ q = n := hG
  rw [readArrays, AnyProblem.read, readVec_ofVec, readMat_ofMat]
  change (if hG : q = q ∧ q = q then _ else _) = _
  rw [dif_pos ⟨rfl, rfl⟩]
  change readMat (NDArray.ofMat M.entries) >>= _ = _
  rw [readMat_ofMat, readVec_ofVec]
  exact dif_neg hM

theorem exists_readArrays (hG : HessianFits G c) (hA : ConstraintsFit A b c) :
    ∃ P : Problem α c.size (constraintCount A), readArrays G c A b = .ok ⟨_, _, P⟩ ∧
      P.hessian = G.entries.cast hG.1 hG.2 := by
  obtain ⟨p, q, G⟩ := G
  obtain ⟨n, c⟩ := c
  obtain ⟨rfl, rfl⟩ : p = n ∧ q = n := hG
  cases A with
  | none =>
    refine ⟨⟨G, c, Mat.zero, Vec.zero⟩, ?_, rfl⟩
    rw [readArrays, AnyProblem.read, readVec_ofVec, readMat_ofMat]
    change (if hG : q = q ∧ q = q then _ else _) = _
    rw [dif_pos ⟨rfl, rfl⟩]
    rfl
  | some M =>
    obtain ⟨k, l, M⟩ := M
    obtain ⟨t, b⟩ := b
    obtain ⟨rfl, rfl⟩ : l = q ∧ t = k := hA _ rfl
    let P : Problem α l t := ⟨G, c, M, b⟩
    exact ⟨P, AnyProblem.read_arrays P, rfl⟩

/-- Reading fails if and only if one of the two checks of the sizes does. -/
theorem readArrays_eq_error_iff :
    (∃ e, readArrays G c A b = .error e) ↔ ¬HessianFits G c ∨ ¬ConstraintsFit A b c := by
  constructor
  · rintro ⟨e, he⟩
    by_contra! h
    obtain ⟨P, hP, -⟩ := exists_readArrays h.1 h.2
    rw [hP] at he
    cases he
  · intro h
    by_cases hG : HessianFits G c
    · obtain ⟨M, hnot⟩ := not_forall.mp (h.resolve_left (not_not.mpr hG))
      obtain ⟨hmem, hM⟩ := Classical.not_imp.mp hnot
      obtain rfl := Option.mem_def.mp hmem
      exact ⟨_, readArrays_of_not_constraintsFit hG hM⟩
    · exact ⟨_, readArrays_of_not_hessianFits hG⟩

end Shapes

variable {n m : ℕ} {F : Factorizations ℝ}

/-- What a rank decision on pivots compares with, takes and divides by. -/
structure PivotedQR.SafeRank (f : PivotedQR ℝ m n) (cutoff : ℝ) : Prop where
  /-- There is a first pivot. -/
  first : 0 < min m n
  /-- No more pivots are taken than there are rows and columns. -/
  rank_le : f.rank cutoff ≤ min m n
  /-- Substitution divides by the diagonal of the leading block. -/
  diag_ne_zero : ∀ i, f.leadingBlock (f.rank cutoff) (f.rank_le cutoff) i i ≠ 0

/-- What the truncated inverse compares with and divides by. -/
structure ThinSVD.SafeInverse (d : ThinSVD ℝ m n) (cutoff : ℝ) : Prop where
  /-- There is a first singular value. -/
  first : 0 < min m n
  /-- No value that is inverted is zero. -/
  inverted : ∀ i, exceeds d.sing cutoff i = true → d.sing i ≠ 0

theorem PivotedQR.Exact.safeRank {f : PivotedQR ℝ m n} {M : Mat ℝ m n} {cutoff : ℝ}
    (hf : f.Exact M) (hc : 0 ≤ cutoff) (hm : m ≠ 0) (hn : n ≠ 0) : f.SafeRank cutoff where
  first := lt_min (Nat.pos_of_ne_zero hm) (Nat.pos_of_ne_zero hn)
  rank_le := f.rank_le _
  diag_ne_zero := hf.leadingBlock_diag_ne_zero hc

theorem ThinSVD.Exact.safeInverse {d : ThinSVD ℝ m n} {M : Mat ℝ m n} {cutoff : ℝ}
    (hd : d.Exact M) (hc : 0 ≤ cutoff) (hm : m ≠ 0) (hn : n ≠ 0) : d.SafeInverse cutoff where
  first := lt_min (Nat.pos_of_ne_zero hm) (Nat.pos_of_ne_zero hn)
  inverted _ hi := (pos_of_exceeds hd.nonneg hc hi).ne'

/-- What a solve reads and divides by on its way. Each condition is that of a step that is reached:
rows and columns are decided on only if there are entries, the Schur complement is formed only from
rows that are kept, and the full system is solved only if there are variables. -/
structure Problem.SafeSteps (F : Factorizations ℝ) (P : Problem ℝ n m) (red : Reduced ℝ m n) :
    Prop where
  reduced : reduceConstraints F P.matrix P.target = .ok red
  scales_ne_zero : ∀ i, red.scales i ≠ 0
  /-- The rows taken differ from each other, so no value is written twice. -/
  rows_strictMono : StrictMono red.rows.get
  numRows_le : red.numRows ≤ m
  rowRank : m ≠ 0 → n ≠ 0 →
    (F.pivotedQR (scaleRows P.matrix red.scales).transpose).SafeRank (defaultCutoff m n)
  factor_diag_ne_zero : ∀ L, F.cholesky P.hessian = some L → ∀ i, L i i ≠ 0
  schurRank : ∀ L, F.cholesky P.hessian = some L → red.numRows ≠ 0 →
    (F.pivotedQR (schurComplement L red.matrix)).SafeRank (defaultCutoff red.numRows red.numRows)
  systemInverse : n ≠ 0 →
    (F.svd (kktMatrix P.hessian red.matrix)).SafeInverse
      (defaultCutoff (n + red.numRows) (n + red.numRows))

/-- Every step of every solve is safe. -/
theorem Problem.exists_safeSteps (hC : F.ExactCholesky) (hQ : F.ExactPivotedQR) (hS : F.ExactSVD)
    (P : Problem ℝ n m) : ∃ red, P.SafeSteps F red := by
  obtain ⟨red, hred⟩ := reduceConstraints_eq_ok F P.matrix P.target
  have hof := reduceConstraints_of hred
  have hc := fun k l => defaultCutoff_nonneg k l
  exact ⟨red, {
    reduced := hred
    scales_ne_zero := hof.scales_ne_zero
    rows_strictMono := hof.rows_strictMono
    numRows_le := by simpa using Fintype.card_le_of_injective _ hof.rows_injective
    rowRank := fun hm hn => (hQ _).safeRank (hc m n) hn hm
    factor_diag_ne_zero := fun L hL i => (hC.diag_pos hL i).ne'
    schurRank := fun L _ hk => (hQ _).safeRank (hc _ _) hk hk
    systemInverse := fun hn => (hS _).safeInverse (hc _ _) (by omega) (by omega) }⟩

/-- The path of an outcome is that of positive definite matrices if and only if the lower triangle
is that of one, or there are no variables. -/
theorem chosenPath_eq_rangeSpace_iff (hC : F.ExactCholesky) (G : Mat ℝ n n) :
    chosenPath F G = .rangeSpace ↔ n = 0 ∨ G.symmetrized.toMatrix.PosDef := by
  have hfactor : (F.cholesky G).isSome ↔ G.symmetrized.toMatrix.PosDef := by
    rw [← not_iff_not, ← hC.eq_none_iff, Option.not_isSome_iff_eq_none]
  rw [← hfactor, chosenPath]
  by_cases h : n = 0 ∨ (F.cholesky G).isSome
  · rw [if_pos h]
    exact iff_of_true rfl h
  · rw [if_neg h]
    exact iff_of_false (by decide) h

/-- Without checks every problem has an outcome. -/
theorem AnyProblem.exists_outcome (hQ : F.ExactPivotedQR) (P : AnyProblem ℝ) :
    ∃ s : Candidate ℝ P.numVars P.numConstraints, (findCandidate F P.problem).result = .ok s ∧
      (P.problem.solve F false >>= fun o => pure (⟨_, _, P.problem, o⟩ : AnyOutcome ℝ)).result =
        .ok ⟨_, _, P.problem, s.outcome P.problem⟩ := by
  obtain ⟨s, hs⟩ := exists_candidate hQ P.problem
  refine ⟨s, hs, ?_⟩
  rw [Logged.result_bind, Problem.solve_unchecked_of_candidate hs]
  rfl

/-- Without checks a solve of data of any sizes fails if and only if one of the two checks of the
sizes does. Otherwise every step on the way is safe, and there is an outcome with multipliers and a
dual residual on the range-space path only. That path is taken if and only if there are no variables
or the lower triangle of the Hessian is that of a positive definite matrix. -/
theorem solveDense_fails_iff_shapes (hC : F.ExactCholesky) (hQ : F.ExactPivotedQR)
    (hS : F.ExactSVD) (G : AnyMat ℝ) (c : AnyVec ℝ) (A : Option (AnyMat ℝ)) (b : AnyVec ℝ) :
    let result := (solveDense F false (NDArray.ofMat G.entries) (NDArray.ofVec c.entries)
      (A.map fun M => NDArray.ofMat M.entries) (NDArray.ofVec b.entries)).result
    ((∃ e, result = .error e) ↔ ¬HessianFits G c ∨ ¬ConstraintsFit A b c) ∧
      ∀ hG : HessianFits G c, ConstraintsFit A b c →
        ∃ (P : Problem ℝ c.size (constraintCount A)) (red : Reduced ℝ (constraintCount A) c.size)
          (o : Outcome ℝ c.size (constraintCount A)),
          readArrays G c A b = .ok ⟨_, _, P⟩ ∧ P.hessian = G.entries.cast hG.1 hG.2 ∧
          P.SafeSteps F red ∧ result = .ok ⟨_, _, P, o⟩ ∧
          (o.multipliers.isSome ↔ o.path = .rangeSpace) ∧
          (o.dualResidual.isSome ↔ o.path = .rangeSpace) ∧
          (o.path = .rangeSpace ↔
            c.size = 0 ∨ (G.entries.cast hG.1 hG.2).symmetrized.toMatrix.PosDef) := by
  intro result
  have hresult : result = (readArrays G c A b >>= fun P => (P.problem.solve F false >>= fun o =>
      pure (⟨_, _, P.problem, o⟩ : AnyOutcome ℝ)).result) := by
    change (Logged.ofExcept (readArrays G c A b) >>= _).result = _
    rw [Logged.result_bind]
    rfl
  constructor
  · rw [← readArrays_eq_error_iff, hresult]
    cases hread : readArrays G c A b with
    | error e => exact ⟨fun _ => ⟨e, rfl⟩, fun _ => ⟨e, rfl⟩⟩
    | ok P =>
      obtain ⟨s, -, hs⟩ := P.exists_outcome hQ
      constructor
      · rintro ⟨e, he⟩
        cases hs.symm.trans he
      · rintro ⟨e, he⟩
        cases he
  · intro hG hA
    obtain ⟨P, hP, hhessian⟩ := exists_readArrays hG hA
    obtain ⟨red, hred⟩ := P.exists_safeSteps hC hQ hS
    obtain ⟨s, hs, hout⟩ := AnyProblem.exists_outcome hQ ⟨_, _, P⟩
    have hpath := chosenPath_eq_rangeSpace_iff hC P.hessian
    refine ⟨P, red, s.outcome P, hP, hhessian, hred, ?_, ?_⟩
    · rw [hresult, hP]
      exact hout
    · rw [← hhessian, ← hpath]
      obtain ⟨hchosen, x, y, rfl⟩ | ⟨hchosen, x, rfl⟩ := findCandidate_cases hs
      · simp [Candidate.outcome, hchosen]
      · simp [Candidate.outcome, hchosen]

/-- Zeros everywhere and more constraints than variables are solved as a full system. Constraints
without variables are solved on the other path, and a Hessian that is not square is refused. -/
theorem solveDense_zeros :
    let F := Factorizations.exact
    let arrays := fun k l m n => solveDense F false
      (NDArray.ofMat (Mat.zero : Mat ℝ k l)) (NDArray.ofVec (Vec.zero : Vec ℝ n))
      (some (NDArray.ofMat (Mat.zero : Mat ℝ m n))) (NDArray.ofVec (Vec.zero : Vec ℝ m))
    F.ExactCholesky ∧ F.ExactPivotedQR ∧ F.ExactSVD ∧
      (∃ (P : Problem ℝ 2 3) (red : Reduced ℝ 3 2) (o : Outcome ℝ 2 3), P.SafeSteps F red ∧
        (arrays 2 2 3 2).result = .ok ⟨2, 3, P, o⟩ ∧ o.path = .fullSystem ∧
        o.multipliers = none) ∧
      (∃ (P : Problem ℝ 0 1) (o : Outcome ℝ 0 1), (arrays 0 0 1 0).result = .ok ⟨0, 1, P, o⟩ ∧
        o.path = .rangeSpace ∧ o.multipliers.isSome) ∧
      ∃ e, (arrays 2 3 3 2).result = .error e := by
  intro F arrays
  have hC : F.ExactCholesky := Factorizations.exact_exactCholesky
  have hQ : F.ExactPivotedQR := Factorizations.exact_exactPivotedQR
  have hS : F.ExactSVD := Factorizations.exact_exactSVD
  have hzero : ¬(Mat.zero : Mat ℝ 2 2).symmetrized.toMatrix.PosDef := fun h =>
    (h.diag_pos (i := 0)).ne' (by simp [Mat.symmetrized])
  refine ⟨hC, hQ, hS, ?_, ?_, ?_⟩
  · obtain ⟨P, red, o, -, -, hsafe, hresult, hmultipliers, -, hpath⟩ :=
      (solveDense_fails_iff_shapes hC hQ hS ⟨2, 2, Mat.zero⟩ ⟨2, Vec.zero⟩ (some ⟨3, 2, Mat.zero⟩)
        ⟨3, Vec.zero⟩).2 ⟨rfl, rfl⟩ (constraintsFit_some ⟨rfl, rfl⟩)
    have hfull : o.path ≠ .rangeSpace := fun h =>
      (hpath.mp h).elim (by norm_num) hzero
    refine ⟨P, red, o, hsafe, hresult, ?_, ?_⟩
    · cases h : o.path with
      | rangeSpace => exact absurd h hfull
      | fullSystem => rfl
    · exact Option.not_isSome_iff_eq_none.mp fun h => hfull (hmultipliers.mp h)
  · obtain ⟨P, red, o, -, -, -, hresult, hmultipliers, -, hpath⟩ :=
      (solveDense_fails_iff_shapes hC hQ hS ⟨0, 0, Mat.zero⟩ ⟨0, Vec.zero⟩ (some ⟨1, 0, Mat.zero⟩)
        ⟨1, Vec.zero⟩).2 ⟨rfl, rfl⟩ (constraintsFit_some ⟨rfl, rfl⟩)
    have hrange := hpath.mpr (.inl rfl)
    exact ⟨P, o, hresult, hrange, hmultipliers.mpr hrange⟩
  · refine (solveDense_fails_iff_shapes hC hQ hS ⟨2, 3, Mat.zero⟩ ⟨2, Vec.zero⟩
      (some ⟨3, 2, Mat.zero⟩) ⟨3, Vec.zero⟩).1.mpr (.inl fun h => ?_)
    exact absurd h.2 (by norm_num)

end QuadraticProgram
