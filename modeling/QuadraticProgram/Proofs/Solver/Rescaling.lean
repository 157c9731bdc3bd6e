import QuadraticProgram.Proofs.Constraints.Invariance
import QuadraticProgram.Proofs.Kkt.System
import QuadraticProgram.Proofs.LeastSquares.Coordinates
import QuadraticProgram.Proofs.Solver.Execution

/-! # Factors of constraint rows

Reduced rows keep only the signs of factors. Signs of rows turn up in the multipliers of either
system and nowhere else, so no rank decision sees a factor, whatever the cutoffs discard; scaled
back, the multipliers are divided by the factors.
-/

namespace QuadraticProgram
open Matrix

variable {n m k : ℕ} {F : Factorizations ℝ}

theorem signs_rows_mul_self {d : Fin m → ℝ} (hd : ∀ i, d i ≠ 0) (red : Reduced ℝ m n) :
    (fun k => signs d (red.rows k)) * (fun k => signs d (red.rows k)) = 1 :=
  funext fun k => congrFun (signs_mul_self hd) (red.rows k)

section RangeSpace

variable {e : Fin k → ℝ}

theorem row_multiplyRows (e : Fin k → ℝ) (R : Mat ℝ k n) (i : Fin k) :
    (R.multiplyRows e).row i = (R.row i).map (e i * ·) := by
  apply Vec.ext_get
  intro j
  rw [Mat.get_row, Mat.get_multiplyRows, Vec.get_map, Mat.get_row]

theorem dot_map_left (a : ℝ) (x y : Vec ℝ n) : Vec.dot (x.map (a * ·)) y = a * Vec.dot x y := by
  rw [Vec.dot_eq, Vec.dot_eq, dotProduct, dotProduct, Finset.mul_sum]
  exact Finset.sum_congr rfl fun j _ => by rw [Vec.get_map, mul_assoc]

theorem dot_map_right (a : ℝ) (x y : Vec ℝ n) : Vec.dot x (y.map (a * ·)) = a * Vec.dot x y := by
  rw [Vec.dot_eq, dotProduct_comm, ← Vec.dot_eq, dot_map_left, Vec.dot_eq, dotProduct_comm,
    ← Vec.dot_eq]

/-- Signs of the rows are signs of the rows and columns of the Schur complement. -/
theorem signed_schurComplement (he : e * e = 1) (L : Mat ℝ n n) (R : Mat ℝ k n) :
    Signed (schurComplement L R) (schurComplement L (R.multiplyRows e)) e e where
  row_sign := he
  col_sign := he
  apply_eq i j := by
    rw [schurComplement, schurComplement, Mat.get_ofFn, Mat.get_ofFn, row_multiplyRows,
      row_multiplyRows, substitute_smul, dot_map_left, dot_map_right]
    ring

theorem coe_schurTarget_multiplyRows (L : Mat ℝ n n) (c : Vec ℝ n) (R : Mat ℝ k n) (t : Vec ℝ k) :
    (schurTarget L c (R.multiplyRows e) (t.multiply e)).get = e * (schurTarget L c R t).get := by
  funext i
  rw [Pi.mul_apply, schurTarget, schurTarget, Vec.get_ofFn, Vec.get_ofFn, row_multiplyRows,
    substitute_smul, dot_map_left, Vec.get_multiply, mul_add]

/-- Multipliers divided by the factors have the same effect on the variables. -/
theorem transposeMulVec_multiplyRows {d : Fin m → ℝ} (hd : ∀ i, d i ≠ 0) (A : Mat ℝ m n)
    {y y' : Vec ℝ m} (hy : ∀ i, y' i = y i / d i) :
    (A.multiplyRows d).transposeMulVec y' = A.transposeMulVec y := by
  apply Vec.ext_get
  intro j
  rw [Mat.get_transposeMulVec, Mat.get_transposeMulVec, Scalar.sum_eq, Scalar.sum_eq]
  apply Finset.sum_congr rfl
  intro i _
  rw [Mat.get_multiplyRows, hy, mul_comm (d i), mul_assoc, mul_div_cancel₀ _ (hd i)]

/-- The range-space solver returns the same point for rescaled rows, and multipliers divided by the
factors. -/
theorem solveRangeSpace_multiplyRows (hQ : F.ExactPivotedQR) (hg : F.FirstLongestPivotedQR)
    {d : Fin m → ℝ} (hd : ∀ i, d i ≠ 0) (L : Mat ℝ n n) (c : Vec ℝ n) (A : Mat ℝ m n)
    (b : Vec ℝ m) :
    ∃ s s', solveRangeSpace F L c A b = .ok s ∧
      solveRangeSpace F L c (A.multiplyRows d) (b.multiply d) = .ok s' ∧ s'.x = s.x ∧
      ∀ i, s'.y i = s.y i / d i := by
  obtain ⟨red, hred⟩ := reduceConstraints_eq_ok F A b
  have hof := reduceConstraints_of hred
  have hne := fun k => hof.row_ne_zero (matrix_row_ne_zero hQ hred k)
  have hsign := signs_rows_mul_self hd red
  obtain ⟨y, hy, hs⟩ := solveRangeSpace_eq hQ L c hred
  obtain ⟨y', hy', hs'⟩ :=
    solveRangeSpace_eq hQ L c (reduceConstraints_multiplyRows hQ hg hd hred)
  have hyy := pivotedLeastSquares_signed hQ hg (signed_schurComplement hsign L red.matrix)
    (coe_schurTarget_multiplyRows L c red.matrix red.target) hy hy'
  have hspread := spread_rescaled hof hd hne fun k => congrFun hyy k
  refine ⟨_, _, hs, hs', ?_, hspread⟩
  dsimp only
  rw [transposeMulVec_multiplyRows hd A hspread]

end RangeSpace

section FullSystem

variable {e : Fin k → ℝ}

/-- Signs of the multipliers, none of the variables. -/
def multiplierSigns (n : ℕ) (e : Fin k → ℝ) : Matrix (Fin (n + k)) (Fin (n + k)) ℝ :=
  diagonal (Fin.append 1 e)

theorem multiplierSigns_orthogonal (he : e * e = 1) :
    (multiplierSigns n e)ᵀ * multiplierSigns n e = 1 := by
  rw [multiplierSigns, diagonal_transpose, diagonal_mul_diagonal, ← diagonal_one]
  congr 1
  refine append_ext (fun i => ?_) fun j => ?_
  · rw [Fin.append_left, Pi.one_apply, mul_one]
  · rw [Fin.append_right]
    exact congrFun he j

theorem toMatrix_kktMatrix_multiplyRows (G : Mat ℝ n n) (R : Mat ℝ k n) :
    (kktMatrix G (R.multiplyRows e)).toMatrix =
      multiplierSigns n e * (kktMatrix G R).toMatrix * (multiplierSigns n e)ᵀ := by
  ext i j
  rw [multiplierSigns, diagonal_transpose, mul_diagonal, diagonal_mul, kktMatrix, kktMatrix]
  refine Fin.addCases (fun i => ?_) (fun i => ?_) i <;>
    refine Fin.addCases (fun j => ?_) (fun j => ?_) j
  · simp
  · simp [mul_comm]
  · simp
  · simp

theorem coe_kktTarget_multiply (c : Vec ℝ n) (t : Vec ℝ k) :
    (kktTarget c (t.multiply e)).get = multiplierSigns n e *ᵥ (kktTarget c t).get := by
  rw [coe_kktTarget, coe_kktTarget, multiplierSigns]
  refine append_ext (fun i => ?_) fun j => ?_
  · simp [mulVec_diagonal]
  · simp [mulVec_diagonal]

/-- The full-system solver returns the same point for rescaled rows. -/
theorem solveFullSystem_multiplyRows (hQ : F.ExactPivotedQR) (hg : F.FirstLongestPivotedQR)
    (hS : F.ExactSVD) {d : Fin m → ℝ} (hd : ∀ i, d i ≠ 0) (G : Mat ℝ n n) (c : Vec ℝ n)
    (A : Mat ℝ m n) (b : Vec ℝ m) :
    ∃ x, solveFullSystem F G c A b = .ok x ∧
      solveFullSystem F G c (A.multiplyRows d) (b.multiply d) = .ok x := by
  obtain ⟨red, hred⟩ := reduceConstraints_eq_ok F A b
  have hsign := signs_rows_mul_self hd red
  have horth := multiplierSigns_orthogonal (n := n) hsign
  obtain ⟨z, z', hz, hz', hzz⟩ := truncatedLeastSquares_turn hS horth horth
    (toMatrix_kktMatrix_multiplyRows G red.matrix) (coe_kktTarget_multiply c red.target)
  have hfirst : z'.first = z.first := by
    apply Vec.ext_get
    intro i
    rw [Vec.get_first, Vec.get_first, hzz, multiplierSigns, mulVec_diagonal, Fin.append_left,
      Pi.one_apply, one_mul]
  refine ⟨z.first, solveFullSystem_of_leastSquares hred hz, ?_⟩
  rw [← hfirst]
  exact solveFullSystem_of_leastSquares (reduceConstraints_multiplyRows hQ hg hd hred) hz'

end FullSystem

/-- The problem whose constraints are multiplied by factors. -/
def Problem.rescaled (d : Fin m → ℝ) (P : Problem ℝ n m) : Problem ℝ n m :=
  { P with matrix := P.matrix.multiplyRows d, target := P.target.multiply d }

/-- A candidate for the original constraints as one for the rescaled constraints. -/
noncomputable def Candidate.rescaled (d : Fin m → ℝ) (s : Candidate ℝ n m) : Candidate ℝ n m :=
  { s with multipliers := s.multipliers.map fun y => Vec.ofFn fun i => y i / d i }

theorem findCandidate_rescaled (hQ : F.ExactPivotedQR) (hg : F.FirstLongestPivotedQR)
    (hS : F.ExactSVD) {d : Fin m → ℝ} (hd : ∀ i, d i ≠ 0) (P : Problem ℝ n m) :
    ∃ s, (findCandidate F P).result = .ok s ∧
      (findCandidate F (P.rescaled d)).result = .ok (s.rescaled d) := by
  by_cases hn : n = 0
  · have hzero : (Vec.ofFn fun i => (Vec.zero : Vec ℝ m) i / d i) = Vec.zero := by
      apply Vec.ext_get
      intro i
      rw [Vec.get_ofFn, Vec.get_zero]
      exact zero_div _
    refine ⟨_, findCandidate_of_no_variables F P hn, ?_⟩
    rw [findCandidate_of_no_variables F _ hn, Candidate.rescaled, Option.map_some, hzero]
  · cases hL : F.cholesky P.hessian with
    | some L =>
      obtain ⟨s, s', hs, hs', hx, hy⟩ :=
        solveRangeSpace_multiplyRows hQ hg hd L P.gradient P.matrix P.target
      have hy' : s'.y = Vec.ofFn fun i => s.y i / d i := Vec.ext_get fun i => by
        rw [hy, Vec.get_ofFn]
      refine ⟨⟨.rangeSpace, s.x, some s.y⟩, ?_, ?_⟩
      · rw [findCandidate_of_factor hn hL, hs]
        rfl
      · rw [findCandidate_of_factor (P := P.rescaled d) hn hL]
        change (solveRangeSpace F L P.gradient (P.matrix.multiplyRows d)
          (P.target.multiply d)).map _ = _
        rw [hs', Candidate.rescaled, Option.map_some, ← hx, ← hy']
        rfl
    | none =>
      obtain ⟨x, hx, hx'⟩ :=
        solveFullSystem_multiplyRows hQ hg hS hd P.hessian P.gradient P.matrix P.target
      refine ⟨⟨.fullSystem, x, none⟩, ?_, ?_⟩
      · rw [findCandidate_of_no_factor hn hL, hx]
        rfl
      · rw [findCandidate_of_no_factor (P := P.rescaled d) hn hL]
        change (solveFullSystem F P.hessian P.gradient (P.matrix.multiplyRows d)
          (P.target.multiply d)).map _ = _
        rw [hx']
        rfl

/-- Factors of the constraint rows decide nothing: the same rows are kept, and path, point and cost
are the same. On the range-space path the multipliers are divided by the factors. The checks may
refuse one of the outcomes and change none. -/
theorem Problem.solve_ignores_row_factors (hQ : F.ExactPivotedQR) (hg : F.FirstLongestPivotedQR)
    (hS : F.ExactSVD) {d : Fin m → ℝ} (hd : ∀ i, d i ≠ 0) (P : Problem ℝ n m) :
    (∃ red red', reduceConstraints F P.matrix P.target = .ok red ∧
      reduceConstraints F (P.rescaled d).matrix (P.rescaled d).target = .ok red' ∧
      red'.rows.toArray = red.rows.toArray) ∧
    ∃ o o', (P.solve F false).result = .ok o ∧ ((P.rescaled d).solve F false).result = .ok o' ∧
      o'.path = o.path ∧ o'.x = o.x ∧ o'.cost = o.cost ∧
      (o.path = .rangeSpace → ∃ y y', o.multipliers = some y ∧ o'.multipliers = some y' ∧
        ∀ i, y' i = y i / d i) ∧
      (∀ u, (P.solve F true).result = .ok u → u = o) ∧
      (∀ u, ((P.rescaled d).solve F true).result = .ok u → u = o') := by
  obtain ⟨red, hred⟩ := reduceConstraints_eq_ok F P.matrix P.target
  obtain ⟨s, hs, hs'⟩ := findCandidate_rescaled hQ hg hS hd P
  have hresult := solve_unchecked_of_candidate hs
  have hresult' := solve_unchecked_of_candidate hs'
  refine ⟨⟨red, red.rescaled P.matrix d, hred, reduceConstraints_multiplyRows hQ hg hd hred, rfl⟩,
    _, _, hresult, hresult', rfl, rfl, rfl, fun hpath => ?_, fun u hu => ?_, fun u hu => ?_⟩
  · obtain ⟨-, x, y, rfl⟩ | ⟨-, x, rfl⟩ := findCandidate_cases hs
    · exact ⟨y, Vec.ofFn fun i => y i / d i, rfl, rfl, fun i => Vec.get_ofFn _ i⟩
    · cases hpath
  · exact Except.ok.inj ((solve_unchecked_of_checked hu).symm.trans hresult)
  · exact Except.ok.inj ((solve_unchecked_of_checked hu).symm.trans hresult')

/-- Positive and negative factors of rows that contradict each other and of a row of zeros. -/
theorem Problem.solve_rescaled_contradictory :
    let d : Fin 3 → ℝ := ![2, -3, 5]
    let P : Problem ℝ 2 3 := ⟨Mat.ofFn ![![2, 7], ![0, 2]], Vec.ofFn ![1, -1],
      Mat.ofFn ![![1, 0], ![2, 0], ![0, 0]], Vec.ofFn ![1, 3, 1]⟩
    let F := Factorizations.exact
    (∀ i, d i ≠ 0) ∧
    (∃ red red', reduceConstraints F P.matrix P.target = .ok red ∧
      reduceConstraints F (P.rescaled d).matrix (P.rescaled d).target = .ok red' ∧
      red'.rows.toArray = red.rows.toArray) ∧
    ∃ o o', (P.solve F false).result = .ok o ∧ ((P.rescaled d).solve F false).result = .ok o' ∧
      o'.path = o.path ∧ o'.x = o.x ∧ o'.cost = o.cost ∧
      (o.path = .rangeSpace → ∃ y y', o.multipliers = some y ∧ o'.multipliers = some y' ∧
        ∀ i, y' i = y i / d i) := by
  intro d P F
  have hd : ∀ i, d i ≠ 0 := by
    intro i
    fin_cases i <;> simp [d]
  obtain ⟨hrows, o, o', ho, ho', hpath, hx, hcost, hy, -⟩ :=
    solve_ignores_row_factors Factorizations.exact_exactPivotedQR
      Factorizations.exact_firstLongestPivotedQR Factorizations.exact_exactSVD hd P
  exact ⟨hd, hrows, o, o', ho, ho', hpath, hx, hcost, hy⟩

end QuadraticProgram
