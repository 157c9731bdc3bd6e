import QuadraticProgram.Proofs.Evaluator.Read
import QuadraticProgram.Proofs.Program.Meaning
import QuadraticProgram.Proofs.Program.Writing
import QuadraticProgram.Proofs.Solver.Dense

/-! # Solving a program minimizes its costs

The stored solution meets every equality, and every other point that meets them costs more. The
costs and equalities are evaluated binding by binding; the dense problem between them and the
solution does not show.
-/

namespace QuadraticProgram
namespace Program
open Matrix

variable {p : Program ℝ} {F : Factorizations ℝ}

/-- The program with a solution written to it. -/
noncomputable def stored (p : Program ℝ) (x : Vec ℝ p.numVars) (cost : ℝ) : Program ℝ :=
  { p with
    values := x.toArray.map some
    optimalCost := some cost
    solverResult := some ⟨solverId, Status.solutionFound.code⟩ }

/-- A solve of the assembled problem becomes the solution of the program. -/
theorem solve_eq_ok (h : ∀ b ∈ p.bindings, b.kind.isSupported) {m : ℕ}
    {P : Problem ℝ p.numVars m} (hP : p.assemble.result = .ok ⟨p.numVars, m, P⟩) {checks : Bool}
    {o : Outcome ℝ p.numVars m} (ho : (P.solve F checks).result = .ok o) :
    (p.solve F checks).result = .ok (p.stored o.x o.cost, .solutionFound) :=
  solve_of_outcome (solveOutcome_of_assembled h hP ho)

/-- Every program that operations can build is assembled. If it holds only quadratic costs and
equalities, its Hessian is positive definite, its equalities have a common solution and the rank
decisions discard nothing, then it is solved: the stored values meet every equality, the stored cost
is the sum of the costs there, and it is larger at every other point that meets the equalities. -/
theorem solve_stores_minimizer {δ : Type} [ArraySource δ ℝ] (hC : F.ExactCholesky)
    (hQ : F.ExactPivotedQR) {k : ℕ} (hp : Reachable δ F p k)
    (hkinds : ∀ b ∈ p.bindings, b.kind = .quadraticCost ∨ b.kind = .linearEquality) :
    ∃ m, ∃ P : Problem ℝ p.numVars m, p.assemble.result = .ok ⟨p.numVars, m, P⟩ ∧
      (P.hessian.toMatrix.PosDef → (∃ z, p.Meets z) → RowsDecided F P.matrix P.target →
        SchurDecided F P.hessian P.matrix P.target → ∀ checks, ∃ x v,
          (p.solve F checks).result = .ok (p.stored x v, .solutionFound) ∧
          p.Meets x ∧ p.totalCost x = .ok v ∧
          ∀ z, p.Meets z → z ≠ x → ∃ w, p.totalCost z = .ok w ∧ v < w) := by
  rcases hp.closed.assemble_spec with ⟨m, P, hP, hcost, hmeets⟩
  refine ⟨m, P, hP, fun hG hfeas hrows hschur checks => ?_⟩
  rcases hfeas with ⟨z₀, hz₀⟩
  obtain ⟨s, hs, hx, hmin⟩ := findCandidate_minimal hC hQ hG ((hmeets z₀).mp hz₀) hrows hschur
  have hsolve := P.solve_eq_ok checks (Matrix.isHermitian_iff_isSymm.mp hG.isHermitian) hs hx
  refine ⟨s.x, _, solve_eq_ok (isSupported_of_kinds hkinds) hP hsolve, (hmeets s.x).mpr hx,
    hcost s.x, ?_⟩
  intro z hz hne
  exact ⟨_, hcost z, hmin z ((hmeets z).mp hz) hne⟩

section Pinned

def firstVar : Variable := ⟨"x(0)", 0⟩

def secondVar : Variable := ⟨"x(1)", 1⟩

/-- The cost `½ (x² + y²) + x + y`. -/
noncomputable def bowl : QuadraticCost ℝ :=
  ⟨2, Mat.ofFn ![![1, 0], ![0, 1]], Vec.ofFn ![1, 1]⟩

/-- The constraint `x + y = 0`. -/
noncomputable def balance : LinearEquality ℝ := ⟨1, 2, Mat.ofFn ![![1, 1]], Vec.zero⟩

/-- The constraint `x = 0`. -/
noncomputable def vanishing : LinearEquality ℝ := ⟨1, 1, Mat.ofFn ![![1]], Vec.zero⟩

/-- The first variable is pinned twice, once by an equality that names it two times. -/
noncomputable def pinned : Program ℝ where
  vars := #[firstVar, secondVar]
  bindings := #[⟨.quadraticCost bowl, [firstVar, secondVar], rfl⟩,
    ⟨.linearEquality balance, [firstVar, firstVar], rfl⟩,
    ⟨.linearEquality vanishing, [firstVar], rfl⟩]
  values := #[none, none]
  optimalCost := none
  solverResult := none

/-- The number of variables in a pair, as bindings count them. -/
theorem length_pair (v w : Variable) : (([v, w].length : ℕ) : ℤ) = (2 : ℕ) := rfl

theorem length_single (v : Variable) : (([v].length : ℕ) : ℤ) = (1 : ℕ) := rfl

/-- A program with two variables can be built; bindings come on top. -/
theorem twoVars_numericallyReachable (F : Factorizations ℝ) : NumericallyReachable (NDArray ℝ) F
    (⟨#[firstVar, secondVar], #[], #[none, none], none, none⟩ : Program ℝ) 2 :=
  (NumericallyReachable.empty 0).perform (Nat.le_refl 0) (.newVariables (.number 2) "x")
    fun _ => nofun

theorem twoVars_reachable (F : Factorizations ℝ) : Reachable (NDArray ℝ) F
    (⟨#[firstVar, secondVar], #[], #[none, none], none, none⟩ : Program ℝ) 2 :=
  (twoVars_numericallyReachable F).reachable

theorem pinned_numericallyReachable :
    NumericallyReachable (NDArray ℝ) Factorizations.standard pinned 2 := by
  have hcost := (twoVars_numericallyReachable Factorizations.standard).add
    ⟨.quadraticCost bowl, [firstVar, secondVar], rfl⟩
    (Evaluator.read_quadraticCost bowl) (by simp)
  have hpair := hcost.add ⟨.linearEquality balance, [firstVar, firstVar], rfl⟩
    (Evaluator.read_linearEquality balance) (by simp)
  exact hpair.add ⟨.linearEquality vanishing, [firstVar], rfl⟩
    (Evaluator.read_linearEquality vanishing) (by simp)

theorem pinned_reachable : Reachable (NDArray ℝ) Factorizations.standard pinned 2 :=
  pinned_numericallyReachable.reachable

noncomputable def pinnedCost : PlacedCost ℝ 2 := ⟨bowl, (Vec.ofFn ![0, 1] : Vec (Fin 2) 2)⟩

noncomputable def pinnedBalance : PlacedEquality ℝ 2 :=
  ⟨balance, (Vec.ofFn ![0, 0] : Vec (Fin 2) 2)⟩

noncomputable def pinnedVanishing : PlacedEquality ℝ 2 :=
  ⟨vanishing, (Vec.ofFn ![0] : Vec (Fin 2) 1)⟩

theorem pinned_placed : pinned.placedCosts = .ok [pinnedCost] ∧
    pinned.placedEqualities = .ok [pinnedBalance, pinnedVanishing] := by
  have h0 : pinned.index firstVar = .ok (0 : Fin 2) := by cbv
  have h1 : pinned.index secondVar = .ok (1 : Fin 2) := by cbv
  have hcost := locate_eq (.cons h0 (.cons h1 .nil)) (k := 2) rfl
  have hpair := locate_eq (.cons h0 (.cons h0 .nil)) (k := 2) rfl
  have hone := locate_eq (.cons h0 .nil) (k := 1) rfl
  constructor
  · refine mapM_eq_ok_iff.mpr (.cons ?_ .nil)
    exact congrArg (· >>= fun place => Except.ok (PlacedCost.mk bowl place)) hcost
  · refine mapM_eq_ok_iff.mpr (.cons ?_ (.cons ?_ .nil))
    · exact congrArg (· >>= fun place => Except.ok (PlacedEquality.mk balance place)) hpair
    · exact congrArg (· >>= fun place => Except.ok (PlacedEquality.mk vanishing place)) hone

theorem pinned_posDef :
    (placedProblem [pinnedCost] [pinnedBalance, pinnedVanishing]).hessian.toMatrix.PosDef := by
  have hone : (Mat.ofFn ![![1, 0], ![0, 1]] : Mat ℝ 2 2).toMatrix = 1 := by
    ext i j
    fin_cases i <;> fin_cases j <;> simp
  have hplace : placement (Vec.ofFn ![0, 1] : Vec (Fin 2) 2) = 1 := by
    ext i j
    fin_cases i <;> fin_cases j <;> simp [placement]
  have hadd := pinnedCost.toMatrix_addHessian Mat.zero
  rw [Mat.toMatrix_zero, zero_add] at hadd
  change pinnedCost.addHessian Mat.zero |>.toMatrix.PosDef
  rw [hadd]
  change (placement (Vec.ofFn ![0, 1] : Vec (Fin 2) 2) *
    (Mat.ofFn ![![1, 0], ![0, 1]] : Mat ℝ 2 2).toMatrix *
    (placement (Vec.ofFn ![0, 1] : Vec (Fin 2) 2))ᵀ).PosDef
  rw [hplace, hone, transpose_one, Matrix.one_mul, Matrix.mul_one]
  exact PosDef.one

/-- Naming a variable twice doubles its coefficient. -/
theorem pinned_rowsAlong :
    (placedProblem [pinnedCost] [pinnedBalance, pinnedVanishing]).matrix.RowsAlong ![1, 0] := by
  refine ⟨by simp [dotProduct, Fin.sum_univ_two],
    placedProblem_row (P := fun v => ∃ a : ℝ, 0 < a ∧ v = a • ![1, 0]) _ _ ?_⟩
  intro e he i
  rcases List.mem_pair.mp he with rfl | rfl
  · refine ⟨2, two_pos, ?_⟩
    ext j
    apply (PlacedEquality.rows_apply _ i j).trans
    obtain rfl : i = (0 : Fin 1) := Fin.fin_one_eq_zero i
    change ∑ p : Fin 2, (if (Vec.ofFn ![0, 0] : Vec (Fin 2) 2) p = j then
      (Mat.ofFn ![![1, 1]] : Mat ℝ 1 2) 0 p else 0) = _
    fin_cases j <;> simp [Fin.sum_univ_two, one_add_one_eq_two]
  · refine ⟨1, one_pos, ?_⟩
    ext j
    apply (PlacedEquality.rows_apply _ i j).trans
    obtain rfl : i = (0 : Fin 1) := Fin.fin_one_eq_zero i
    change ∑ p : Fin 1, (if (Vec.ofFn ![0] : Vec (Fin 2) 1) p = j then
      (Mat.ofFn ![![1]] : Mat ℝ 1 1) 0 p else 0) = _
    fin_cases j <;> simp

theorem pinned_meets : pinned.Meets Vec.zero := by
  apply pinned.meets_zero pinned_placed.2
  intro e he
  rcases List.mem_pair.mp he with rfl | rfl
  · rfl
  · rfl

/-- The pinned program is solved, with each of the hypotheses met. -/
theorem pinned_solve : Reachable (NDArray ℝ) Factorizations.standard pinned 2 ∧
    (∀ b ∈ pinned.bindings, b.kind = .quadraticCost ∨ b.kind = .linearEquality) ∧
    ∀ checks, ∃ x v,
      (pinned.solve Factorizations.standard checks).result =
        .ok (pinned.stored x v, .solutionFound) ∧
      pinned.Meets x ∧ pinned.totalCost x = .ok v ∧
      ∀ z, pinned.Meets z → z ≠ x → ∃ w, pinned.totalCost z = .ok w ∧ v < w := by
  have hC := Factorizations.standard_exactCholesky
  have hQ := Factorizations.standard_exactPivotedQR
  have hg := Factorizations.standard_greedyPivotedQR
  have hkinds : ∀ b ∈ pinned.bindings, b.kind = .quadraticCost ∨ b.kind = .linearEquality := by
    simp [pinned, Binding.kind, Evaluator.kind]
  obtain ⟨m, P, hP, hsolve⟩ := solve_stores_minimizer hC hQ pinned_reachable hkinds
  obtain ⟨hcosts, hequalities⟩ := pinned_placed
  have hassemble : pinned.assemble.result =
      .ok ⟨2, _, placedProblem [pinnedCost] [pinnedBalance, pinnedVanishing]⟩ :=
    assemble_eq hcosts hequalities
  obtain ⟨rfl, hP⟩ := AnyProblem.mk.inj (Except.ok.inj (hP.symm.trans hassemble)) |>.2
  obtain rfl := eq_of_heq hP
  refine ⟨pinned_reachable, hkinds, hsolve ?_ ?_ ?_ ?_⟩
  · exact pinned_posDef
  · exact ⟨_, pinned_meets⟩
  · exact rowsDecided_of_parallel hQ hg pinned_rowsAlong.parallel
      (pinned_rowsAlong.toMatrix_ne_zero (0 : Fin 2)) (defaultCutoff_lt_one (by decide))
  · exact schurDecided_of_parallel hQ pinned_rowsAlong.parallel

end Pinned

end Program
end QuadraticProgram
