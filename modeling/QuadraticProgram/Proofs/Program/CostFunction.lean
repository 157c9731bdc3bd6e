import QuadraticProgram.Proofs.Exact.Polarization
import QuadraticProgram.Proofs.Program.Accumulation
import QuadraticProgram.Proofs.Solver.Superposition

/-! # What a solve takes from the costs

The sum of the costs fixes the gradient of the assembled problem and the symmetric part of its
Hessian, however the sum is spread over bindings. The Hessian itself is fixed only together with one
of its triangles. The factorization reads the lower one, so costs with the same sum can have
different solutions if their matrices are not symmetric.
-/

namespace QuadraticProgram

section Objectives

variable {n m : ℕ}

/-- Problems with the same constraints whose objectives agree everywhere. -/
structure Problem.SameObjective (P Q : Problem ℝ n m) : Prop where
  gradient_eq : Q.gradient = P.gradient
  symmetricPart_eq : Q.hessian.toMatrix + Q.hessian.toMatrix.transpose =
    P.hessian.toMatrix + P.hessian.toMatrix.transpose
  matrix_eq : Q.matrix = P.matrix
  target_eq : Q.target = P.target

theorem Vec.cast_self (h : n = n) (x : Vec ℝ n) : x.cast h = x := rfl

theorem Problem.sameObjective {P Q : Problem ℝ n m} (hmatrix : Q.matrix = P.matrix)
    (htarget : Q.target = P.target) (hcost : ∀ z, quadraticCost Q.hessian Q.gradient z =
      quadraticCost P.hessian P.gradient z) : P.SameObjective Q := by
  have hobjective : ∀ z, objective Q.hessian.toMatrix Q.gradient.get z =
      objective P.hessian.toMatrix P.gradient.get z := by
    intro z
    have h := hcost (Vec.ofFn z)
    rwa [quadraticCost_eq, quadraticCost_eq, Vec.coe_ofFn] at h
  exact ⟨Vec.coe_injective (eq_of_objective_eq hobjective),
    add_transpose_eq_of_objective_eq hobjective, hmatrix, htarget⟩

/-- Matrices with the same lower triangle, or both symmetric. -/
def SameTriangle (G H : Mat ℝ n n) : Prop :=
  (∀ i j, j ≤ i → H i j = G i j) ∨ (G.toMatrix.IsSymm ∧ H.toMatrix.IsSymm)

theorem Problem.SameObjective.eq {P Q : Problem ℝ n m} (h : P.SameObjective Q)
    (htriangle : SameTriangle P.hessian Q.hessian) : Q = P := by
  have hhessian : Q.hessian = P.hessian := by
    rcases htriangle with hlower | ⟨hP, hQ⟩
    · exact Mat.toMatrix_injective (eq_of_lower_eq h.symmetricPart_eq hlower)
    · exact Mat.toMatrix_injective (eq_of_isSymm h.symmetricPart_eq hQ hP)
  obtain ⟨G, c, A, b⟩ := P
  obtain ⟨H, d, B, t⟩ := Q
  obtain ⟨rfl, -, rfl, rfl⟩ := h
  obtain rfl := hhessian
  rfl

/-- An equality with the positions of its variables. -/
def PlacedEquality.positions (e : PlacedEquality ℝ n) : LinearEquality ℝ × List (Option ℕ) :=
  (e.equality, List.ofFn fun q => some (e.place q).val)

theorem PlacedEquality.positions_injective :
    Function.Injective (positions : PlacedEquality ℝ n → _) := by
  rintro ⟨e, place⟩ ⟨e', place'⟩ h
  obtain ⟨rfl, hplace⟩ := Prod.mk.inj h
  obtain rfl : place = place' := Vec.ext_get fun q => by
    have hq := congrFun (List.ofFn_injective hplace) q
    exact Fin.ext (Option.some_inj.mp hq)
  rfl

/-- Problems assembled from the same equalities have the same objective if their costs are the
same. -/
theorem placedProblem_sameObjective {n' : ℕ} (h : n' = n) {cs : List (PlacedCost ℝ n)}
    {es : List (PlacedEquality ℝ n)} {cs' : List (PlacedCost ℝ n')}
    {es' : List (PlacedEquality ℝ n')}
    (hes : es'.map PlacedEquality.positions = es.map PlacedEquality.positions)
    (hcost : ∀ z : Vec ℝ n,
      quadraticCost (placedProblem cs' es').hessian (placedProblem cs' es').gradient
        (z.cast h.symm) =
      quadraticCost (placedProblem cs es).hessian (placedProblem cs es).gradient z) :
    ∃ Q, (⟨n', _, placedProblem cs' es'⟩ : AnyProblem ℝ) = ⟨n, _, Q⟩ ∧
      (placedProblem cs es).SameObjective Q := by
  subst h
  obtain rfl := List.map_injective_iff.mpr PlacedEquality.positions_injective hes
  exact ⟨placedProblem cs' es', rfl, Problem.sameObjective rfl rfl hcost⟩

end Objectives

namespace Program

section Positions

variable {α : Type} [Scalar α]

/-- The positions of variables in a program. A variable of another program has none. -/
def positionsOf (p : Program α) (vs : List Variable) : List (Option ℕ) :=
  vs.map fun v => (p.index v).toOption.map Fin.val

/-- Programs with as many variables and with the same equalities over the variables at the same
positions, in the same order. -/
structure SameConstraints (p q : Program α) : Prop where
  numVars_eq : q.numVars = p.numVars
  equalities_eq : (q.linearEqualities.map fun e => (e.1, q.positionsOf e.2)) =
    p.linearEqualities.map fun e => (e.1, p.positionsOf e.2)

theorem positionsOf_of_locate {p : Program α} {vs : List Variable} {k : ℕ}
    {place : Vec (Fin p.numVars) k} (h : p.locate vs k = .ok place) :
    p.positionsOf vs = List.ofFn fun q => some (place q).val := by
  obtain ⟨places, hplaces, h⟩ := bind_eq_ok h
  have hmap : p.positionsOf vs = places.map fun i => some i.val :=
    map_eq_of_forall₂ (fun v i hi => by rw [hi]; rfl) (mapM_eq_ok_iff.mp hplaces)
  split at h
  · rename_i hsize
    cases h
    subst hsize
    have hget : (places.map fun i => some i.val) = List.ofFn fun q => some (places.get q).val := by
      conv_lhs => rw [← List.ofFn_get places, List.map_ofFn]
      rfl
    exact hmap.trans hget
  · cases h

/-- The same variables and the same equalities are the same constraints. -/
theorem SameConstraints.of_eq {p q : Program α} (hvars : q.vars = p.vars)
    (h : q.linearEqualities = p.linearEqualities) : SameConstraints p q := by
  obtain ⟨vars, bindings, values, cost, result⟩ := q
  obtain rfl : vars = p.vars := hvars
  refine ⟨rfl, ?_⟩
  rw [h]
  unfold positionsOf
  rw [index_rebound]
  rfl

end Positions

section Costs

variable {p q : Program ℝ} {F : Factorizations ℝ}

theorem positions_placed {es : List (PlacedEquality ℝ p.numVars)}
    (hes : p.placedEqualities = .ok es) :
    es.map PlacedEquality.positions = p.linearEqualities.map fun e => (e.1, p.positionsOf e.2) := by
  refine (map_eq_of_forall₂ ?_ (mapM_eq_ok_iff.mp hes)).symm
  intro x y hy
  obtain ⟨place, hplace, hy⟩ := bind_eq_ok hy
  cases hy
  exact Prod.ext rfl (positionsOf_of_locate hplace)

/-- Programs with the same constraints and the same total cost are assembled to problems with the
same objective. -/
theorem Closed.assemble_sameObjective (hp : p.Closed) (hq : q.Closed) (h : SameConstraints p q)
    (hcost : ∀ z : Vec ℝ p.numVars, q.totalCost (z.cast h.numVars_eq.symm) = p.totalCost z) :
    ∃ m, ∃ P Q : Problem ℝ p.numVars m, p.assemble.result = .ok ⟨p.numVars, m, P⟩ ∧
      q.assemble.result = .ok ⟨p.numVars, m, Q⟩ ∧ P.SameObjective Q ∧
      ∀ z, p.totalCost z = .ok (quadraticCost P.hessian P.gradient z) := by
  rcases hp.exists_placed with ⟨⟨cs, hcs⟩, es, hes⟩
  rcases hq.exists_placed with ⟨⟨cs', hcs'⟩, es', hes'⟩
  have hpositions : es'.map PlacedEquality.positions = es.map PlacedEquality.positions := by
    rw [positions_placed hes', positions_placed hes, h.equalities_eq]
  have hobjective := fun z => Except.ok.inj
    ((totalCost_eq hcs' es' _).symm.trans ((hcost z).trans (totalCost_eq hcs es z)))
  obtain ⟨Q, hQ, hsame⟩ := placedProblem_sameObjective h.numVars_eq hpositions hobjective
  exact ⟨_, placedProblem cs es, Q, assemble_eq hcs hes,
    (assemble_eq hcs' hes').trans (congrArg Except.ok hQ), hsame, totalCost_eq hcs es⟩

/-- Programs of quadratic costs and equalities with the same constraints and the same total cost are
assembled to problems with the same objective. If also one triangle of their Hessians is the same,
or if these are symmetric, then the same point is stored in both, with the same cost: the total cost
at this point. -/
theorem solve_depends_on_totalCost {δ : Type} [ArraySource δ ℝ] (hF : F.ExactPivotedQR) {k k' : ℕ}
    (hp : Reachable δ F p k) (hq : Reachable δ F q k')
    (hpkinds : ∀ b ∈ p.bindings, b.kind = .quadraticCost ∨ b.kind = .linearEquality)
    (hqkinds : ∀ b ∈ q.bindings, b.kind = .quadraticCost ∨ b.kind = .linearEquality)
    (h : SameConstraints p q)
    (hcost : ∀ z : Vec ℝ p.numVars, q.totalCost (z.cast h.numVars_eq.symm) = p.totalCost z) :
    ∃ m, ∃ P Q : Problem ℝ p.numVars m, p.assemble.result = .ok ⟨p.numVars, m, P⟩ ∧
      q.assemble.result = .ok ⟨p.numVars, m, Q⟩ ∧ P.SameObjective Q ∧
      (SameTriangle P.hessian Q.hessian → ∃ x v p' q',
        (p.solve F false).result = .ok (p', .solutionFound) ∧
        (q.solve F false).result = .ok (q', .solutionFound) ∧
        p'.values = x.toArray.map some ∧ q'.values = p'.values ∧
        p'.optimalCost = some v ∧ q'.optimalCost = p'.optimalCost ∧ p.totalCost x = .ok v) := by
  obtain ⟨m, P, Q, hP, hQ, hsame, htotal⟩ := hp.closed.assemble_sameObjective hq.closed h hcost
  refine ⟨m, P, Q, hP, hQ, hsame, fun htriangle => ?_⟩
  obtain rfl := hsame.eq htriangle
  obtain ⟨s, hs⟩ := exists_candidate hF Q
  have ho := Problem.solve_unchecked_of_candidate hs
  have hpo := solveOutcome_of_assembled (isSupported_of_kinds hpkinds) hP ho
  have hqo := solveOutcome_of_assembled (isSupported_of_kinds hqkinds) hQ ho
  exact ⟨s.x, _, _, _, solve_of_outcome hpo, solve_of_outcome hqo, rfl, rfl, rfl, rfl, htotal s.x⟩

theorem totalCost_of_placed {cs : List (PlacedCost ℝ p.numVars)} (hcs : p.placedCosts = .ok cs)
    (z : Vec ℝ p.numVars) :
    p.totalCost z = .ok (cs.map fun c => c.cost.eval (z.select c.place)).sum := by
  rw [totalCost, p.costValues_eq, hcs]
  rfl

end Costs

section Tilted
open Matrix

/-- A cost over two variables. -/
noncomputable def costOn (Q : Matrix (Fin 2) (Fin 2) ℝ) (c : Fin 2 → ℝ) (v w : Variable) :
    Binding ℝ :=
  ⟨.quadraticCost ⟨2, Mat.ofMatrix Q, Vec.ofFn c⟩, [v, w], length_pair v w⟩

/-- A program with two variables. -/
noncomputable def overPair (bindings : Array (Binding ℝ)) : Program ℝ where
  vars := #[firstVar, secondVar]
  bindings := bindings
  values := #[none, none]
  optimalCost := none
  solverResult := none

/-- The program whose only binding is a cost over both of its variables. -/
noncomputable def underCost (Q : Matrix (Fin 2) (Fin 2) ℝ) (c : Fin 2 → ℝ) : Program ℝ :=
  overPair #[costOn Q c firstVar secondVar]

/-- Two variables in the order in which they were created. -/
def inOrder : Vec (Fin 2) 2 := Vec.ofFn id

/-- Two variables in reverse order. -/
def inReverse : Vec (Fin 2) 2 := Vec.ofFn Fin.rev

/-- A cost over two variables that have been located. -/
noncomputable def pairCost (Q : Matrix (Fin 2) (Fin 2) ℝ) (c : Fin 2 → ℝ) (place : Vec (Fin 2) 2) :
    PlacedCost ℝ 2 :=
  ⟨⟨2, Mat.ofMatrix Q, Vec.ofFn c⟩, place⟩

variable (Q : Matrix (Fin 2) (Fin 2) ℝ) (c : Fin 2 → ℝ)

theorem underCost_reachable : Reachable (NDArray ℝ) Factorizations.exact (underCost Q c) 2 :=
  (twoVars_reachable Factorizations.exact).add (costOn Q c firstVar secondVar)
    (Evaluator.read_quadraticCost _) (by simp [costOn])

theorem placement_inOrder : placement inOrder = 1 := by
  ext i j
  fin_cases i <;> fin_cases j <;> simp [placement, inOrder]

theorem placement_inReverse : placement inReverse = !![0, 1; 1, 0] := by
  ext i j
  fin_cases i <;> fin_cases j <;> simp [placement, inReverse]

theorem pairCost_eval (place : Vec (Fin 2) 2) (z : Vec ℝ 2) :
    (pairCost Q c place).cost.eval (z.select place) = objective Q c (z.get ∘ place.get) := by
  refine (quadraticCost_eq (Mat.ofMatrix Q) (Vec.ofFn c) (z.select place)).trans ?_
  rw [Mat.toMatrix_ofMatrix, Vec.coe_ofFn, Vec.coe_select]

theorem addHessian_pairCost (place : Vec (Fin 2) 2) (G : Mat ℝ 2 2) :
    ((pairCost Q c place).addHessian G).toMatrix =
      G.toMatrix + placement place * Q * (placement place)ᵀ := by
  rw [PlacedCost.toMatrix_addHessian, pairCost, Mat.toMatrix_ofMatrix]

theorem overPair_index (bindings : Array (Binding ℝ)) :
    (overPair bindings).index firstVar = .ok (0 : Fin 2) ∧
      (overPair bindings).index secondVar = .ok (1 : Fin 2) := by
  with_unfolding_all exact ⟨rfl, rfl⟩

theorem locate_inOrder (bindings : Array (Binding ℝ)) :
    (overPair bindings).locate [firstVar, secondVar] 2 = .ok inOrder := by
  obtain ⟨hfirst, hsecond⟩ := overPair_index bindings
  exact locate_eq (.cons hfirst (.cons hsecond .nil)) rfl

theorem locate_inReverse (bindings : Array (Binding ℝ)) :
    (overPair bindings).locate [secondVar, firstVar] 2 = .ok inReverse := by
  obtain ⟨hfirst, hsecond⟩ := overPair_index bindings
  exact locate_eq (.cons hsecond (.cons hfirst .nil)) rfl

theorem locate_pairCost {p : Program ℝ} {vs : List Variable} {place : Vec (Fin p.numVars) 2}
    (h : p.locate vs 2 = .ok place) :
    (do .ok (PlacedCost.mk ⟨2, Mat.ofMatrix Q, Vec.ofFn c⟩ (← p.locate vs 2)) :
      Except (Fault ℝ) (PlacedCost ℝ p.numVars)) =
      .ok ⟨⟨2, Mat.ofMatrix Q, Vec.ofFn c⟩, place⟩ := by
  rw [h]
  rfl

theorem underCost_placedCosts : (underCost Q c).placedCosts = .ok [pairCost Q c inOrder] :=
  mapM_eq_ok_iff.mpr (.cons (locate_pairCost Q c (locate_inOrder _)) .nil)

theorem underCost_assemble : (underCost Q c).assemble.result =
    .ok ⟨2, 0, ⟨Mat.ofMatrix Q, Vec.ofFn c, Mat.zero, Vec.zero⟩⟩ := by
  have hhessian : (pairCost Q c inOrder).addHessian Mat.zero = Mat.ofMatrix Q := by
    apply Mat.toMatrix_injective
    rw [addHessian_pairCost, placement_inOrder, transpose_one, Matrix.one_mul, Matrix.mul_one,
      Mat.toMatrix_zero, zero_add, Mat.toMatrix_ofMatrix]
  have hgradient : (pairCost Q c inOrder).addGradient Vec.zero = Vec.ofFn c := by
    apply Vec.coe_injective
    rw [PlacedCost.coe_addGradient, pairCost, placement_inOrder, one_mulVec, Vec.coe_zero, zero_add]
  rw [assemble_eq (underCost_placedCosts Q c) rfl, ← hhessian, ← hgradient]
  rfl

theorem underCost_totalCost (z : Vec ℝ 2) :
    (underCost Q c).totalCost z = .ok (objective Q c z.get) := by
  have heval := pairCost_eval Q c inOrder z
  rw [inOrder, Vec.coe_ofFn, Function.comp_id] at heval
  refine (totalCost_of_placed (underCost_placedCosts Q c) z).trans (congrArg Except.ok ?_)
  exact (add_zero _).trans heval

/-- With the lower triangle in place of the matrix, the stationary point is stored; the stored cost
is that of the matrix itself. -/
theorem underCost_solve {x : Fin 2 → ℝ} (hpos : (Mat.ofMatrix Q).symmetrized.toMatrix.PosDef)
    (hx : (Mat.ofMatrix Q).symmetrized.toMatrix *ᵥ x = -c) :
    ((underCost Q c).solve Factorizations.exact false).result =
      .ok ((underCost Q c).stored (Vec.ofFn x : Vec ℝ 2) (objective Q c x), .solutionFound) := by
  let P : Problem ℝ 2 0 := ⟨Mat.ofMatrix Q, Vec.ofFn c, Mat.zero, Vec.zero⟩
  have hs := findCandidate_unconstrained (x := Vec.ofFn x) (P := P)
    Factorizations.exact_exactCholesky two_ne_zero hpos (by rwa [Vec.coe_ofFn, Vec.coe_ofFn])
  have hsupported : ∀ b ∈ (underCost Q c).bindings, b.kind.isSupported := by
    simp [underCost, overPair, costOn, Binding.kind, Evaluator.kind, Kind.isSupported]
  have hcost : quadraticCost (Mat.ofMatrix Q) (Vec.ofFn c) (Vec.ofFn x) = objective Q c x := by
    rw [quadraticCost_eq, Mat.toMatrix_ofMatrix, Vec.coe_ofFn, Vec.coe_ofFn]
  rw [← hcost]
  exact solve_eq_ok hsupported (underCost_assemble Q c) (Problem.solve_unchecked_of_candidate hs)

theorem posDef_level : (!![2, 1; 1, 2] : Matrix (Fin 2) (Fin 2) ℝ).PosDef := by
  have hsum : (!![2, 1; 1, 2] : Matrix (Fin 2) (Fin 2) ℝ) = 1 + vecMulVec 1 (star 1) := by
    ext i j
    fin_cases i <;> fin_cases j <;> norm_num [vecMulVec_apply]
  rw [hsum]
  exact PosDef.one.add_posSemidef (posSemidef_vecMulVec_self_star _)

theorem objective_tilted (z : Fin 2 → ℝ) :
    objective !![2, 2; 0, 2] c z = objective !![2, 1; 1, 2] c z := by
  simp only [objective, mulVec, dotProduct, Fin.sum_univ_two, of_apply, cons_val_zero, cons_val_one,
    cons_val', cons_val_fin_one]
  ring

theorem symmetrized_two :
    (Mat.ofMatrix Q).symmetrized.toMatrix = !![Q 0 0, Q 1 0; Q 1 0, Q 1 1] := by
  ext i j
  fin_cases i <;> fin_cases j <;> simp [Mat.symmetrized]

/-- Two costs that are the same strictly convex function, without constraints. The one whose matrix
is not symmetric is stored with another point and another cost. -/
theorem tilted_solve :
    let p := underCost !![2, 1; 1, 2] ![-3, -3]
    let q := underCost !![2, 2; 0, 2] ![-3, -3]
    Reachable (NDArray ℝ) Factorizations.exact p 2 ∧
      Reachable (NDArray ℝ) Factorizations.exact q 2 ∧
      q.vars = p.vars ∧ p.linearEqualities = [] ∧ q.linearEqualities = [] ∧
      (∃ f, StrictConvexOn ℝ Set.univ f ∧
        ∀ z : Vec ℝ 2, p.totalCost z = .ok (f z.get) ∧ q.totalCost z = .ok (f z.get)) ∧
      (p.solve Factorizations.exact false).result =
        .ok (p.stored (Vec.ofFn ![1, 1] : Vec ℝ 2) (-3), .solutionFound) ∧
      (q.solve Factorizations.exact false).result =
        .ok (q.stored (Vec.ofFn ![3 / 2, 3 / 2] : Vec ℝ 2) (-9 / 4), .solutionFound) := by
  intro p q
  refine ⟨underCost_reachable _ _, underCost_reachable _ _, rfl, rfl, rfl, ?_, ?_, ?_⟩
  · refine ⟨_, strictConvexOn_objective posDef_level ![-3, -3], fun z => ?_⟩
    exact ⟨underCost_totalCost _ _ z, (underCost_totalCost _ _ z).trans
      (congrArg Except.ok (objective_tilted _ z.get))⟩
  · have hcost : objective !![2, 1; 1, 2] ![-3, -3] ![1, 1] = -3 := by
      norm_num [objective, mulVec, dotProduct, Fin.sum_univ_two]
    rw [← hcost]
    refine underCost_solve _ _ ?_ ?_
    · rw [symmetrized_two]
      exact posDef_level
    · rw [symmetrized_two]
      ext i
      fin_cases i <;> norm_num [mulVec, dotProduct, Fin.sum_univ_two]
  · have hcost : objective !![2, 2; 0, 2] ![-3, -3] ![3 / 2, 3 / 2] = -9 / 4 := by
      norm_num [objective, mulVec, dotProduct, Fin.sum_univ_two]
    rw [← hcost]
    refine underCost_solve _ _ ?_ ?_
    · have hdiagonal : (!![2, 0; 0, 2] : Matrix (Fin 2) (Fin 2) ℝ) = diagonal fun _ => 2 := by
        ext i j
        fin_cases i <;> fin_cases j <;> rfl
      rw [symmetrized_two]
      exact hdiagonal ▸ PosDef.diagonal fun _ => two_pos
    · rw [symmetrized_two]
      ext i
      fin_cases i <;> norm_num [mulVec, dotProduct, Fin.sum_univ_two]

/-- The constraint that both variables add up to zero. -/
noncomputable def balanceOn : Binding ℝ :=
  ⟨.linearEquality balance, [firstVar, secondVar], length_pair firstVar secondVar⟩

/-- A cost as a whole, under a constraint. -/
noncomputable def whole : Program ℝ := overPair #[costOn 1 1 firstVar secondVar, balanceOn]

/-- Half of the cost. Its matrix is not symmetric. -/
def halfMatrix : Matrix (Fin 2) (Fin 2) ℝ := !![1, 1; -1, 0]

/-- The same cost in two halves, one of them for each variable, with the constraint between. -/
noncomputable def halved : Program ℝ :=
  overPair #[costOn halfMatrix ![1, 0] firstVar secondVar, balanceOn,
    costOn halfMatrix ![1, 0] secondVar firstVar]

theorem whole_reachable : Reachable (NDArray ℝ) Factorizations.exact whole 2 := by
  have hcost := (twoVars_reachable Factorizations.exact).add (costOn 1 1 firstVar secondVar)
    (Evaluator.read_quadraticCost _) (by simp [costOn])
  exact hcost.add balanceOn (Evaluator.read_linearEquality balance) (by simp [balanceOn])

theorem halved_reachable : Reachable (NDArray ℝ) Factorizations.exact halved 2 := by
  have hfirst := (twoVars_reachable Factorizations.exact).add
    (costOn halfMatrix ![1, 0] firstVar secondVar) (Evaluator.read_quadraticCost _)
    (by simp [costOn])
  have hbalance := hfirst.add balanceOn (Evaluator.read_linearEquality balance)
    (by simp [balanceOn])
  exact hbalance.add (costOn halfMatrix ![1, 0] secondVar firstVar)
    (Evaluator.read_quadraticCost _) (by simp [costOn])

theorem whole_placedCosts : whole.placedCosts = .ok [pairCost 1 1 inOrder] :=
  mapM_eq_ok_iff.mpr (.cons (locate_pairCost 1 1 (locate_inOrder _)) .nil)

theorem halved_placedCosts : halved.placedCosts =
    .ok [pairCost halfMatrix ![1, 0] inOrder, pairCost halfMatrix ![1, 0] inReverse] :=
  mapM_eq_ok_iff.mpr (.cons (locate_pairCost halfMatrix ![1, 0] (locate_inOrder _))
    (.cons (locate_pairCost halfMatrix ![1, 0] (locate_inReverse _)) .nil))

theorem halved_totalCost (z : Vec ℝ 2) : halved.totalCost z = whole.totalCost z := by
  have hsum : objective halfMatrix ![1, 0] (z.get ∘ inOrder.get) +
      (objective halfMatrix ![1, 0] (z.get ∘ inReverse.get) + 0) =
      objective 1 1 (z.get ∘ inOrder.get) + 0 := by
    simp [objective, mulVec, dotProduct, Fin.sum_univ_two, halfMatrix, inOrder, inReverse]
    ring
  have hhalves := congrArg₂ (· + ·) (pairCost_eval halfMatrix ![1, 0] inOrder z)
    (congrArg (· + 0) (pairCost_eval halfMatrix ![1, 0] inReverse z))
  have hwhole := congrArg (· + 0) (pairCost_eval 1 1 inOrder z)
  refine (totalCost_of_placed halved_placedCosts z).trans (Eq.trans (congrArg Except.ok ?_)
    (totalCost_of_placed whole_placedCosts z).symm)
  exact hhalves.trans (hsum.trans hwhole.symm)

theorem hessian_eq_of_mk_eq {n m m' : ℕ} {P : Problem ℝ n m} {P' : Problem ℝ n m'}
    (h : (⟨n, m, P⟩ : AnyProblem ℝ) = ⟨n, m', P'⟩) : P.hessian = P'.hessian := by
  cases h
  rfl

theorem halved_hessian (es es' : List (PlacedEquality ℝ 2)) :
    (placedProblem [pairCost halfMatrix ![1, 0] inOrder, pairCost halfMatrix ![1, 0] inReverse]
        es').hessian =
      (placedProblem [pairCost 1 1 inOrder] es).hessian := by
  apply Mat.toMatrix_injective
  refine (addHessian_pairCost _ _ _ _).trans (Eq.trans ?_ (addHessian_pairCost _ _ _ _).symm)
  change ((pairCost halfMatrix ![1, 0] inOrder).addHessian Mat.zero).toMatrix + _ = _
  rw [addHessian_pairCost, placement_inOrder, placement_inReverse, Mat.toMatrix_zero]
  ext i j
  fin_cases i <;> fin_cases j <;> simp [halfMatrix, vecMul, dotProduct, Fin.sum_univ_two]

theorem halved_sameConstraints : SameConstraints whole halved := by
  have hvars : whole.vars = #[firstVar, secondVar] := rfl
  have hwhole : whole.linearEqualities = [(balance, [firstVar, secondVar])] := rfl
  have hhalved : halved.linearEqualities = [(balance, [firstVar, secondVar])] := rfl
  exact .of_eq hvars.symm (hhalved.trans hwhole.symm)

/-- The halves add up to a symmetric matrix, so both programs are solved alike. -/
theorem halved_solve :
    Reachable (NDArray ℝ) Factorizations.exact whole 2 ∧
      Reachable (NDArray ℝ) Factorizations.exact halved 2 ∧
      SameConstraints whole halved ∧ (∀ z : Vec ℝ 2, halved.totalCost z = whole.totalCost z) ∧
      ∃ x v p' q',
        (whole.solve Factorizations.exact false).result = .ok (p', .solutionFound) ∧
        (halved.solve Factorizations.exact false).result = .ok (q', .solutionFound) ∧
        p'.values = (x : Vec ℝ 2).toArray.map some ∧ q'.values = p'.values ∧
        p'.optimalCost = some v ∧ q'.optimalCost = p'.optimalCost ∧ whole.totalCost x = .ok v := by
  have hkinds : ∀ b ∈ whole.bindings, b.kind = .quadraticCost ∨ b.kind = .linearEquality := by
    simp [whole, overPair, costOn, balanceOn, Binding.kind, Evaluator.kind]
  have hkinds' : ∀ b ∈ halved.bindings, b.kind = .quadraticCost ∨ b.kind = .linearEquality := by
    simp [halved, overPair, costOn, balanceOn, Binding.kind, Evaluator.kind]
  -- both numbers of variables are compared with 2: to compare them with each other would be to
  -- compare the programs
  have hcast : ∀ z : Vec ℝ 2, halved.totalCost (z.cast halved_sameConstraints.numVars_eq.symm) =
      whole.totalCost z := fun z =>
    (congrArg halved.totalCost (Vec.cast_self (n := 2) rfl z)).trans (halved_totalCost z)
  obtain ⟨m, P, Q, hP, hQ, -, hsolve⟩ := solve_depends_on_totalCost
    Factorizations.exact_exactPivotedQR whole_reachable halved_reachable hkinds hkinds'
    halved_sameConstraints hcast
  refine ⟨whole_reachable, halved_reachable, halved_sameConstraints, halved_totalCost,
    hsolve (.inl ?_)⟩
  obtain ⟨es, hes⟩ := whole_reachable.closed.exists_placed.2
  obtain ⟨es', hes'⟩ := halved_reachable.closed.exists_placed.2
  have hwhole : (⟨2, m, P⟩ : AnyProblem ℝ) = ⟨2, _, placedProblem [pairCost 1 1 inOrder] es⟩ :=
    Except.ok.inj (hP.symm.trans (assemble_eq whole_placedCosts hes))
  have hhalved : (⟨2, m, Q⟩ : AnyProblem ℝ) = ⟨2, _, placedProblem
      [pairCost halfMatrix ![1, 0] inOrder, pairCost halfMatrix ![1, 0] inReverse] es'⟩ :=
    Except.ok.inj (hQ.symm.trans (assemble_eq halved_placedCosts hes'))
  have hhessian : Q.hessian = P.hessian := (hessian_eq_of_mk_eq hhalved).trans
    ((halved_hessian es es').trans (hessian_eq_of_mk_eq hwhole).symm)
  exact fun i j _ => congrArg (fun G : Mat ℝ whole.numVars whole.numVars => G i j) hhessian

end Tilted

end Program

end QuadraticProgram
