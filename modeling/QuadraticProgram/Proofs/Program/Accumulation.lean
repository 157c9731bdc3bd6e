import QuadraticProgram.Proofs.Program.Optimality

/-! # Costs accumulate entry by entry

An entry of the assembled Hessian collects, from every quadratic cost, every pair of its local
variables that stands on the entry, however often a variable is named and wherever the cost comes in
the order of the bindings. The entries of the gradient are collected in the same way.
-/

namespace QuadraticProgram

/-- What every step of a loop over a list adds up, the whole loop adds up. -/
theorem list_foldl_eq_add_sum {β γ M : Type*} [AddCommMonoid M] (value : β → M) {f : β → γ → β}
    {term : γ → M} (step : ∀ b c, value (f b c) = value b + term c) (b : β) (cs : List γ) :
    value (cs.foldl f b) = value b + (cs.map term).sum := by
  induction cs generalizing b with
  | nil => simp
  | cons c cs ih => rw [List.foldl_cons, ih, step, List.map_cons, List.sum_cons, add_assoc]

/-- Lists that match element by element give the same sum. -/
theorem sum_eq_of_forall₂ {β γ M : Type*} [AddCommMonoid M] {R : β → γ → Prop} {f : β → M}
    {g : γ → M} (hfg : ∀ x y, R x y → f x = g y) {xs : List β} {ys : List γ}
    (h : List.Forall₂ R xs ys) : (xs.map f).sum = (ys.map g).sum := by
  rw [map_eq_of_forall₂ hfg h]

section Entries

variable {n : ℕ} (costs : List (PlacedCost ℝ n)) (equalities : List (PlacedEquality ℝ n))

theorem placedProblem_hessian_apply (i j : Fin n) :
    (placedProblem costs equalities).hessian i j =
      (costs.map fun c => ∑ r, ∑ s,
        if c.place r = i ∧ c.place s = j then c.cost.quadratic r s else 0).sum := by
  have h := list_foldl_eq_add_sum (fun G : Mat ℝ n n => G.toMatrix i j)
    (fun G c => PlacedCost.toMatrix_addHessian_apply c G i j) Mat.zero costs
  rwa [Mat.toMatrix_zero, Matrix.zero_apply, zero_add] at h

theorem placedProblem_gradient_apply (i : Fin n) :
    (placedProblem costs equalities).gradient i =
      (costs.map fun c => ∑ r, if c.place r = i then c.cost.linear r else 0).sum := by
  have h := list_foldl_eq_add_sum (fun g : Vec ℝ n => g.get i)
    (fun g c => PlacedCost.coe_addGradient_apply c g i) Vec.zero costs
  rwa [Vec.coe_zero, Pi.zero_apply, zero_add] at h

end Entries

namespace Program

section Terms

variable {α : Type} [Scalar α] (p : Program α)

/-- The position in the program of a local variable of a binding. -/
def positionAt (vs : List Variable) (r : ℕ) : Option (Fin p.numVars) :=
  vs[r]?.bind fun v => (p.index v).toOption

theorem positionAt_rebound (bindings values cost result) :
    (⟨p.vars, bindings, values, cost, result⟩ : Program α).positionAt = p.positionAt := by
  funext vs r
  exact congrArg (fun f : Variable → Except (Fault α) (Fin p.numVars) =>
    vs[r]?.bind fun v => (f v).toOption) (p.index_rebound bindings values cost result)

theorem positionAt_of_locate {vs : List Variable} {k : ℕ} {place : Vec (Fin p.numVars) k}
    (h : p.locate vs k = .ok place) (r : Fin k) : p.positionAt vs r = some (place r) := by
  obtain ⟨places, hplaces, h⟩ := bind_eq_ok h
  have hindex := mapM_eq_ok_iff.mp hplaces
  split at h
  · rename_i hsize
    cases h
    obtain ⟨hlength, hget⟩ := List.forall₂_iff_get.mp hindex
    have hr : r.val < places.length := by
      rw [← List.size_toArray, hsize]
      exact r.isLt
    rw [positionAt, List.getElem?_eq_getElem (hlength.symm ▸ hr), Option.bind_some]
    have hi := hget r.val (hlength.symm ▸ hr) hr
    rw [List.get_eq_getElem, List.get_eq_getElem] at hi
    rw [hi]
    rfl
  · cases h

end Terms

section Exact

variable (p : Program ℝ)

/-- What a binding contributes as a quadratic cost; nothing if it is of another kind. -/
def costTerm {M : Type} [Zero M] (f : QuadraticCost ℝ → List Variable → M) (b : Binding ℝ) : M :=
  match b.evaluator with
  | .quadraticCost e => f e b.vars
  | _ => 0

theorem sum_quadraticCosts {M : Type} [AddCommMonoid M] (f : QuadraticCost ℝ → List Variable → M) :
    (p.quadraticCosts.map fun c => f c.1 c.2).sum = (p.bindings.toList.map (costTerm f)).sum := by
  rw [quadraticCosts]
  induction p.bindings.toList with
  | nil => rfl
  | cons b bs ih =>
    rw [List.map_cons, List.sum_cons, ← ih, costTerm, List.filterMap_cons]
    cases b.evaluator with
    | quadraticCost e => rw [List.map_cons, List.sum_cons]
    | _ => rw [zero_add]

/-- What a binding adds to an entry of the Hessian: the entries of its matrix at all pairs of local
variables that stand on the entry. -/
noncomputable def hessianTerm (i j : Fin p.numVars) : Binding ℝ → ℝ :=
  costTerm fun e vs => ∑ r : Fin e.numVars, ∑ s : Fin e.numVars,
    if p.positionAt vs r = some i ∧ p.positionAt vs s = some j then e.quadratic r s else 0

/-- What a binding adds to an entry of the gradient. -/
noncomputable def gradientTerm (i : Fin p.numVars) : Binding ℝ → ℝ :=
  costTerm fun e vs => ∑ r : Fin e.numVars, if p.positionAt vs r = some i then e.linear r else 0

theorem hessianTerm_rebound (bindings values cost result) (i j : Fin p.numVars) :
    (⟨p.vars, bindings, values, cost, result⟩ : Program ℝ).hessianTerm i j = p.hessianTerm i j := by
  unfold hessianTerm
  rw [positionAt_rebound]
  rfl

theorem gradientTerm_rebound (bindings values cost result) (i : Fin p.numVars) :
    (⟨p.vars, bindings, values, cost, result⟩ : Program ℝ).gradientTerm i = p.gradientTerm i := by
  unfold gradientTerm
  rw [positionAt_rebound]
  rfl

variable {p} {cs : List (PlacedCost ℝ p.numVars)} (hcs : p.placedCosts = .ok cs)
include hcs

/-- Located costs contribute what the bindings do. -/
theorem sum_placedCosts {M : Type} [AddCommMonoid M] {f : QuadraticCost ℝ → List Variable → M}
    {g : PlacedCost ℝ p.numVars → M}
    (hfg : ∀ e vs place, p.locate vs e.numVars = .ok place → f e vs = g ⟨e, place⟩) :
    (cs.map g).sum = (p.bindings.toList.map (costTerm f)).sum := by
  rw [← p.sum_quadraticCosts f]
  symm
  refine sum_eq_of_forall₂ ?_ (mapM_eq_ok_iff.mp hcs)
  intro c y hy
  obtain ⟨place, hplace, hy⟩ := bind_eq_ok hy
  cases hy
  exact hfg c.1 c.2 place hplace

theorem sum_hessianTerm (i j : Fin p.numVars) :
    (cs.map fun c => ∑ r, ∑ s,
      if c.place r = i ∧ c.place s = j then c.cost.quadratic r s else 0).sum =
      (p.bindings.toList.map (p.hessianTerm i j)).sum := by
  apply sum_placedCosts hcs
  intro e vs place hplace
  simp only [p.positionAt_of_locate hplace, Option.some.injEq]

theorem sum_gradientTerm (i : Fin p.numVars) :
    (cs.map fun c => ∑ r, if c.place r = i then c.cost.linear r else 0).sum =
      (p.bindings.toList.map (p.gradientTerm i)).sum := by
  apply sum_placedCosts hcs
  intro e vs place hplace
  simp only [p.positionAt_of_locate hplace, Option.some.injEq]

end Exact

section Accumulated

variable {p q : Program ℝ}

/-- The assembled problem of a program whose variables are all known, entry by entry. -/
theorem Closed.assemble_entries (h : p.Closed) :
    ∃ m, ∃ P : Problem ℝ p.numVars m, p.assemble.result = .ok ⟨p.numVars, m, P⟩ ∧
      (∀ i j, P.hessian i j = (p.bindings.toList.map (p.hessianTerm i j)).sum) ∧
      (∀ i, P.gradient i = (p.bindings.toList.map (p.gradientTerm i)).sum) ∧
      ∀ z, p.totalCost z = .ok (quadraticCost P.hessian P.gradient z) := by
  rcases h.exists_placed with ⟨⟨cs, hcs⟩, es, hes⟩
  refine ⟨_, placedProblem cs es, assemble_eq hcs hes, fun i j => ?_, fun i => ?_,
    totalCost_eq hcs es⟩
  · rw [placedProblem_hessian_apply, sum_hessianTerm hcs]
  · rw [placedProblem_gradient_apply, sum_gradientTerm hcs]

theorem Closed.of_perm (h : p.Closed) (hvars : q.vars = p.vars)
    (hperm : q.bindings.toList.Perm p.bindings.toList) : q.Closed := by
  intro b hb v hv
  rw [hvars]
  exact h b (Array.mem_toList_iff.mp (hperm.mem_iff.mp (Array.mem_toList_iff.mpr hb))) v hv

/-- Bindings in another order make the same Hessian and the same gradient. -/
theorem Closed.assemble_of_perm (h : p.Closed) (hvars : q.vars = p.vars)
    (hperm : q.bindings.toList.Perm p.bindings.toList) :
    ∃ m, ∃ P : Problem ℝ p.numVars m, q.assemble.result = .ok ⟨p.numVars, m, P⟩ ∧
      (∀ i j, P.hessian i j = (p.bindings.toList.map (p.hessianTerm i j)).sum) ∧
      ∀ i, P.gradient i = (p.bindings.toList.map (p.gradientTerm i)).sum := by
  obtain ⟨m, P, hP, hhessian, hgradient, -⟩ := (h.of_perm hvars hperm).assemble_entries
  obtain ⟨vars, bindings, values, cost, result⟩ := q
  obtain rfl : vars = p.vars := hvars
  refine ⟨m, P, hP, fun i j => ?_, fun i => ?_⟩
  · apply (hhessian i j).trans
    rw [hessianTerm_rebound]
    exact (hperm.map (p.hessianTerm i j)).sum_eq
  · apply (hgradient i).trans
    rw [gradientTerm_rebound]
    exact (hperm.map (p.gradientTerm i)).sum_eq

/-- Every program that operations can build is assembled. Each entry of the Hessian and of the
gradient is the sum, over the quadratic costs, of the local entries that stand on it. So the
assembled objective is the sum of the costs at every point, and bindings in another order make the
same Hessian and the same gradient. -/
theorem assemble_accumulates {δ : Type} [ArraySource δ ℝ] {F : Factorizations ℝ} {k : ℕ}
    (hp : Reachable δ F p k) :
    ∃ m, ∃ P : Problem ℝ p.numVars m, p.assemble.result = .ok ⟨p.numVars, m, P⟩ ∧
      (∀ i j, P.hessian i j = (p.bindings.toList.map (p.hessianTerm i j)).sum) ∧
      (∀ i, P.gradient i = (p.bindings.toList.map (p.gradientTerm i)).sum) ∧
      (∀ z, p.totalCost z = .ok (quadraticCost P.hessian P.gradient z)) ∧
      ∀ q : Program ℝ, q.vars = p.vars → q.bindings.toList.Perm p.bindings.toList →
        ∃ m', ∃ P' : Problem ℝ p.numVars m', q.assemble.result = .ok ⟨p.numVars, m', P'⟩ ∧
          P'.hessian = P.hessian ∧ P'.gradient = P.gradient := by
  obtain ⟨m, P, hP, hhessian, hgradient, hcost⟩ := hp.closed.assemble_entries
  refine ⟨m, P, hP, hhessian, hgradient, hcost, fun q hvars hperm => ?_⟩
  obtain ⟨m', P', hP', hhessian', hgradient'⟩ := hp.closed.assemble_of_perm hvars hperm
  refine ⟨m', P', hP', Mat.ext_get fun i j => ?_, Vec.ext_get fun i => ?_⟩
  · rw [hhessian', hhessian]
  · rw [hgradient', hgradient]

/-- A cost with the matrix `[[1, 2], [3, 4]]` and the linear term `[5, 6]`. -/
noncomputable def slanted : QuadraticCost ℝ :=
  ⟨2, Mat.ofFn fun i j => ((2 * i + j + 1 : ℕ) : ℝ), Vec.ofFn fun i => ((i + 5 : ℕ) : ℝ)⟩

noncomputable def slantedOn (v w : Variable) : Binding ℝ := ⟨.quadraticCost slanted, [v, w], rfl⟩

noncomputable def vanishingAt (v : Variable) : Binding ℝ := ⟨.linearEquality vanishing, [v], rfl⟩

/-- The cost stands twice on the first variable and once on both in reverse order, with an equality
between. -/
noncomputable def tangled : Program ℝ where
  vars := #[firstVar, secondVar]
  bindings := #[slantedOn firstVar firstVar, vanishingAt firstVar, slantedOn secondVar firstVar]
  values := #[none, none]
  optimalCost := none
  solverResult := none

theorem tangled_reachable : Reachable (NDArray ℝ) Factorizations.standard tangled 2 := by
  have htwice := (twoVars_reachable Factorizations.standard).add (slantedOn firstVar firstVar)
    (Evaluator.read_quadraticCost slanted) (by simp [slantedOn])
  have hpin := htwice.add (vanishingAt firstVar)
    (Evaluator.read_linearEquality vanishing) (by simp [vanishingAt])
  exact hpin.add (slantedOn secondVar firstVar)
    (Evaluator.read_quadraticCost slanted) (by simp [slantedOn])

theorem tangled_placedCosts : tangled.placedCosts =
    .ok [⟨slanted, (Vec.ofFn ![0, 0] : Vec (Fin 2) 2)⟩,
      ⟨slanted, (Vec.ofFn ![1, 0] : Vec (Fin 2) 2)⟩] := by
  have h0 : tangled.index firstVar = .ok (0 : Fin 2) := by with_unfolding_all rfl
  have h1 : tangled.index secondVar = .ok (1 : Fin 2) := by with_unfolding_all rfl
  have htwice := locate_eq (.cons h0 (.cons h0 .nil)) (k := 2) rfl
  have hreversed := locate_eq (.cons h1 (.cons h0 .nil)) (k := 2) rfl
  refine mapM_eq_ok_iff.mpr (.cons ?_ (.cons ?_ .nil))
  · exact congrArg (· >>= fun place => Except.ok (PlacedCost.mk slanted place)) htwice
  · exact congrArg (· >>= fun place => Except.ok (PlacedCost.mk slanted place)) hreversed

theorem tangled_hessianTerm (i j : Fin 2) :
    (tangled.bindings.toList.map (tangled.hessianTerm i j)).sum = ![![14, 3], ![2, 1]] i j := by
  refine (sum_hessianTerm tangled_placedCosts i j).symm.trans ?_
  change (∑ r : Fin 2, ∑ s : Fin 2, if (Vec.ofFn ![0, 0] : Vec (Fin 2) 2) r = i ∧
      (Vec.ofFn ![0, 0] : Vec (Fin 2) 2) s = j then
        slanted.quadratic r s else 0) +
    ((∑ r : Fin 2, ∑ s : Fin 2, if (Vec.ofFn ![1, 0] : Vec (Fin 2) 2) r = i ∧
      (Vec.ofFn ![1, 0] : Vec (Fin 2) 2) s = j then
        slanted.quadratic r s else 0) + 0) = _
  simp only [Fin.sum_univ_two, slanted, Mat.get_ofFn, Vec.get_ofFn]
  fin_cases i <;> fin_cases j <;> norm_num

theorem tangled_gradientTerm (i : Fin 2) :
    (tangled.bindings.toList.map (tangled.gradientTerm i)).sum = ![17, 5] i := by
  refine (sum_gradientTerm tangled_placedCosts i).symm.trans ?_
  change (∑ r : Fin 2, if (Vec.ofFn ![0, 0] : Vec (Fin 2) 2) r = i then
      slanted.linear r else 0) +
    ((∑ r : Fin 2, if (Vec.ofFn ![1, 0] : Vec (Fin 2) 2) r = i then
      slanted.linear r else 0) + 0) = _
  simp only [Fin.sum_univ_two, slanted, Vec.get_ofFn]
  fin_cases i <;> norm_num

/-- The entries of the assembled problem, with the bindings in either order. -/
theorem tangled_assemble : Reachable (NDArray ℝ) Factorizations.standard tangled 2 ∧
    ∃ m, ∃ P : Problem ℝ tangled.numVars m, tangled.assemble.result = .ok ⟨2, m, P⟩ ∧
      (∀ i j, P.hessian i j = ![![14, 3], ![2, 1]] i j) ∧ (∀ i, P.gradient i = ![17, 5] i) ∧
      ∃ m', ∃ P' : Problem ℝ tangled.numVars m',
        ({ tangled with bindings := tangled.bindings.reverse } : Program ℝ).assemble.result =
          .ok ⟨2, m', P'⟩ ∧ P'.hessian = P.hessian ∧ P'.gradient = P.gradient := by
  obtain ⟨m, P, hP, hhessian, hgradient, -, horder⟩ := assemble_accumulates tangled_reachable
  refine ⟨tangled_reachable, m, P, hP, fun i j => ?_, fun i => ?_, horder _ rfl ?_⟩
  · exact (hhessian i j).trans (tangled_hessianTerm i j)
  · exact (hgradient i).trans (tangled_gradientTerm i)
  · rw [Array.toList_reverse]
    exact List.reverse_perm _

end Accumulated

end Program

end QuadraticProgram
