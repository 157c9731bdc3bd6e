import Mathlib.Data.Matrix.Basis
import QuadraticProgram.Program.Assembly
import QuadraticProgram.Proofs.Kkt.Objective

/-! # The assembled problem

Every binding picks its variables by a placement matrix, so what it adds to the problem is its own
data multiplied by that matrix, whether or not variables repeat. The assembled objective is the sum
of the costs, and the assembled constraints hold exactly where every equality holds.
-/

namespace QuadraticProgram
open Matrix

variable {m n k : ℕ}

/-- What every step of a loop adds up, the whole loop adds up. -/
theorem foldl_eq_add_sum {β M : Type*} [AddCommMonoid M] (value : β → M) {f : β → Fin k → β}
    {term : Fin k → M} (step : ∀ b i, value (f b i) = value b + term i) (b : β) :
    value (Fin.foldl k f b) = value b + ∑ i, term i := by
  induction k with
  | zero => simp
  | succ k ih =>
    rw [Fin.foldl_succ_last, step, ih fun b i => step b i.castSucc, Fin.sum_univ_castSucc,
      add_assoc]

theorem Mat.toMatrix_addAt (A : Mat ℝ m n) (i : Fin m) (j : Fin n) (a : ℝ) :
    (A.addAt i j a).toMatrix = A.toMatrix + single i j a := by
  ext r c
  rw [toMatrix_apply, addAt, get_setRow, Matrix.add_apply, single_apply, toMatrix_apply]
  by_cases hr : r = i
  · subst hr
    rw [if_pos rfl, Vec.get_set, get_row]
    by_cases hc : c = j
    · subst hc
      rw [if_pos rfl, if_pos ⟨rfl, rfl⟩]
    · rw [if_neg hc, if_neg fun h => hc h.2.symm, add_zero]
  · rw [if_neg hr, if_neg fun h => hr h.1.symm, add_zero]

theorem Vec.coe_addAt (x : Vec ℝ n) (i : Fin n) (a : ℝ) :
    (x.addAt i a).get = x.get + Pi.single i a := by
  funext j
  rw [addAt, get_set, Pi.add_apply, Pi.single_apply]
  by_cases h : j = i
  · rw [if_pos h, if_pos h, h]
  · rw [if_neg h, if_neg h, add_zero]

/-- The placement matrix: its columns are the coordinate vectors of the places. -/
def placement (place : Vec (Fin n) k) : Matrix (Fin n) (Fin k) ℝ :=
  Matrix.of fun i p => if place p = i then 1 else 0

theorem placement_transpose_mulVec (place : Vec (Fin n) k) (z : Vec ℝ n) :
    (placement place)ᵀ *ᵥ z.get = (z.select place).get := by
  funext p
  rw [Vec.get_select]
  simp [placement, mulVec, dotProduct]

/-- An entry of the Hessian collects the local entries that stand on it. -/
theorem PlacedCost.toMatrix_addHessian_apply (c : PlacedCost ℝ n) (G : Mat ℝ n n) (i j : Fin n) :
    (c.addHessian G).toMatrix i j = G.toMatrix i j +
      ∑ p, ∑ q, if c.place p = i ∧ c.place q = j then c.cost.quadratic p q else 0 := by
  have hstep := fun (G : Mat ℝ n n) (p : Fin c.cost.numVars) =>
    foldl_eq_add_sum Mat.toMatrix (fun G q =>
      Mat.toMatrix_addAt G (c.place p) (c.place q) (c.cost.quadratic p q)) G
  rw [addHessian, foldl_eq_add_sum Mat.toMatrix hstep]
  simp only [Matrix.add_apply, Matrix.sum_apply, single_apply]

theorem PlacedCost.coe_addGradient_apply (c : PlacedCost ℝ n) (g : Vec ℝ n) (i : Fin n) :
    (c.addGradient g).get i =
      g.get i + ∑ p, if c.place p = i then c.cost.linear p else 0 := by
  have hstep := fun (g : Vec ℝ n) (p : Fin c.cost.numVars) =>
    Vec.coe_addAt g (c.place p) (c.cost.linear p)
  rw [addGradient, foldl_eq_add_sum Vec.get hstep]
  simp only [Pi.add_apply, Finset.sum_apply, Pi.single_apply, eq_comm]

theorem PlacedCost.toMatrix_addHessian (c : PlacedCost ℝ n) (G : Mat ℝ n n) :
    (c.addHessian G).toMatrix = G.toMatrix +
      placement c.place * c.cost.quadratic.toMatrix * (placement c.place)ᵀ := by
  ext i j
  rw [c.toMatrix_addHessian_apply, Matrix.add_apply]
  congr 1
  simp only [Matrix.mul_apply, placement, of_apply, transpose_apply, Mat.toMatrix_apply, ite_mul,
    mul_ite, one_mul, zero_mul, mul_one, mul_zero, ite_and]
  rw [Finset.sum_comm]
  apply Finset.sum_congr rfl
  intro q _
  split
  · rfl
  · simp

theorem PlacedCost.coe_addGradient (c : PlacedCost ℝ n) (g : Vec ℝ n) :
    (c.addGradient g).get = g.get + placement c.place *ᵥ c.cost.linear.get := by
  funext i
  rw [c.coe_addGradient_apply, Pi.add_apply]
  simp [placement, mulVec, dotProduct]

theorem PlacedEquality.toMatrix_rows (e : PlacedEquality ℝ n) :
    e.rows.toMatrix = e.equality.matrix.toMatrix * (placement e.place)ᵀ := by
  have hstep : ∀ (A : Mat ℝ e.equality.numRows n) (p : Fin e.equality.numVars),
      (Mat.ofFn fun r j => if j = e.place p then A r j + e.equality.matrix r p
        else A r j : Mat ℝ e.equality.numRows n).toMatrix =
      A.toMatrix + Matrix.of fun r j => if j = e.place p then e.equality.matrix r p else 0 := by
    intro A p
    ext r j
    rw [Mat.toMatrix_ofFn, of_apply, Matrix.add_apply, of_apply, Mat.toMatrix_apply]
    split
    · rfl
    · rw [add_zero]
  rw [rows, foldl_eq_add_sum Mat.toMatrix hstep, Mat.toMatrix_zero, zero_add]
  ext r j
  simp [Matrix.sum_apply, Matrix.mul_apply, placement, eq_comm]

/-- The coefficients of a variable that an equality names more than once add up. -/
theorem PlacedEquality.rows_apply (e : PlacedEquality ℝ n) (r : Fin e.equality.numRows)
    (j : Fin n) :
    e.rows r j = ∑ p, if e.place p = j then e.equality.matrix r p else 0 := by
  have h := congrFun (congrFun e.toMatrix_rows r) j
  simpa [Matrix.mul_apply, placement] using h

theorem objective_placement (Q : Matrix (Fin k) (Fin k) ℝ) (b : Fin k → ℝ) (place : Vec (Fin n) k)
    (z : Vec ℝ n) :
    objective (placement place * Q * (placement place)ᵀ) (placement place *ᵥ b) z.get =
      objective Q b (z.select place).get := by
  have hmove : ∀ v, z.get ⬝ᵥ placement place *ᵥ v = (placement place)ᵀ *ᵥ z.get ⬝ᵥ v := fun v => by
    rw [dotProduct_mulVec, mulVec_transpose]
  rw [← placement_transpose_mulVec, objective, objective, ← mulVec_mulVec, ← mulVec_mulVec, hmove,
    dotProduct_comm (placement place *ᵥ b), hmove, dotProduct_comm b]

theorem objective_add_data (G H : Matrix (Fin n) (Fin n) ℝ) (g h z : Fin n → ℝ) :
    objective (G + H) (g + h) z = objective G g z + objective H h z := by
  rw [objective, objective, objective, add_mulVec, dotProduct_add, add_dotProduct]
  ring

/-- Adding a cost to a problem adds its value to the objective. -/
theorem PlacedCost.objective_add (c : PlacedCost ℝ n) (G : Mat ℝ n n) (g z : Vec ℝ n) :
    objective (c.addHessian G).toMatrix (c.addGradient g).get z.get =
      objective G.toMatrix g.get z.get + c.cost.eval (z.select c.place) := by
  rw [c.toMatrix_addHessian, c.coe_addGradient, objective_add_data, objective_placement,
    QuadraticCost.eval, quadraticCost_eq]

theorem PlacedEquality.rows_mulVec (e : PlacedEquality ℝ n) (z : Vec ℝ n) :
    e.rows.toMatrix *ᵥ z.get = (e.equality.eval (z.select e.place)).get := by
  rw [e.toMatrix_rows, ← mulVec_mulVec, placement_transpose_mulVec, LinearEquality.eval,
    Mat.coe_mulVec]

theorem Mat.above_castAdd (A : Mat ℝ m n) (B : Mat ℝ k n) (i : Fin m) :
    (A.above B).toMatrix (i.castAdd k) = A.toMatrix i := by
  funext j
  simp [above]

theorem Mat.above_natAdd (A : Mat ℝ m n) (B : Mat ℝ k n) (i : Fin k) :
    (A.above B).toMatrix (i.natAdd m) = B.toMatrix i := by
  funext j
  simp [above]

theorem Mat.above_mulVec (A : Mat ℝ m n) (B : Mat ℝ k n) (z : Fin n → ℝ) :
    (A.above B).toMatrix *ᵥ z = Fin.append (A.toMatrix *ᵥ z) (B.toMatrix *ᵥ z) := by
  funext i
  refine Fin.addCases (fun i => ?_) (fun i => ?_) i
  · rw [Fin.append_left]
    exact congrArg (· ⬝ᵥ z) (above_castAdd A B i)
  · rw [Fin.append_right]
    exact congrArg (· ⬝ᵥ z) (above_natAdd A B i)

theorem Stack.push_row (s : Stack ℝ n) (e : PlacedEquality ℝ n) {P : (Fin n → ℝ) → Prop}
    (hs : ∀ i, P (s.matrix.toMatrix i)) (he : ∀ i, P (e.rows.toMatrix i))
    (i : Fin (s.push e).numRows) : P ((s.push e).matrix.toMatrix i) := by
  refine Fin.addCases (motive := fun i => P ((s.push e).matrix.toMatrix i)) (fun i => ?_)
    (fun i => ?_) i
  · exact (Mat.above_castAdd s.matrix e.rows i).symm ▸ hs i
  · exact (Mat.above_natAdd s.matrix e.rows i).symm ▸ he i

theorem Stack.foldl_push_row (s : Stack ℝ n) (equalities : List (PlacedEquality ℝ n))
    {P : (Fin n → ℝ) → Prop} (hs : ∀ i, P (s.matrix.toMatrix i))
    (he : ∀ e ∈ equalities, ∀ i, P (e.rows.toMatrix i))
    (i : Fin (equalities.foldl push s).numRows) :
    P ((equalities.foldl push s).matrix.toMatrix i) := by
  induction equalities generalizing s with
  | nil => exact hs i
  | cons e es ih =>
    obtain ⟨he, hes⟩ := List.forall_mem_cons.mp he
    exact ih (s.push e) (s.push_row e hs he) hes i

/-- Where all rows of a stack meet their targets. -/
def Stack.Holds (s : Stack ℝ n) (z : Vec ℝ n) : Prop := s.matrix.mulVec z = s.target

theorem Stack.push_holds_iff (s : Stack ℝ n) (e : PlacedEquality ℝ n) (z : Vec ℝ n) :
    (s.push e).Holds z ↔ s.Holds z ∧ e.equality.eval (z.select e.place) = e.equality.target := by
  simp only [Holds, push, Mat.mulVec_eq_iff]
  rw [Mat.above_mulVec, Vec.coe_append, append_eq_append_iff, e.rows_mulVec,
    Vec.coe_injective.eq_iff]

theorem Stack.foldl_push_holds_iff (s : Stack ℝ n) (equalities : List (PlacedEquality ℝ n))
    (z : Vec ℝ n) : (equalities.foldl Stack.push s).Holds z ↔
      s.Holds z ∧ ∀ e ∈ equalities, e.equality.eval (z.select e.place) = e.equality.target := by
  induction equalities generalizing s with
  | nil => simp
  | cons e es ih =>
    rw [List.foldl_cons, ih, push_holds_iff, and_assoc, List.forall_mem_cons]

section Assembled

variable (costs : List (PlacedCost ℝ n)) (equalities : List (PlacedEquality ℝ n)) (z : Vec ℝ n)

/-- The dense problem of located costs and equalities, with its number of variables known. -/
noncomputable def placedProblem :
    Problem ℝ n (equalities.foldl Stack.push Stack.empty : Stack ℝ n).numRows where
  hessian := costs.foldl (fun G c => c.addHessian G) Mat.zero
  gradient := costs.foldl (fun g c => c.addGradient g) Vec.zero
  matrix := (equalities.foldl Stack.push Stack.empty).matrix
  target := (equalities.foldl Stack.push Stack.empty).target

/-- What holds of every row of every equality holds of every row of the assembled matrix. -/
theorem placedProblem_row {P : (Fin n → ℝ) → Prop}
    (h : ∀ e ∈ equalities, ∀ i, P (e.rows.toMatrix i)) (i) :
    P ((placedProblem costs equalities).matrix.toMatrix i) :=
  Stack.foldl_push_row Stack.empty equalities (fun i => i.elim0) h i

/-- The assembled constraints hold exactly where every equality holds. -/
theorem placedProblem_mulVec_eq_iff :
    (placedProblem costs equalities).matrix.mulVec z = (placedProblem costs equalities).target ↔
      ∀ e ∈ equalities, e.equality.eval (z.select e.place) = e.equality.target := by
  have h := Stack.foldl_push_holds_iff Stack.empty equalities z
  have hempty : (Stack.empty : Stack ℝ n).Holds z := Vec.ext_get fun i => i.elim0
  exact h.trans (and_iff_right hempty)

theorem objective_foldl (G : Mat ℝ n n) (g : Vec ℝ n) :
    objective (costs.foldl (fun G c => c.addHessian G) G).toMatrix
        (costs.foldl (fun g c => c.addGradient g) g).get z.get =
      objective G.toMatrix g.get z.get +
        (costs.map fun c => c.cost.eval (z.select c.place)).sum := by
  induction costs generalizing G g with
  | nil => simp
  | cons c cs ih =>
    rw [List.foldl_cons, List.foldl_cons, ih, c.objective_add, List.map_cons, List.sum_cons,
      add_assoc]

/-- The assembled objective is the sum of the costs. -/
theorem placedProblem_cost :
    quadraticCost (placedProblem costs equalities).hessian
        (placedProblem costs equalities).gradient z =
      (costs.map fun c => c.cost.eval (z.select c.place)).sum := by
  have hzero : objective (Mat.zero : Mat ℝ n n).toMatrix (Vec.zero : Vec ℝ n).get z.get = 0 := by
    rw [Mat.toMatrix_zero, Vec.coe_zero, objective, zero_mulVec, dotProduct_zero, zero_dotProduct,
      zero_div, add_zero]
  rw [quadraticCost_eq, placedProblem, objective_foldl, hzero, zero_add]

end Assembled

end QuadraticProgram
