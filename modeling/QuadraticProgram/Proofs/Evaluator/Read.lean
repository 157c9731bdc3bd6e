import QuadraticProgram.Evaluator.Read
import QuadraticProgram.Proofs.Exact.Scalar

/-! # Every quadratic cost and every equality can be read

The arrays of a matrix and of a vector are read back unchanged, so no cost or equality over the
reals is out of reach.
-/

namespace QuadraticProgram

variable {α : Type} {m n : ℕ}

namespace NDArray

/-- The quotient of a place by the width of the lines is the line. -/
theorem line_of_place {q r w : ℕ} (hr : r < w) : (q * w + r) / w = q := by
  rw [Nat.mul_comm, Nat.mul_add_div (Nat.zero_lt_of_lt hr), Nat.div_eq_of_lt hr, Nat.add_zero]

theorem matOf_ofMat (A : Mat α m n) : matOf (ofMat A) rfl = A := by
  apply Mat.ext_get
  intro i j
  have hrow : (i.val * n + j.val) / n = i.val := line_of_place j.isLt
  have hcol : (i.val * n + j.val) % n = j.val := Nat.mul_add_mod_of_lt j.isLt
  apply (Mat.get_ofFn _ i j).trans
  simp only [ofMat, Array.getElem_ofFn, hrow, hcol]

theorem vecOf_ofVec (x : Vec α n) : vecOf (ofVec x) rfl = x := by
  apply Vec.ext_get
  intro i
  exact Vec.get_ofFn _ i

end NDArray

theorem readMat_ofMat (A : Mat α m n) : readMat (NDArray.ofMat A) = .ok ⟨m, n, A⟩ :=
  congrArg (fun A => Except.ok (AnyMat.mk m n A)) (NDArray.matOf_ofMat A)

theorem readVec_ofVec (x : Vec α n) : readVec (NDArray.ofVec x) = .ok ⟨n, x⟩ :=
  congrArg (fun x => Except.ok (AnyVec.mk n x)) (NDArray.vecOf_ofVec x)

theorem Vec.same_self (x : Vec ℝ n) : x.same x = true := by
  rw [same, List.all_eq_true]
  exact fun i _ => (Scalar.same_iff _ _).mpr rfl

namespace Evaluator

theorem read_quadraticCost [Scalar α] (e : QuadraticCost α) :
    read (.quadraticCost (NDArray.ofMat e.quadratic) (NDArray.ofVec e.linear)) =
      .ok (.quadraticCost e) := by
  rw [read, QuadraticCost.read, readMat_ofMat, readVec_ofVec]
  change Except.map _ (dite _ _ _) = _
  rw [dif_pos ⟨rfl, rfl⟩]
  rfl

theorem read_linearEquality (e : LinearEquality ℝ) :
    read (.linearEquality (NDArray.ofMat e.matrix) (NDArray.ofVec e.target) none) =
      .ok (.linearEquality e) := by
  rw [read, LinearEquality.read, readMat_ofMat, readVec_ofVec]
  change Except.map _ (dite _ _ _) = _
  rw [dif_pos rfl, dif_pos rfl]
  change Except.map _ (if e.target.same e.target then _ else _) = _
  rw [if_pos e.target.same_self]
  rfl

end Evaluator

end QuadraticProgram
