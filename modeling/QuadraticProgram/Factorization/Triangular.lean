import QuadraticProgram.Matrix.Basic

/-! # Triangular systems

Substitution computes one unknown at a time from those already known. Division is by the diagonal
entries only, so a nonzero diagonal is all that is needed.
-/

namespace QuadraticProgram.Triangular

variable {α : Type} [Scalar α] {n : Nat}

/-- A position before position `i`, among all positions. -/
def before {i : Fin n} (j : Fin i) : Fin n := ⟨j, Nat.lt_trans j.isLt i.isLt⟩

/-- The terms of row `i` that stand strictly left of the diagonal. -/
def leftSum (L : Mat α n n) (x : Vec α n) (i : Fin n) : α :=
  Scalar.sum fun j : Fin i => L i (before j) * x (before j)

/-- The terms of row `i` that stand strictly right of the diagonal. -/
def rightSum (U : Mat α n n) (x : Vec α n) (i : Fin n) : α :=
  Scalar.sum fun j : Fin (n - 1 - i) => U i ⟨i + 1 + j, by omega⟩ * x ⟨i + 1 + j, by omega⟩

/-- Solve `L x = b` from the first unknown to the last, reading the lower triangle of `L`. -/
def solveLower (L : Mat α n n) (b : Vec α n) : Vec α n :=
  Fin.foldl n (fun x i => x.set i ((b i - leftSum L x i) / L i i)) Vec.zero

/-- Solve `U x = b` from the last unknown to the first, reading the upper triangle of `U`. -/
def solveUpper (U : Mat α n n) (b : Vec α n) : Vec α n :=
  Fin.foldr n (fun i x => x.set i ((b i - rightSum U x i) / U i i)) Vec.zero

/-- Whether some diagonal entry is exactly zero. -/
def hasZeroDiagonal (U : Mat α n n) : Bool :=
  (Vec.ofFn fun i => U i i).entries.any fun d => Scalar.same d 0

end QuadraticProgram.Triangular
