import QuadraticProgram.Arrays.Source

/-! # Dense problems

Minimize `½ xᵀ G x + cᵀ x` subject to `A x = b`. A problem given as data is checked once; after that
its sizes are part of its type.
-/

namespace QuadraticProgram

/-- A problem with `n` variables and `m` equality constraints. -/
structure Problem (α : Type) (n m : Nat) where
  hessian : Mat α n n
  gradient : Vec α n
  matrix : Mat α m n
  target : Vec α m

/-- A problem together with its sizes. -/
structure AnyProblem (α : Type) where
  numVars : Nat
  numConstraints : Nat
  problem : Problem α numVars numConstraints

/-- Read a problem. The gradient fixes the number of variables; the Hessian has to match it, and the
constraints have to match both it and each other. Without a constraint matrix there are no
constraints, whatever the target. -/
def AnyProblem.read {δ α : Type} [ArraySource δ α] [Scalar α] (hessian gradient : δ)
    (matrix : Option δ) (target : δ) : Except (Fault α) (AnyProblem α) := do
  let c ← readVec gradient
  let G ← readMat hessian
  if hG : G.numRows = c.size ∧ G.numCols = c.size then
    let hessian : Mat α c.size c.size := G.entries.cast hG.1 hG.2
    match matrix with
    | none => .ok ⟨c.size, 0, ⟨hessian, c.entries, Mat.zero, Vec.zero⟩⟩
    | some matrix =>
      let A ← readMat matrix
      let b ← readVec target
      if hA : A.numCols = c.size ∧ b.size = A.numRows then
        .ok ⟨c.size, A.numRows,
          ⟨hessian, c.entries, A.entries.castCols hA.1, b.entries.cast hA.2⟩⟩
      else .error (.constraintShape A.shape b.shape c.size)
  else .error .hessianShape

end QuadraticProgram
