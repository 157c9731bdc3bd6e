import QuadraticProgram.Arrays.Product
import QuadraticProgram.Solver.Dense

/-! # Cholesky factors of stacks of matrices

Every matrix of a stack has its own factor, and a stack has factors only if all its matrices have.
The matrices are taken in order, and the first that fails decides how.
-/

namespace QuadraticProgram

/-- Square matrices of one size, arranged in an array. -/
structure SquareStack (α : Type) where
  size : Nat
  items : NDArray (Mat α size size)

namespace SquareStack

variable {α : Type} [Scalar α]

/-- The lower triangular factors of a stack of matrices. A number or a vector counts as one row. -/
def choleskyFactors? (F : Factorizations α) (G : NDArray α) :
    Except (Fault α) (Option (SquareStack α)) :=
  match (G.lift 2).asStack? with
  | none => .error .shapesDiffer
  | some s =>
    let factor (A : Mat α s.numRows s.numCols) :
        OptionT (Except (Fault α)) (Mat α s.numRows s.numRows) :=
      if h : s.numCols = s.numRows then OptionT.mk (choleskyFactor? F (A.castCols h))
      else OptionT.mk (.error .shapesDiffer)
    (s.items.mapM factor).run.map fun items => items.map fun items => ⟨s.numRows, items⟩

/-- The matrices as one array. -/
def toArray (s : SquareStack α) : NDArray α := NDArray.ofMats s.items

/-- Solve with every factor, given as many columns for each. A vector is one column. A number is
refused, but only after the data was found to be finite. -/
def solve (L : SquareStack α) (rhs : NDArray α) : Except (Fault α) (NDArray α) :=
  match L.items.data[0]? with
  | none => .error .notSingle
  | some first =>
    match rhs.columnStack? with
    | none => .error (if rhs.isFinite && first.isFinite then .outOfRange else .notFinite)
    | some s =>
      if h : s.numRows = L.size then
        match NDArray.zipWith? Prod.mk L.items s.items with
        | none => .error .shapesDiffer
        | some pairs =>
          if pairs.data.isEmpty then .ok (.ofArray #[])
          else do
            let solved ← pairs.mapM fun (factor, columns) =>
              (factorSolveRows factor (columns.castRows h).transpose).map Mat.transpose
            .ok (NDArray.ofStack ⟨L.size, s.numCols, solved⟩ true (rhs.rank ≠ 1))
      else .error .shapesDiffer

end SquareStack

/-- The lower triangular factor of a matrix, if it has one. A stack has to hold a single matrix. -/
def NDArray.choleskyFactor? {α : Type} [Scalar α] (F : Factorizations α) (G : NDArray α) :
    Except (Fault α) (Option (NDArray α)) := do
  match ← SquareStack.choleskyFactors? F G with
  | none => .ok none
  | some L => if L.items.data.size = 1 then .ok (some L.toArray) else .error .notSingle

end QuadraticProgram
