import QuadraticProgram.Arrays.Axes
import QuadraticProgram.Constraints.Reduction

/-! # Scaled and independent constraints as arrays

Constraints may come as arrays of any rank and with targets of any shape that can be divided by the
lengths of the rows. Rows can be told apart as independent or not only in a matrix.
-/

namespace QuadraticProgram.NDArray

variable {α : Type} [Scalar α]

/-- The cutoff of the caller for an array. It is looked at only if the array has entries, and after
these were found to be finite; an integer beyond the range of the number format is refused. -/
def checkedCutoff (M : NDArray α) (invalid : Fault α) :
    Option (Numeral α) → Except (Fault α) (Option α)
  | none => .ok none
  | some t =>
    if M.data.isEmpty then .ok none
    else if !M.isFinite then .error invalid
    else
      match t.inRange? with
      | some cutoff => .ok (some cutoff)
      | none => .error .integerTooLarge

/-- Constraints with rows of unit length. -/
structure Equilibrated (α : Type) where
  matrix : NDArray α
  target : NDArray α
  scales : NDArray α

/-- Divide every row of `A x = b` by its length. -/
def equilibrate (A b : NDArray α) : Except (Fault α) (Equilibrated α) := do
  let (matrix, scales) ← match A.asMat? with
    | some A =>
      let scales := rowScales A.entries
      .ok (ofMat (scaleRows A.entries scales), ofVec scales)
    | none => do
      let scales := (← A.lengths).map fun length => if Scalar.same length 0 then 1 else length
      .ok (A.divideLines scales, scales)
  let target ← zipWith (· / ·) b scales
  .ok ⟨matrix, target, scales⟩

/-- The rows of a matrix that count as independent. -/
def independentRows (F : Factorizations α) (A : NDArray α) (cutoff : Option (Numeral α)) :
    Except (Fault α) (List Nat) :=
  match A.asMat? with
  | some M => do
    let cutoff ← A.checkedCutoff .notFinite cutoff
    let rows ← QuadraticProgram.independentRows F M.entries cutoff
    .ok (rows.map Fin.val)
  | none => .error .shapesDiffer

/-- Constraints of which only independent rows of unit length are kept. -/
structure ReducedArrays (α : Type) where
  matrix : NDArray α
  target : NDArray α
  rows : List Nat
  scales : NDArray α

/-- Scale the rows of `A x = b` and keep an independent subset of them. -/
def reduceConstraints (F : Factorizations α) (A b : NDArray α) :
    Except (Fault α) (ReducedArrays α) := do
  let e ← equilibrate A b
  let rows ← independentRows F e.matrix none
  let matrix ← e.matrix.takeFirst rows
  let target ← e.target.takeFirst rows
  .ok ⟨matrix, target, rows, e.scales⟩

end QuadraticProgram.NDArray
