import QuadraticProgram.Arrays.Product
import QuadraticProgram.Arrays.Reduction
import QuadraticProgram.LeastSquares.Pivoted
import QuadraticProgram.LeastSquares.Truncated

/-! # Least squares on arrays of any rank

A vector on the right-hand side of a matrix is treated as in the solvers. For other shapes the steps
of the solution are taken with the rules of array arithmetic.
-/

namespace QuadraticProgram.NDArray

variable {α : Type} [Scalar α]

/-- The larger of two numbers, where only a strictly larger one replaces the first. -/
def largerNumeral (s t : Numeral α) : Numeral α := if s.lt t then t else s

/-- The relative cutoff of an array with the given extents. -/
def cutoffOf (extents : List (Numeral α)) : Except (Fault α) α :=
  match extents with
  | [] => .error .shapesDiffer
  | t :: rest =>
    match (rest.foldl largerNumeral t).inRange? with
    | some largest => .ok (largest * Scalar.epsilon)
    | none => .error .integerTooLarge

/-- Whether a right-hand side can be solved for, judged by the columns of one of its projections. -/
def checkSolvable {r m n : Nat} (block : Mat α r r) (columns : Mat α m n) :
    Except (Fault α) Unit :=
  if !block.isFinite || !columns.isFinite then .error .notFinite
  else if m = 0 ∨ n = 0 then .ok ()
  else if Triangular.hasZeroDiagonal block then .error .singularTriangle
  else .ok ()

/-- The basic least-squares solution for a right-hand side that is no vector. It is looked at only
if some column counts; then it may have other axes of extent one, provided that no second column
counts. -/
def pivotedSolution {m n : Nat} (F : Factorizations α) (M : Mat α m n) (rhs : NDArray α)
    (cutoff : Option α) : Except (Fault α) (Vec α n) :=
  if m = 0 ∨ n = 0 then .ok Vec.zero
  else if !M.isFinite then .error .notFinite
  else
    let f := F.pivotedQR M
    let cutoff := cutoff.getD (QuadraticProgram.defaultCutoff m n)
    if f.rank cutoff = 0 then .ok Vec.zero
    else do
      let columns := Mat.ofFn fun (j : Fin (f.rank cutoff)) i =>
        f.q i ⟨j, Nat.lt_of_lt_of_le j.isLt (f.rank_le cutoff)⟩
      let projected ← dot (ofMat columns) rhs
      match projected.columnStack? with
      | none => .error .shapesDiffer
      | some s =>
        let _ ← s.items.mapM (checkSolvable (f.leadingBlock _ (f.rank_le cutoff)))
        match rhs.flatVec? m with
        | some v =>
          if f.rank cutoff = 1 then QuadraticProgram.pivotedLeastSquares F M v (some cutoff)
          else .error .shapesDiffer
        | none => .error .shapesDiffer

/-- The basic least-squares solution of `M y = rhs`. -/
def pivotedLeastSquares (F : Factorizations α) (M rhs : NDArray α) (cutoff : Option (Numeral α)) :
    Except (Fault α) (AnyVec α) :=
  match M.asMat? with
  | none => .error .shapesDiffer
  | some A => do
    let cutoff ← M.checkedCutoff .notFinite cutoff
    let y ← match rhs.asVec? A.numRows with
      | some v => QuadraticProgram.pivotedLeastSquares F A.entries v cutoff
      | none => pivotedSolution F A.entries rhs cutoff
    .ok ⟨A.numCols, y⟩

/-- The steps of the solution of smallest norm for a stack of matrices. The cutoff of every singular
value is relative to the one at its place in the first part of the array. -/
def truncatedSolution (F : Factorizations α) (M : MatStack α) (rhs : NDArray α) (cutoff : α) :
    Except (Fault α) (NDArray α) := do
  let parts := M.items.map F.svd
  let u := ofMats (parts.map ThinSVD.u)
  let sing := ofVecs (parts.map ThinSVD.sing)
  let vt := ofMats (parts.map ThinSVD.vt)
  let inverse ← zipWith (fun s bound => if bound < s then 1 / s else 0) sing
    (sing.head.map (· * cutoff))
  dot vt.transpose (← zipWith (· * ·) inverse (← dot u.transpose rhs))

/-- The least-squares solution of `M z = rhs` of smallest norm. -/
def truncatedLeastSquares (F : Factorizations α) (M rhs : NDArray α)
    (cutoff : Option (Numeral α)) : Except (Fault α) (NDArray α) :=
  if M.data.isEmpty then
    match M.shape with
    | _ :: n :: _ => .ok (ofVec (Vec.zero : Vec α n))
    | _ => .error .outOfRange
  else if M.rank = 0 ∧ cutoff.isNone then .error .shapesDiffer
  else
    match M.asStack? with
    | none => .error .noDecomposition
    | some s => do
      let cutoff ← M.checkedCutoff .noDecomposition cutoff
      let solved := M.asMat?.bind fun A => (rhs.asVec? A.numRows).map fun v =>
        (QuadraticProgram.truncatedLeastSquares F A.entries v cutoff).map ofVec
      match solved with
      | some z => z
      | none =>
        if !M.isFinite then .error .noDecomposition
        else
          let largest : Nat := M.shape.foldl max 0
          truncatedSolution F s rhs (cutoff.getD ((largest : α) * Scalar.epsilon))

end QuadraticProgram.NDArray
