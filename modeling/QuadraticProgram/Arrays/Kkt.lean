import QuadraticProgram.Arrays.Cholesky
import QuadraticProgram.Arrays.LeastSquares

/-! # The optimality conditions on arrays of any rank

Both ways of solving the optimality conditions are composed from the operations on arrays. Where all
shapes fit, they are the ones on vectors and matrices of known size.
-/

namespace QuadraticProgram.NDArray

variable {α : Type} [Scalar α]

/-- The matrix `[[G, -Aᵀ], [A, 0]]` and the right-hand side `[-c; b]`. -/
structure KktSystem (α : Type) where
  matrix : NDArray α
  target : NDArray α

/-- Arrays in two rows of two, all lifted to the same rank. -/
def block (topLeft topRight bottomLeft bottomRight : NDArray α) :
    Except (Fault α) (NDArray α) := do
  let rank := [topLeft, topRight, bottomLeft, bottomRight].foldl (fun r a => max r a.rank) 2
  let top ← join (rank - 1) (topLeft.lift rank) (topRight.lift rank)
  let bottom ← join (rank - 1) (bottomLeft.lift rank) (bottomRight.lift rank)
  join (rank - 2) top bottom

/-- The matrix `[[G, -Aᵀ], [A, 0]]`, where the zeros are as many as the parts of `A`. -/
def kktMatrix (G A : NDArray α) : Except (Fault α) (NDArray α) :=
  let fitting := A.asMat?.bind fun A => (G.asMatOf? A.numCols A.numCols).map fun G =>
    ofMat (QuadraticProgram.kktMatrix G A.entries)
  match fitting with
  | some K => .ok K
  | none =>
    match A.shape with
    | [] => .error .outOfRange
    | m :: _ => block G (A.transpose.map (-·)) A (ofMat (Mat.zero : Mat α m m))

/-- Put the optimality conditions into one linear system. -/
def kktSystem (G c A b : NDArray α) : Except (Fault α) (KktSystem α) := do
  let matrix ← kktMatrix G A
  let target ← join 0 (c.map (-·)) b
  .ok ⟨matrix, target⟩

/-- The point of the least-squares solution of the whole system. -/
def solveFullSystem (F : Factorizations α) (G c A b : NDArray α) :
    Except (Fault α) (NDArray α) := do
  match G.shape with
  | [] => .error .outOfRange
  | n :: _ =>
    let reduced ← reduceConstraints F A b
    let system ← kktSystem G c reduced.matrix reduced.target
    let z ← truncatedLeastSquares F system.matrix system.target none
    z.leading n

/-- A point and multipliers as arrays. -/
structure PrimalDualArrays (α : Type) where
  x : NDArray α
  y : NDArray α

/-- The solution with the factor of a single matrix, if all shapes fit. -/
def rangeSpaceSolution? (F : Factorizations α) (L : SquareStack α) (c A b : NDArray α) :
    Option (Except (Fault α) (PrimalDualArrays α)) :=
  match L.items.shape, L.items.data[0]?, A.asMat? with
  | [], some factor, some A => do
    let c ← c.asVec? L.size
    let b ← b.asVec? A.numRows
    if h : A.numCols = L.size then
      some ((QuadraticProgram.solveRangeSpace F factor c (A.entries.castCols h) b).map fun s =>
        ⟨ofVec s.x, ofVec s.y⟩)
    else none
  | _, _, _ => none

/-- The multipliers of reduced constraints, spread over all rows. -/
def rangeSpaceMultipliers (F : Factorizations α) (L : SquareStack α) (c : NDArray α) (m : Nat)
    (reduced : ReducedArrays α) : Except (Fault α) (Vec α m) :=
  if reduced.rows.isEmpty then .ok Vec.zero
  else do
    let w ← L.solve reduced.matrix.transpose
    let schur ← dot reduced.matrix w
    let target ← zipWith (· + ·) (← dot w.transpose c) reduced.target
    let z ← pivotedLeastSquares F schur target none
    .ok (Vec.ofFn fun i =>
      match reduced.rows.idxOf? i.val with
      | some k => if h : k < z.size then z.entries ⟨k, h⟩ / reduced.scales.entry i else 0
      | none => 0)

/-- Solve the optimality conditions from Cholesky factors. -/
def solveFactored (F : Factorizations α) (L : SquareStack α) (c A b : NDArray α) :
    Except (Fault α) (PrimalDualArrays α) :=
  match A.shape with
  | [] => .error .outOfRange
  | 0 :: _ => do
    let x ← L.solve (c.map (-·))
    .ok ⟨x, .ofArray #[]⟩
  | m :: _ => do
    let reduced ← reduceConstraints F A b
    let y ← rangeSpaceMultipliers F L c m reduced
    let x ← L.solve (← zipWith (· - ·) (← dot A.transpose (ofVec y)) c)
    .ok ⟨x, ofVec y⟩

/-- Solve the optimality conditions from a Cholesky factor, if there is one. -/
def solveRangeSpace (F : Factorizations α) (G c A b : NDArray α) :
    Except (Fault α) (Option (PrimalDualArrays α)) := do
  match ← SquareStack.choleskyFactors? F G with
  | none => .ok none
  | some L => ((rangeSpaceSolution? F L c A b).getD (solveFactored F L c A b)).map some

end QuadraticProgram.NDArray
