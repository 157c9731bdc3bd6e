import QuadraticProgram.LeastSquares.Rank

/-! # Independent constraint rows of unit length

Rows are scaled to unit length before the rank decision, so the scale of a row never decides whether
it counts. A row of zeros keeps its scale.
-/

namespace QuadraticProgram

variable {α : Type} [Scalar α] {m n : Nat}

/-- The lengths of the rows, with one in place of zero. -/
def rowScales (A : Mat α m n) : Vec α m :=
  Vec.ofFn fun i => let length := (A.row i).norm; if Scalar.same length 0 then 1 else length

/-- Every row divided by its scale. -/
def scaleRows (A : Mat α m n) (scales : Vec α m) : Mat α m n :=
  Mat.ofFn fun i j => A i j / scales i

@[simp] theorem get_scaleRows (A : Mat α m n) (scales : Vec α m) (i : Fin m) (j : Fin n) :
    scaleRows A scales i j = A i j / scales i := by
  simp [scaleRows]

/-- The positions in a list as a vector. -/
def positions {m : Nat} (rows : List (Fin m)) : Vec (Fin m) rows.length :=
  Vec.ofFn fun i => rows.get i

/-- Constraints with unit rows, of which only independent ones are kept. -/
structure Reduced (α : Type) (m n : Nat) where
  /-- The scales of all rows. -/
  scales : Vec α m
  numRows : Nat
  /-- The rows kept, in ascending order. -/
  rows : Vec (Fin m) numRows
  matrix : Mat α numRows n
  target : Vec α numRows

/-- Scale the rows of `A x = b` and keep an independent subset of them. -/
def reduceConstraints (F : Factorizations α) (A : Mat α m n) (b : Vec α m) :
    Except (Fault α) (Reduced α m n) :=
  let scales := rowScales A
  let scaled := scaleRows A scales
  (independentRows F scaled none).map fun kept =>
    let rows := positions kept
    { scales
      numRows := kept.length
      rows
      matrix := scaled.selectRows rows
      target := (b.div scales).select rows }

end QuadraticProgram
