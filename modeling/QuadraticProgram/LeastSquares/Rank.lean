import QuadraticProgram.Factorization.Basic
import QuadraticProgram.Fault

/-! # Numerical rank

A pivot or singular value counts only if it exceeds the largest one times a relative cutoff. Without
a cutoff of the caller, the cutoff grows with the larger extent of the matrix.
-/

namespace QuadraticProgram

variable {α : Type} [Scalar α] {m n : Nat}

/-- The relative cutoff of a matrix of the given extents. -/
def defaultCutoff (m n : Nat) : α := ((max m n : Nat) : α) * Scalar.epsilon

/-- Whether a value exceeds the first of its family times the cutoff. -/
def exceeds {k : Nat} (values : Vec α k) (cutoff : α) (i : Fin k) : Bool :=
  decide (values ⟨0, by have := i.isLt; omega⟩ * cutoff < values i)

namespace PivotedQR

/-- The magnitudes of the diagonal of `r`. -/
def pivots (f : PivotedQR α m n) : Vec α (min m n) :=
  Vec.ofFn fun i => Scalar.abs (f.r i ⟨i, by have := i.isLt; omega⟩)

/-- How many pivots exceed the cutoff. -/
def rank (f : PivotedQR α m n) (cutoff : α) : Nat :=
  (List.finRange (min m n)).countP (exceeds f.pivots cutoff)

theorem rank_le (f : PivotedQR α m n) (cutoff : α) : f.rank cutoff ≤ min m n := by
  have h := List.countP_le_length (p := exceeds f.pivots cutoff) (l := List.finRange (min m n))
  simpa [rank] using h

/-- A pivot among the first `r`, as a pivot. -/
def pivot {r : Nat} (h : r ≤ min m n) (i : Fin r) : Fin (min m n) :=
  ⟨i, Nat.lt_of_lt_of_le i.isLt h⟩

/-- The position of the column of a pivot among the first `r`. -/
def pivotCol {r : Nat} (h : r ≤ min m n) (i : Fin r) : Fin n :=
  ⟨i, Nat.lt_of_lt_of_le i.isLt (Nat.le_trans h (Nat.min_le_right m n))⟩

/-- The columns in front, as many as asked for. -/
def leading (f : PivotedQR α m n) (r : Nat) (h : r ≤ min m n) : Vec (Fin n) r :=
  Vec.ofFn fun i => f.perm (pivotCol h i)

end PivotedQR

/-- The rows of a matrix that a pivoted factorization of its transpose counts as independent, in
ascending order. A matrix without entries has none. -/
def independentRows (F : Factorizations α) (A : Mat α m n) (cutoff : Option α) :
    Except (Fault α) (List (Fin m)) :=
  if m = 0 ∨ n = 0 then .ok []
  else if !A.isFinite then .error .notFinite
  else
    let f := F.pivotedQR A.transpose
    let rank := f.rank (cutoff.getD (defaultCutoff m n))
    let chosen := f.leading rank (f.rank_le _)
    .ok ((List.finRange m).filter fun i => chosen.toArray.contains i)

end QuadraticProgram
