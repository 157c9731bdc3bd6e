import QuadraticProgram.Arrays.Axes

/-! # Stacks of matrices and their products

The last two axes of an array hold matrices, and the axes before them arrange these. Operations on
matrices act on every matrix of such a stack; where two stacks meet, they are aligned and repeated
as the entries of arrays are.
-/

namespace QuadraticProgram

/-- Matrices of one size, arranged in an array. -/
structure MatStack (α : Type) where
  numRows : Nat
  numCols : Nat
  items : NDArray (Mat α numRows numCols)

namespace NDArray

variable {α : Type} [Scalar α]

/-- The matrices in an array of rank two or more. -/
def asStack? (a : NDArray α) : Option (MatStack α) :=
  (Shape.matrixAxes? a.shape).map fun (outer, m, n) =>
    ⟨m, n, tabulate outer fun p => Mat.ofFn fun i j => a.entry ((p * m + i) * n + j)⟩

/-- The matrices in an array, where a vector counts as one row. -/
def rowStack? (a : NDArray α) : Option (MatStack α) :=
  match a.shape with
  | [n] => some ⟨1, n, tabulate [] fun _ => Mat.ofFn fun _ j => a.entry j⟩
  | _ => a.asStack?

/-- The matrices in an array, where a vector counts as one column. -/
def columnStack? (a : NDArray α) : Option (MatStack α) :=
  match a.shape with
  | [n] => some ⟨n, 1, tabulate [] fun _ => Mat.ofFn fun i _ => a.entry i⟩
  | _ => a.asStack?

/-- The matrices of a stack as an array, without the axis of their rows or of their columns where
it is not wanted. -/
def ofStack (s : MatStack α) (rows columns : Bool) : NDArray α :=
  let entries := ofMats s.items
  tabulate
    (s.items.shape ++ (if rows then [s.numRows] else []) ++ (if columns then [s.numCols] else []))
    fun p => entries.entry p

/-- The product along the last axis of the first array and the last but one of the second. A vector
counts as one row on the left and as one column on the right, and the axis so added does not
stay. -/
def dot (a b : NDArray α) : Except (Fault α) (NDArray α) :=
  match a.rowStack?, b.columnStack? with
  | some s, some t =>
    if h : t.numRows = s.numCols then
      match zipWith? (fun A B => Mat.mul A (B.castRows h)) s.items t.items with
      | some items => .ok (ofStack ⟨s.numRows, t.numCols, items⟩ (a.rank ≠ 1) (b.rank ≠ 1))
      | none => .error .shapesDiffer
    else .error .shapesDiffer
  | _, _ => .error .shapesDiffer

end NDArray

end QuadraticProgram
