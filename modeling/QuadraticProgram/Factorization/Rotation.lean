import QuadraticProgram.Factorization.Reflection

/-! # Singular value decomposition by plane rotations

The rows of a wide matrix are rotated in pairs until they are orthogonal to working precision. Their
lengths are then the singular values. A bounded number of sweeps over all pairs is made; convergence
is quadratic, so the bound is never reached on matrices of moderate size.
-/

namespace QuadraticProgram.Rotation

variable {α : Type} [Scalar α] {k n : Nat}

/-- Rows under rotation, with the product of all rotations so far: `turn` applied to the rows at the
start gives `rows`. -/
structure State (α : Type) (k n : Nat) where
  rows : Mat α k n
  turn : Mat α k k
  /-- Whether the current sweep has found a pair that was not yet orthogonal. -/
  moved : Bool

/-- Combine two rows by a plane rotation with cosine `c` and sine `s`. -/
def rotateRows {w : Nat} (A : Mat α k w) (p q : Fin k) (c s : α) : Mat α k w :=
  let x := A.row p
  let y := A.row q
  (A.setRow p (Vec.ofFn fun i => c * x i - s * y i)).setRow q
    (Vec.ofFn fun i => s * x i + c * y i)

/-- The cosine of the angle between two vectors of given lengths, each divided by its length first
so that no product leaves the range of the format. -/
def cosine {w : Nat} (x y : Vec α w) (xLength yLength : α) : α :=
  Vec.dot (x.map (· / xLength)) (y.map (· / yLength))

/-- Make one pair of rows orthogonal, unless it already is to working precision or one of the rows
is zero. -/
def rotatePair (st : State α k n) (p q : Fin k) : State α k n :=
  let x := st.rows.row p
  let y := st.rows.row q
  let a := Reflection.norm x
  let b := Reflection.norm y
  if 0 < a && 0 < b then
    let g := cosine x y a b
    if (n : α) * Scalar.epsilon < Scalar.abs g then
      let ratio := b / a
      let z := (ratio - 1 / ratio) / (g + g)
      let h := 1 / (Scalar.abs z + Reflection.hypotenuse 1 z)
      let t := if z < 0 then -h else h
      let c := 1 / Scalar.sqrt (1 + t * t)
      let s := c * t
      { rows := rotateRows st.rows p q c s, turn := rotateRows st.turn p q c s, moved := true }
    else st
  else st

/-- One pass over all pairs of rows. -/
def sweep (st : State α k n) : State α k n :=
  Fin.foldl k (fun st p =>
    Fin.foldl k (fun st q => if p < q then rotatePair st p q else st) st)
    { st with moved := false }

/-- Sweep until nothing moves, at most `fuel` times. -/
def sweeps : Nat → State α k n → State α k n
  | 0, st => st
  | fuel + 1, st =>
    let next := sweep st
    if next.moved then sweeps fuel next else next

/-- A decomposition of a matrix with no more rows than columns: orthonormal `left` columns, values
and orthonormal `right` rows. -/
structure Wide (α : Type) (k n : Nat) where
  left : Mat α k k
  sing : Vec α k
  right : Mat α k n

/-- The positions of a vector in the order of non-increasing values. -/
def descending (values : Vec α k) : Vec (Fin k) k :=
  let order := (List.finRange k).mergeSort fun i j => !decide (values i < values j)
  Vec.ofFn fun i => order.getD i i

/-- What is left of the coordinate vector of column `j` off the span of orthonormal rows. -/
def offSpan (A : Mat α k n) (j : Fin n) : Vec α n :=
  Vec.ofFn fun c => (if c = j then 1 else 0) - Scalar.sum fun i => A i j * A i c

/-- A unit vector orthogonal to orthonormal rows, found along the coordinate that they cover
least. -/
def orthogonalUnit (A : Mat α k n) : Vec α n :=
  let rest : Vec α n := Vec.ofFn fun j => (offSpan A j).norm
  let best := (List.finRange n).foldl (fun best j => match best with
    | none => some j
    | some b => if rest b < rest j then some j else some b) none
  match best with
  | some j => (offSpan A j).map (· / rest j)
  | none => Vec.zero

/-- Orthonormal rows in place of those that are zero among rows that are otherwise orthonormal. -/
def completeRows (A : Mat α k n) : Mat α k n :=
  Fin.foldl k (fun A i =>
    if Scalar.same (A.row i).maxAbs 0 then A.setRow i (orthogonalUnit A) else A) A

/-- Decompose a matrix with no more rows than columns. The entries are first divided by the largest
magnitude, so that no square leaves the range of the format. -/
def decomposeWide (A : Mat α k n) : Wide α k n :=
  let scale := Scalar.maxAbs fun i : Fin k => (A.row i).maxAbs
  let unit : Mat α k k := Mat.ofFn fun i j => if i = j then 1 else 0
  if 0 < scale then
    let scaled : Mat α k n := Mat.ofFn fun i j => A i j / scale
    let done := sweeps 60 ⟨scaled, unit, true⟩
    let lengths := Vec.ofFn fun i => Reflection.norm (done.rows.row i)
    let order := descending lengths
    { left := (done.turn.selectRows order).transpose
      sing := Vec.ofFn fun i => scale * lengths (order i)
      right := completeRows (Mat.ofFn fun i j =>
        let length := lengths (order i)
        if 0 < length then done.rows (order i) j / length else 0) }
  else
    { left := unit, sing := Vec.zero, right := Mat.ofFn fun i j => if i.val = j.val then 1 else 0 }

/-- The thin singular value decomposition. A matrix with more rows than columns is decomposed
through its transpose. -/
def decompose {m n : Nat} (A : Mat α m n) : ThinSVD α m n :=
  if h : m ≤ n then
    let w := decomposeWide A
    { u := Mat.ofFn fun i j => w.left i ⟨j, by omega⟩
      sing := Vec.ofFn fun i => w.sing ⟨i, by omega⟩
      vt := Mat.ofFn fun i j => w.right ⟨i, by omega⟩ j }
  else
    let w := decomposeWide A.transpose
    { u := Mat.ofFn fun i j => w.right ⟨j, by omega⟩ i
      sing := Vec.ofFn fun i => w.sing ⟨i, by omega⟩
      vt := Mat.ofFn fun i j => w.left j ⟨i, by omega⟩ }

end QuadraticProgram.Rotation
