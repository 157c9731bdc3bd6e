import QuadraticProgram.Fault
import QuadraticProgram.Matrix.Basic

/-! # Arrays of any rank

Data comes in as arrays whose rank and extents are only known when the program runs. An array is
brought to the rank that its use calls for, or refused, and becomes a vector or matrix of known
size.
-/

namespace QuadraticProgram

/-- Entries in row-major order, exactly as many as the shape holds. -/
structure NDArray (α : Type) where
  shape : Shape
  data : Array α
  size_eq : data.size = shape.size

/-- A vector together with its length. -/
structure AnyVec (α : Type) where
  size : Nat
  entries : Vec α size

/-- A matrix together with its extents. -/
structure AnyMat (α : Type) where
  numRows : Nat
  numCols : Nat
  entries : Mat α numRows numCols

def AnyVec.shape {α : Type} (v : AnyVec α) : Shape := [v.size]

def AnyMat.shape {α : Type} (A : AnyMat α) : Shape := [A.numRows, A.numCols]

namespace NDArray

variable {α : Type} {m n : Nat}

def rank (a : NDArray α) : Nat := a.shape.length

/-- An array of rank zero. -/
def ofScalar (x : α) : NDArray α := ⟨[], #[x], rfl⟩

/-- An array of rank one. -/
def ofArray (xs : Array α) : NDArray α := ⟨[xs.size], xs, by simp⟩

def ofVec (x : Vec α n) : NDArray α := ⟨[n], x.toArray, by simp [Vec.toArray]⟩

theorem mul_add_lt {i j : Nat} (hi : i < m) (hj : j < n) : i * n + j < m * n :=
  Nat.lt_of_lt_of_le (Nat.add_lt_add_left hj (i * n))
    (Nat.succ_mul i n ▸ Nat.mul_le_mul_right n (Nat.succ_le_of_lt hi))

def ofMat (A : Mat α m n) : NDArray α :=
  ⟨[m, n], Array.ofFn fun p : Fin (m * n) =>
      have h : 0 < n := Nat.pos_of_ne_zero fun h => absurd p.isLt (by simp [h])
      A ⟨p / n, Nat.div_lt_of_lt_mul (Nat.mul_comm m n ▸ p.isLt)⟩ ⟨p % n, Nat.mod_lt _ h⟩,
    by simp⟩

theorem size_data_of_shape {a : NDArray α} (h : a.shape = [n]) : a.data.size = n := by
  simp [a.size_eq, h]

theorem size_data_of_shape_two {a : NDArray α} (h : a.shape = [m, n]) : a.data.size = m * n := by
  simp [a.size_eq, h]

/-- The entries of an array of rank one. -/
def vecOf (a : NDArray α) (h : a.shape = [n]) : Vec α n :=
  Vec.ofFn fun i =>
    have hi : i < a.data.size := by rw [size_data_of_shape h]; exact i.isLt
    a.data[i]

/-- The entries of an array of rank two. -/
def matOf (a : NDArray α) (h : a.shape = [m, n]) : Mat α m n :=
  Mat.ofFn fun i j =>
    have hij : i.val * n + j.val < a.data.size := by
      rw [size_data_of_shape_two h]; exact mul_add_lt i.isLt j.isLt
    a.data[i.val * n + j.val]

/-- The same entries under another shape of the same size. -/
def reshape (a : NDArray α) (shape : Shape) (h : a.shape.size = shape.size) : NDArray α :=
  ⟨shape, a.data, a.size_eq.trans h⟩

/-- The same entries as one vector. -/
def flatten (a : NDArray α) : AnyVec α :=
  ⟨a.shape.size, vecOf (a.reshape [a.shape.size] (by simp)) rfl⟩

/-- The entries of an array of any rank as a vector of a known length, if they are as many. -/
def flatVec? (a : NDArray α) (n : Nat) : Option (Vec α n) :=
  if h : a.flatten.size = n then some (a.flatten.entries.cast h) else none

/-- An array as a vector: a single number becomes a vector of one entry. -/
def toVec (a : NDArray α) : Except (Fault α) (AnyVec α) :=
  match h : a.shape with
  | [] => .ok ⟨1, vecOf (a.reshape [1] (by simp [h])) rfl⟩
  | [n] => .ok ⟨n, vecOf a h⟩
  | shape => .error (.wrongRank (.whole 1) shape)

/-- An array as a matrix: a single number or a vector becomes one row. -/
def toMat (a : NDArray α) : Except (Fault α) (AnyMat α) :=
  match h : a.shape with
  | [] => .ok ⟨1, 1, matOf (a.reshape [1, 1] (by simp [h])) rfl⟩
  | [n] => .ok ⟨1, n, matOf (a.reshape [1, n] (by simp [h])) rfl⟩
  | [m, n] => .ok ⟨m, n, matOf a h⟩
  | shape => .error (.wrongRank (.whole 2) shape)

/-- The array as a matrix, if its rank is two. -/
def asMat? (a : NDArray α) : Option (AnyMat α) :=
  match h : a.shape with
  | [m, n] => some ⟨m, n, matOf a h⟩
  | _ => none

/-- The array as a matrix of known extents, if that is its shape. -/
def asMatOf? (a : NDArray α) (m n : Nat) : Option (Mat α m n) :=
  if h : a.shape = [m, n] then some (matOf a h) else none

/-- The array as a vector of a known length, if that is its shape. -/
def asVec? (a : NDArray α) (n : Nat) : Option (Vec α n) :=
  if h : a.shape = [n] then some (vecOf a h) else none

/-- The array of rank one or two that `toVec` or `toMat` make of an array, or an array that has the
rank already. -/
def ofRank? [Scalar α] (a : NDArray α) (r : Numeral α) : Option (NDArray α) :=
  if r.isCount 1 then a.toVec.toOption.map fun v => ofVec v.entries
  else if r.isCount 2 then a.toMat.toOption.map fun A => ofMat A.entries
  else if r.isCount a.rank then some a
  else none

/-- An array of a given rank, if a rank is given. -/
def ofRank [Scalar α] (a : NDArray α) : Option (Numeral α) → Except (Fault α) (NDArray α)
  | none => .ok a
  | some r => match a.ofRank? r with
    | some a => .ok a
    | none => .error (.wrongRank r a.shape)

end NDArray

end QuadraticProgram
