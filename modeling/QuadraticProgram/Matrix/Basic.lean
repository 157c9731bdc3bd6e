import QuadraticProgram.Scalar

/-! # Dense vectors and matrices of known size

Sizes are part of the type, so no operation below can fail. Every operation is described by its
entries (the `get_…` lemmas), and nothing outside this module looks at how entries are stored.
-/

namespace QuadraticProgram

/-- A vector of `n` entries. -/
structure Vec (α : Type) (n : Nat) where
  entries : Vector α n

/-- A matrix of `m` rows and `n` columns. -/
structure Mat (α : Type) (m n : Nat) where
  rows : Vector (Vec α n) m

namespace Vec

variable {α β : Type} {m n k : Nat}

/-- The entry at position `i`. -/
def get (x : Vec α n) (i : Fin n) : α := x.entries[i]

instance : CoeFun (Vec α n) (fun _ => Fin n → α) := ⟨get⟩

/-- The vector with given entries. -/
def ofFn (f : Fin n → α) : Vec α n := ⟨Vector.ofFn f⟩

@[simp] theorem get_ofFn (f : Fin n → α) (i : Fin n) : ofFn f i = f i := by
  simp [ofFn, get]

/-- Two vectors with the same entries are equal. -/
theorem ext_get {x y : Vec α n} (h : ∀ i, x i = y i) : x = y := by
  cases x with
  | mk a => cases y with
    | mk b =>
      congr 1
      apply Vector.ext
      intro i hi
      exact h ⟨i, hi⟩

/-- The entries from first to last. -/
def toArray (x : Vec α n) : Array α := x.entries.toArray

/-- The same vector under an equal length. -/
def cast {n' : Nat} (h : n = n') (x : Vec α n) : Vec α n' := h ▸ x

@[simp] theorem get_cast {n' : Nat} (h : n = n') (x : Vec α n) (i : Fin n') :
    x.cast h i = x (i.cast h.symm) := by
  subst h
  rfl

/-- Apply a function to every entry. -/
def map (f : α → β) (x : Vec α n) : Vec β n := ofFn fun i => f (x i)

@[simp] theorem get_map (f : α → β) (x : Vec α n) (i : Fin n) : x.map f i = f (x i) := by
  simp [map]

/-- Some of the entries, in a given order. -/
def select (x : Vec α n) (positions : Vec (Fin n) k) : Vec α k := ofFn fun i => x (positions i)

@[simp] theorem get_select (x : Vec α n) (positions : Vec (Fin n) k) (i : Fin k) :
    x.select positions i = x (positions i) := by
  simp [select]

/-- Replace the entry at one position. -/
def set (x : Vec α n) (i : Fin n) (a : α) : Vec α n := ⟨x.entries.set i a⟩

theorem get_set (x : Vec α n) (i j : Fin n) (a : α) :
    x.set i a j = if j = i then a else x j := by
  simp only [set, get, Fin.getElem_fin, Vector.getElem_set, Fin.ext_iff, eq_comm]

/-- Exchange two entries. -/
def swap (x : Vec α n) (p q : Fin n) : Vec α n := ⟨x.entries.swap p q⟩

theorem get_swap (x : Vec α n) (p q j : Fin n) :
    x.swap p q j = if j = p then x q else if j = q then x p else x j := by
  simp only [swap, get, Fin.getElem_fin, Vector.getElem_swap, Fin.ext_iff]

/-- One vector after the other. -/
def append (x : Vec α m) (y : Vec α n) : Vec α (m + n) := ⟨x.entries ++ y.entries⟩

@[simp] theorem get_append_castAdd (x : Vec α m) (y : Vec α n) (i : Fin m) :
    x.append y (i.castAdd n) = x i := by
  simp [append, get]

@[simp] theorem get_append_natAdd (x : Vec α m) (y : Vec α n) (i : Fin n) :
    x.append y (i.natAdd m) = y i := by
  simp [append, get]

/-- The first entries of a longer vector. -/
def first (z : Vec α (m + n)) : Vec α m := ofFn fun i => z (i.castAdd n)

@[simp] theorem get_first (z : Vec α (m + n)) (i : Fin m) : z.first i = z (i.castAdd n) := by
  simp [first]

section Arithmetic

variable [Scalar α]

/-- The inner product. -/
def dot (x y : Vec α n) : α := Scalar.sum fun i => x i * y i

/-- The vector of zeros. -/
def zero : Vec α n := ofFn fun _ => 0

@[simp] theorem get_zero (i : Fin n) : (zero : Vec α n) i = 0 := by
  simp [zero]

def add (x y : Vec α n) : Vec α n := ofFn fun i => x i + y i

@[simp] theorem get_add (x y : Vec α n) (i : Fin n) : x.add y i = x i + y i := by
  simp [add]

def sub (x y : Vec α n) : Vec α n := ofFn fun i => x i - y i

@[simp] theorem get_sub (x y : Vec α n) (i : Fin n) : x.sub y i = x i - y i := by
  simp [sub]

def neg (x : Vec α n) : Vec α n := ofFn fun i => -x i

@[simp] theorem get_neg (x : Vec α n) (i : Fin n) : x.neg i = -x i := by
  simp [neg]

/-- The entrywise product. -/
def mul (x y : Vec α n) : Vec α n := ofFn fun i => x i * y i

@[simp] theorem get_mul (x y : Vec α n) (i : Fin n) : x.mul y i = x i * y i := by
  simp [mul]

/-- The entrywise quotient. -/
def div (x y : Vec α n) : Vec α n := ofFn fun i => x i / y i

@[simp] theorem get_div (x y : Vec α n) (i : Fin n) : x.div y i = x i / y i := by
  simp [div]

/-- The largest magnitude among the entries, zero for the empty vector. -/
def maxAbs (x : Vec α n) : α := Scalar.maxAbs x.get

/-- The square root of the sum of the squares, taken without scaling. -/
def norm (x : Vec α n) : α := Scalar.sqrt (Scalar.sum fun i => x i * x i)

/-- Whether every entry is finite. -/
def isFinite (x : Vec α n) : Bool := x.entries.all Scalar.isFinite

/-- The vector that is zero except at the listed positions, where it takes the listed values; at a
position listed twice the later value stands. -/
def scatter (positions : Vec (Fin n) k) (values : Vec α k) : Vec α n :=
  Fin.foldl k (fun acc i => acc.set (positions i) (values i)) zero

end Arithmetic

end Vec

namespace Mat

variable {α : Type} {m n k : Nat}

/-- The entry in row `i` and column `j`. -/
def get (A : Mat α m n) (i : Fin m) (j : Fin n) : α := A.rows[i] j

instance : CoeFun (Mat α m n) (fun _ => Fin m → Fin n → α) := ⟨get⟩

/-- The matrix with given entries. -/
def ofFn (f : Fin m → Fin n → α) : Mat α m n := ⟨Vector.ofFn fun i => Vec.ofFn (f i)⟩

@[simp] theorem get_ofFn (f : Fin m → Fin n → α) (i : Fin m) (j : Fin n) : ofFn f i j = f i j := by
  simp [ofFn, get]

/-- Two matrices with the same entries are equal. -/
theorem ext_get {A B : Mat α m n} (h : ∀ i j, A i j = B i j) : A = B := by
  cases A with
  | mk a => cases B with
    | mk b =>
      congr 1
      apply Vector.ext
      intro i hi
      exact Vec.ext_get fun j => h ⟨i, hi⟩ j

/-- The same matrix under an equal number of rows. -/
def castRows {m' : Nat} (h : m = m') (A : Mat α m n) : Mat α m' n := h ▸ A

@[simp] theorem get_castRows {m' : Nat} (h : m = m') (A : Mat α m n) (i : Fin m') (j : Fin n) :
    A.castRows h i j = A (i.cast h.symm) j := by
  subst h
  rfl

/-- The same matrix under an equal number of columns. -/
def castCols {n' : Nat} (h : n = n') (A : Mat α m n) : Mat α m n' := h ▸ A

@[simp] theorem get_castCols {n' : Nat} (h : n = n') (A : Mat α m n) (i : Fin m) (j : Fin n') :
    A.castCols h i j = A i (j.cast h.symm) := by
  subst h
  rfl

/-- The same matrix under equal extents. -/
def cast {m' n' : Nat} (hm : m = m') (hn : n = n') (A : Mat α m n) : Mat α m' n' :=
  (A.castRows hm).castCols hn

@[simp] theorem get_cast {m' n' : Nat} (hm : m = m') (hn : n = n') (A : Mat α m n) (i : Fin m')
    (j : Fin n') : A.cast hm hn i j = A (i.cast hm.symm) (j.cast hn.symm) := by
  simp [cast]

/-- The entries of all rows, one row after the other. -/
def toArray (A : Mat α m n) : Array α := A.rows.toArray.flatMap Vec.toArray

def row (A : Mat α m n) (i : Fin m) : Vec α n := A.rows[i]

@[simp] theorem get_row (A : Mat α m n) (i : Fin m) (j : Fin n) : A.row i j = A i j := rfl

def col (A : Mat α m n) (j : Fin n) : Vec α m := Vec.ofFn fun i => A i j

@[simp] theorem get_col (A : Mat α m n) (i : Fin m) (j : Fin n) : A.col j i = A i j := by
  simp [col]

def transpose (A : Mat α m n) : Mat α n m := ofFn fun i j => A j i

@[simp] theorem get_transpose (A : Mat α m n) (i : Fin n) (j : Fin m) :
    A.transpose i j = A j i := by
  simp [transpose]

/-- Some of the rows, in a given order. -/
def selectRows (A : Mat α m n) (rows : Vec (Fin m) k) : Mat α k n :=
  ⟨Vector.ofFn fun i => A.row (rows i)⟩

@[simp] theorem get_selectRows (A : Mat α m n) (rows : Vec (Fin m) k) (i : Fin k) (j : Fin n) :
    A.selectRows rows i j = A (rows i) j := by
  simp [selectRows, get, row]

/-- Replace one row. -/
def setRow (A : Mat α m n) (i : Fin m) (r : Vec α n) : Mat α m n := ⟨A.rows.set i r⟩

theorem get_setRow (A : Mat α m n) (i i' : Fin m) (r : Vec α n) (j : Fin n) :
    A.setRow i r i' j = if i' = i then r j else A i' j := by
  simp only [setRow, get, Fin.getElem_fin, Vector.getElem_set, Fin.ext_iff, eq_comm]
  split <;> rfl

/-- Exchange two columns. -/
def swapCols (A : Mat α m n) (p q : Fin n) : Mat α m n := ⟨A.rows.map fun r => r.swap p q⟩

theorem get_swapCols (A : Mat α m n) (p q : Fin n) (i : Fin m) (j : Fin n) :
    A.swapCols p q i j = if j = p then A i q else if j = q then A i p else A i j := by
  simp only [swapCols, get, Fin.getElem_fin, Vector.getElem_map]
  exact Vec.get_swap _ p q j

section Arithmetic

variable [Scalar α]

/-- The matrix of zeros. -/
def zero : Mat α m n := ofFn fun _ _ => 0

@[simp] theorem get_zero (i : Fin m) (j : Fin n) : (zero : Mat α m n) i j = 0 := by
  simp [zero]

/-- A matrix applied to a vector. -/
def mulVec (A : Mat α m n) (x : Vec α n) : Vec α m :=
  Vec.ofFn fun i => Scalar.sum fun j => A i j * x j

@[simp] theorem get_mulVec (A : Mat α m n) (x : Vec α n) (i : Fin m) :
    A.mulVec x i = Scalar.sum fun j => A i j * x j := by
  simp [mulVec]

/-- The transpose of a matrix applied to a vector. -/
def transposeMulVec (A : Mat α m n) (y : Vec α m) : Vec α n :=
  Vec.ofFn fun j => Scalar.sum fun i => A i j * y i

@[simp] theorem get_transposeMulVec (A : Mat α m n) (y : Vec α m) (j : Fin n) :
    A.transposeMulVec y j = Scalar.sum fun i => A i j * y i := by
  simp [transposeMulVec]

/-- The product of two matrices. -/
def mul (A : Mat α m k) (B : Mat α k n) : Mat α m n :=
  ofFn fun i j => Scalar.sum fun l => A i l * B l j

@[simp] theorem get_mul (A : Mat α m k) (B : Mat α k n) (i : Fin m) (j : Fin n) :
    A.mul B i j = Scalar.sum fun l => A i l * B l j := by
  simp [mul]

/-- Whether every entry is finite. -/
def isFinite (A : Mat α m n) : Bool := A.rows.all Vec.isFinite

end Arithmetic

end Mat

end QuadraticProgram
