import QuadraticProgram.Arrays.Basic

/-! # Arrays combined entry by entry

The shapes of two arrays are aligned at the last axis, and each array is repeated along the axes
that it lacks or that have extent one. Shapes that do not fit are refused.
-/

namespace QuadraticProgram.NDArray

variable {α β γ : Type}

/-- The array with given entries at the positions in row-major order. -/
def tabulate (shape : Shape) (f : Fin shape.size → α) : NDArray α :=
  ⟨shape, Array.ofFn f, by simp⟩

/-- Apply a function to every entry. -/
def map (f : α → β) (a : NDArray α) : NDArray β := ⟨a.shape, a.data.map f, by simp [a.size_eq]⟩

/-- Apply a function that may fail to every entry, from the first to the last. -/
def mapM {m : Type → Type} [Monad m] (f : α → m β) (a : NDArray α) : m (NDArray β) := do
  let entries ← (⟨a.data, rfl⟩ : Vector α a.data.size).mapM f
  pure ⟨a.shape, entries.toArray, by simp [a.size_eq]⟩

/-- The entry of an array that stands at a position of a larger array. -/
def repeatedAt (a : NDArray α) {shape : Shape} (h : Shape.Fits a.shape.reverse shape.reverse)
    (p : Fin shape.size) : α :=
  have hp : Shape.sourceReversed a.shape.reverse shape.reverse p < a.data.size := by
    rw [a.size_eq, ← Shape.size_reverse a.shape]
    exact Shape.sourceReversed_lt h (by simp)
  a.data[Shape.sourceReversed a.shape.reverse shape.reverse p]

/-- Combine two arrays entry by entry, if their shapes fit. -/
def zipWith? (f : α → β → γ) (a : NDArray α) (b : NDArray β) : Option (NDArray γ) :=
  match h : Shape.alignReversed a.shape.reverse b.shape.reverse with
  | none => none
  | some reversed =>
    have fits := Shape.fits_of_alignReversed h
    some (tabulate reversed.reverse fun p =>
      f (a.repeatedAt (by simpa using fits.1) p) (b.repeatedAt (by simpa using fits.2) p))

/-- Combine two arrays entry by entry. -/
def zipWith (f : α → α → α) (a b : NDArray α) : Except (Fault α) (NDArray α) :=
  match zipWith? f a b with
  | some c => .ok c
  | none => .error .shapesDiffer

/-- Replace every entry by several along a new last axis. -/
def expand (a : NDArray α) (k : Nat) (f : α → Fin k → β) : NDArray β :=
  tabulate (a.shape ++ [k]) fun p =>
    have hp : p.val < a.data.size * k := by
      have := p.isLt
      simpa [a.size_eq] using this
    have hk : 0 < k := Nat.pos_of_ne_zero fun hk => by simp [hk] at hp
    have hq : p.val / k < a.data.size := Nat.div_lt_of_lt_mul (Nat.mul_comm _ k ▸ hp)
    f a.data[p.val / k] ⟨p.val % k, Nat.mod_lt _ hk⟩

/-- Vectors side by side, their entries along a new last axis. -/
def ofVecs {n : Nat} (a : NDArray (Vec α n)) : NDArray α := a.expand n Vec.get

/-- Matrices side by side, their rows and columns along two new last axes. -/
def ofMats {m n : Nat} (a : NDArray (Mat α m n)) : NDArray α := ofVecs (a.expand m Mat.row)

section Entries

variable [Scalar α]

/-- The entry at a position in row-major order; zero beyond the end. -/
def entry (a : NDArray α) (p : Nat) : α := a.data.getD p 0

/-- Whether every entry is finite. -/
def isFinite (a : NDArray α) : Bool := a.data.all Scalar.isFinite

end Entries

end QuadraticProgram.NDArray
