import QuadraticProgram.Decimal.Binary

/-! # Arithmetic shared by machine numbers and exact numbers

Every numerical definition of the library is written over a `Scalar`. The instance here is the
binary64 format; the same definitions make sense over any ordered field with a square root, where
every number is finite and the comparison `a ≤ a` never fails.
-/

namespace QuadraticProgram

/-- Numbers with the operations that the solvers use. Comparisons are decidable, because every
rank decision is a comparison. -/
class Scalar (α : Type) where
  zero : α
  one : α
  natCast : Nat → α
  add : α → α → α
  sub : α → α → α
  mul : α → α → α
  div : α → α → α
  neg : α → α
  lt : α → α → Prop
  le : α → α → Prop
  decidableLT : ∀ a b, Decidable (lt a b)
  decidableLE : ∀ a b, Decidable (le a b)
  sqrt : α → α
  abs : α → α
  /-- False of infinities and of values that are no number. -/
  isFinite : α → Bool
  /-- Whether a value is at most an integer. The comparison is exact, also with an integer that is
  not among the numbers. -/
  leInt : α → Int → Bool

namespace Scalar

section Instances

variable {α : Type} [Scalar α]

instance (priority := 50) instZero : Zero α := ⟨zero⟩
instance (priority := 50) instOne : One α := ⟨one⟩
instance (priority := 50) instNatCast : NatCast α := ⟨natCast⟩
instance (priority := 50) instAdd : Add α := ⟨add⟩
instance (priority := 50) instSub : Sub α := ⟨sub⟩
instance (priority := 50) instMul : Mul α := ⟨mul⟩
instance (priority := 50) instDiv : Div α := ⟨div⟩
instance (priority := 50) instNeg : Neg α := ⟨neg⟩
instance (priority := 50) instLT : LT α := ⟨lt⟩
instance (priority := 50) instLE : LE α := ⟨le⟩
instance (priority := 50) instDecidableLT : DecidableLT α := decidableLT
instance (priority := 50) instDecidableLE : DecidableLE α := decidableLE

end Instances

variable {α : Type} [Scalar α]

/-- The quotient of two naturals; over binary64 it is the correctly rounded constant. -/
def ratio (p q : Nat) : α := (p : α) / (q : α)

/-- The distance from one to the next binary64 number. -/
def epsilon : α := ratio 1 4503599627370496

/-- A value that is not even equal to itself is no number. -/
def isNumber (a : α) : Bool := decide (a ≤ a)

/-- Equality as comparisons see it: the two signed zeros are equal, and nothing equals a value
that is no number. -/
def same (a b : α) : Bool := decide (a ≤ b) && decide (b ≤ a)

/-- The second value only if it is strictly larger. -/
def larger (a b : α) : α := if a < b then b else a

/-- The larger of two values, where a value that is no number wins over everything. -/
def largerOrInvalid (a b : α) : α := if a < b || !isNumber b then b else a

/-- Add up the values of a family from the first index to the last. -/
def sum {n : Nat} (f : Fin n → α) : α := Fin.foldl n (fun acc i => acc + f i) 0

/-- The largest magnitude in a family, zero if the family is empty; a value that is no number
wins. -/
def maxAbs {n : Nat} (f : Fin n → α) : α :=
  Fin.foldl n (fun acc i => largerOrInvalid acc (abs (f i))) 0

end Scalar

/-- The binary64 numbers. -/
instance : Scalar Float where
  zero := 0.0
  one := 1.0
  natCast := Float.ofNat
  add := Float.add
  sub := Float.sub
  mul := Float.mul
  div := Float.div
  neg := Float.neg
  lt a b := a < b
  le a b := a ≤ b
  decidableLT := Float.decLt
  decidableLE := Float.decLe
  sqrt := Float.sqrt
  abs := Float.abs
  isFinite := Float.isFinite
  leInt := Decimal.leInt

end QuadraticProgram
