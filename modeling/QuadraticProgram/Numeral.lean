import QuadraticProgram.Decimal.Layout
import QuadraticProgram.Scalar

/-! # Numbers in the form in which they were given

A tolerance, a rank or an extent may come as a number of the format, as an integer of any size or as
a truth value. Messages show it in its own form, and integers are compared exactly.
-/

namespace QuadraticProgram

/-- A number as it was given. -/
inductive Numeral (α : Type)
  | real (a : α)
  | whole (k : Int)
  | truth (b : Bool)
  deriving Repr

namespace Numeral

variable {α : Type} [Scalar α]

/-- The integer that a number was given as, where a truth value counts as one or zero. -/
def integer? : Numeral α → Option Int
  | real _ => none
  | whole k => some k
  | truth b => some b.toNat

/-- An integer as the nearest number of the format. -/
def ofInteger (k : Int) : α := if k < 0 then -(k.natAbs : α) else (k.natAbs : α)

/-- The nearest number of the format. -/
def value : Numeral α → α
  | real a => a
  | whole k => ofInteger k
  | truth b => ofInteger b.toNat

/-- The number of the format, unless an integer is beyond its range. -/
def inRange? (t : Numeral α) : Option α :=
  match t with
  | real a => some a
  | _ => if Scalar.isFinite t.value then some t.value else none

/-- Whether a value is at most the given number. -/
def admits (t : Numeral α) (a : α) : Bool :=
  match t with
  | real b => decide (a ≤ b)
  | whole k => Scalar.leInt a k
  | truth b => Scalar.leInt a b.toNat

/-- Whether one number is less than another; integers are compared exactly. -/
def lt : Numeral α → Numeral α → Bool
  | real a, real b => decide (a < b)
  | real a, t => match t.integer? with
    | some k => Scalar.leInt a k && !Scalar.leInt (-a) (-k)
    | none => false
  | t, real b => match t.integer? with
    | some k => Scalar.leInt (-b) (-k) && !Scalar.leInt b k
    | none => false
  | s, t => match s.integer?, t.integer? with
    | some j, some k => decide (j < k)
    | _, _ => false

/-- Whether a given number is a natural one. -/
def isCount (t : Numeral α) (n : Nat) : Bool :=
  match t with
  | real a => Scalar.same a (n : α)
  | t => t.integer? = some n

/-- How a number is shown. -/
def text : Numeral Float → String
  | real a => Decimal.shortestText a
  | whole k => toString k
  | truth b => if b then "True" else "False"

end Numeral

end QuadraticProgram
