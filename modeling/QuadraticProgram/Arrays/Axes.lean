import QuadraticProgram.Arrays.Broadcast

/-! # Arrays rearranged along their axes

Entries are taken by their positions in row-major order. What an array does not have is refused.
-/

namespace QuadraticProgram.NDArray

variable {α : Type} [Scalar α]

/-- The array with its axes in reverse order. -/
def transpose (a : NDArray α) : NDArray α :=
  tabulate a.shape.reverse fun p => a.entry (Shape.placeBeforeReversal a.shape p 0)

/-- The parts of an array at given positions of its first axis. -/
def takeFirst (a : NDArray α) (positions : List Nat) : Except (Fault α) (NDArray α) :=
  match a.shape with
  | [] => .error .outOfRange
  | n :: rest =>
    if positions.all (· < n) then
      let width := Shape.size rest
      .ok (tabulate (positions.length :: rest) fun p =>
        a.entry (positions.getD (p / width) 0 * width + p % width))
    else .error .outOfRange

/-- As many parts along the first axis as asked for, or all if there are fewer. -/
def leading (a : NDArray α) (n : Nat) : Except (Fault α) (NDArray α) :=
  a.takeFirst (List.range (min n (a.shape.headD 0)))

/-- The first part along the first axis. -/
def head (a : NDArray α) : NDArray α := tabulate a.shape.tail fun p => a.entry p

/-- The array with axes of extent one in front, up to a given rank. -/
def lift (a : NDArray α) (rank : Nat) : NDArray α :=
  a.reshape (List.replicate (rank - a.rank) 1 ++ a.shape) (by simp)

/-- One array after the other along an axis. All other extents have to be the same. -/
def join (axis : Nat) (a b : NDArray α) : Except (Fault α) (NDArray α) :=
  match a.shape.drop axis, b.shape.drop axis with
  | m :: s, n :: t =>
    if a.shape.take axis = b.shape.take axis ∧ s = t then
      let first := m * Shape.size s
      let second := n * Shape.size s
      .ok (tabulate (a.shape.take axis ++ (m + n) :: s) fun p =>
        let part := p / (first + second)
        let place := p % (first + second)
        if place < first then a.entry (part * first + place)
        else b.entry (part * second + (place - first)))
    else .error .shapesDiffer
  | _, _ => .error .shapesDiffer

/-- The lengths of the lines of entries along the second axis. -/
def lengths (a : NDArray α) : Except (Fault α) (NDArray α) :=
  match a.shape with
  | m :: n :: rest =>
    let width := Shape.size rest
    .ok (tabulate (m :: rest) fun p =>
      Scalar.sqrt (Scalar.sum fun j : Fin n =>
        let x := a.entry ((p / width * n + j) * width + p % width)
        x * x))
  | _ => .error .noAxis

/-- Every entry divided by the scale of its line along the second axis. -/
def divideLines (a scales : NDArray α) : NDArray α :=
  let line := Shape.size a.shape.tail
  let width := Shape.size (a.shape.drop 2)
  tabulate a.shape fun p => a.entry p / scales.entry (p / line * width + p % width)

/-- The largest magnitude in a vector, or the largest sum of magnitudes in a row of a matrix, zero
without entries. Other ranks are refused. -/
def supNorm (a : NDArray α) : Except (Fault α) α :=
  match a.shape with
  | [n] => .ok (Scalar.maxAbs fun i : Fin n => a.entry i)
  | [m, n] =>
    .ok (Scalar.maxAbs fun i : Fin m =>
      Scalar.sum fun j : Fin n => Scalar.abs (a.entry (i * n + j)))
  | _ => .error .shapesDiffer

end QuadraticProgram.NDArray
