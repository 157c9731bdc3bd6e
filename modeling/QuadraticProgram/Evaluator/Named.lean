import QuadraticProgram.Evaluator.Basic
import QuadraticProgram.Arrays.Broadcast

/-! # Named functions for generic costs and constraints -/

namespace QuadraticProgram.Named

variable {α : Type} [Scalar α]

/-- The sum of up to 128 values. Eight or more are dealt out to eight partial sums in turn, which
are added in pairs; the values left over come last. -/
def shortSum (xs : List α) : α :=
  let part := fun (k : Nat) => (List.range (xs.length / 8)).tail.foldl
    (fun acc i => acc + xs.getD (8 * i + k) 0) (xs.getD k 0)
  let dealt := if xs.length < 8 then 0
    else ((part 0 + part 1) + (part 2 + part 3)) + ((part 4 + part 5) + (part 6 + part 7))
  (xs.drop (xs.length / 8 * 8)).foldl (· + ·) dealt

/-- The sum of many values. More than 128 are cut in two near the middle, before a multiple of
eight. The fuel is the number of values. -/
def longSum : Nat → List α → α
  | 0, xs => shortSum xs
  | fuel + 1, xs =>
    if xs.length ≤ 128 then shortSum xs
    else
      let half := xs.length / 2 / 8 * 8
      longSum fuel (xs.take half) + longSum fuel (xs.drop half)

/-- The sum of the entries, added in an order that keeps rounding errors small. -/
def sum (v : AnyVec α) : α := longSum v.size v.entries.toArray.toList

def sumSquares (v : AnyVec α) : α := Vec.dot v.entries v.entries

/-- The first entry, which an empty vector lacks. -/
def firstEntry (v : AnyVec α) : Except (Fault α) α :=
  if h : 0 < v.size then .ok (v.entries ⟨0, h⟩) else .error .outOfRange

/-- The part of a vector before its second entry. -/
def upToFirst (v : AnyVec α) : NDArray α := .ofArray (v.entries.toArray.extract 0 1)

def product (v : AnyVec α) : α := Fin.foldl v.size (fun acc i => acc * v.entries i) 1

/-- The matrix of all products of two entries. -/
def outer (v : AnyVec α) : NDArray α :=
  .ofMat (Mat.ofFn fun i j => v.entries i * v.entries j)

/-- The cost with a name. -/
def cost (name : String) : Except (Fault α) (AnyVec α → Except (Fault α) α) :=
  match name with
  | "sum_squares" => .ok fun v => .ok (sumSquares v)
  | "sum" => .ok fun v => .ok (sum v)
  | "first" => .ok firstEntry
  | "seven" => .ok fun _ => .ok ((7 : Nat) : α)
  | _ => .error .unknownFunction

/-- The constraint function with a name. -/
def constraint (name : String) : Except (Fault α) (AnyVec α → Except (Fault α) (NDArray α)) :=
  match name with
  | "identity" => .ok fun v => .ok (.ofVec v.entries)
  | "first" => .ok fun v => .ok (upToFirst v)
  | "product" => .ok fun v => .ok (.ofScalar (product v))
  | "outer" => .ok fun v => .ok (outer v)
  | _ => .error .unknownFunction

end QuadraticProgram.Named
