import QuadraticProgram.Factorization.Basic

/-! # Column-pivoted factorization by reflections

At step `j` the column of largest remaining norm among the positions from `j` on is exchanged with
position `j`, the first such position winning a tie, and a reflection clears it below the diagonal.
Remaining norms are carried along: a step takes the part that it makes final out of each norm, and
computes the norm afresh where too little of it is left to be accurate.
-/

namespace QuadraticProgram.Reflection

variable {α : Type} [Scalar α] {m n : Nat}

/-- The norm of a vector, scaled by its largest entry only where the squares would leave the range
of the format. -/
def norm (x : Vec α m) : α :=
  let squares := Vec.dot x x
  let bound : α := Nat.pow 2 900
  if 1 / bound < squares && squares < bound then
    Scalar.sqrt squares
  else
    let scale := x.maxAbs
    if 0 < scale && Scalar.isFinite scale then
      let y := x.map (· / scale)
      scale * Scalar.sqrt (Vec.dot y y)
    else scale

/-- The length of a vector with two given components. -/
def hypotenuse (a b : α) : α :=
  let x := Scalar.abs a
  let y := Scalar.abs b
  let large := Scalar.larger x y
  let small := if x < y then x else y
  if 0 < small then
    let t := small / large
    large * Scalar.sqrt (1 + t * t)
  else large

/-- The entries from position `j` on, with zeros before them. -/
def tail (x : Vec α m) (j : Nat) : Vec α m := Vec.ofFn fun i => if i.val < j then 0 else x i

/-- The first position, among those from `j` on, of a largest value. -/
def firstLargest (j : Fin n) (values : Vec α n) : Fin n :=
  Fin.foldl n (fun best c => if j < c && values best < values c then c else best) j

/-- The reflection `x ↦ x - weight * (normal ⬝ x) * normal`; with weight zero it moves nothing. -/
structure Reflector (α : Type) (m : Nat) where
  normal : Vec α m
  weight : α

namespace Reflector

/-- The image of a vector. -/
def apply (h : Reflector α m) (x : Vec α m) : Vec α m :=
  let t := -h.weight * Vec.dot h.normal x
  Vec.ofFn fun i => x i + h.normal i * t

/-- The image of every column. -/
def applyCols (h : Reflector α m) (A : Mat α m n) : Mat α m n :=
  let t : Vec α n := Vec.ofFn fun c => -h.weight * Scalar.sum fun i => h.normal i * A i c
  Mat.ofFn fun i c => A i c + h.normal i * t c

/-- What the entry `x j` becomes if the entries behind it are cleared: the length of them all with
the opposite sign, or `x j` itself if there is nothing to clear. -/
def image (x : Vec α m) (j : Fin m) : α :=
  let below := norm (tail x (j + 1))
  if 0 < below then
    let length := hypotenuse (x j) below
    if x j < 0 then length else -length
  else x j

/-- The factor that brings lengths close to the least numbers of the format back into its middle.
Being a power of two, it does not round. -/
def lift : α := Nat.pow 2 969

/-- The reflection that clears the entries of `x` behind position `j` and leaves those before it
alone. The entry at `j` of the normal is one. Vectors so short that the inverse of their length
would overflow are made longer first, which leaves the reflection the same. -/
def clearing (x : Vec α m) (j : Fin m) : Reflector α m :=
  let x := if Scalar.abs (image x j) * lift < 1 then x.map (· * lift) else x
  let image := image x j
  if Scalar.same image (x j) then
    { normal := Vec.ofFn fun i => if i = j then 1 else 0, weight := 0 }
  else
    let scale := 1 / (x j - image)
    { normal := Vec.ofFn fun i => if i = j then 1 else if i < j then 0 else scale * x i
      weight := (image - x j) / image }

end Reflector

/-- Column `j` as a reflection leaves it: the given value on the diagonal, zeros below. -/
def finishCol (A : Mat α m n) (j : Nat) (image : α) : Mat α m n :=
  Mat.ofFn fun i c =>
    if c.val = j then (if i.val = j then image else if j < i.val then 0 else A i c) else A i c

/-- A remaining norm, with its value when it was last computed afresh. -/
structure Remaining (α : Type) where
  now : α
  fresh : α

/-- Take an entry out of a remaining norm. The norm is computed afresh if less than half the digits
of the last fresh value would be accurate. -/
def Remaining.shrink (r : Remaining α) (entry : α) (recompute : Unit → α) : Remaining α :=
  if 0 < r.now then
    let ratio := Scalar.abs entry / r.now
    let left := 1 - ratio * ratio
    let left := if left < 0 then 0 else left
    let loss := r.now / r.fresh
    if left * (loss * loss) ≤ Scalar.sqrt (Scalar.epsilon / ((2 : Nat) : α)) then
      let norm := recompute ()
      ⟨norm, norm⟩
    else ⟨r.now * Scalar.sqrt left, r.fresh⟩
  else r

/-- A factorization in progress: the reduced matrix, the order of its columns, their remaining norms
and the reflections used so far, the latest first. -/
structure State (α : Type) (m n : Nat) where
  work : Mat α m n
  perm : Vec (Fin n) n
  norms : Vec (Remaining α) n
  reflectors : List (Reflector α m)

/-- Bring the largest remaining column to position `j` and clear it below the diagonal. -/
def step (s : State α m n) (j : Fin (min m n)) : State α m n :=
  let col : Fin n := ⟨j, by omega⟩
  let row : Fin m := ⟨j, by omega⟩
  let p := firstLargest col (s.norms.map Remaining.now)
  let swapped := s.work.swapCols col p
  let norms := s.norms.swap col p
  let h := Reflector.clearing (swapped.col col) row
  let work := finishCol (h.applyCols swapped) j (Reflector.image (swapped.col col) row)
  { work
    perm := s.perm.swap col p
    norms := Vec.ofFn fun c =>
      if col < c then (norms c).shrink (work row c) fun _ => norm (tail (work.col c) (j + 1))
      else norms c
    reflectors := h :: s.reflectors }

/-- The state after all steps. -/
def run (A : Mat α m n) : State α m n :=
  let norms := Vec.ofFn fun c => let norm := norm (A.col c); ⟨norm, norm⟩
  Fin.foldl (min m n) step ⟨A, Vec.ofFn id, norms, []⟩

/-- The column-pivoted factorization. -/
def factor (A : Mat α m n) : PivotedQR α m n :=
  let s := run A
  { q := s.reflectors.foldl (fun q h => h.applyCols q)
      (Mat.ofFn fun i c => if i.val = c.val then 1 else 0)
    r := Mat.ofFn fun i c => s.work ⟨i, by omega⟩ c
    perm := s.perm }

end QuadraticProgram.Reflection
