import QuadraticProgram.Arrays.Product
import QuadraticProgram.Kkt.Residuals

/-! # Costs and residuals on arrays of any rank

Where the shapes fit, each quantity is the one on vectors and matrices of known size. Where they do
not, the same formula is evaluated with the rules of array arithmetic, and refused if these do.
-/

namespace QuadraticProgram.NDArray

variable {α : Type} [Scalar α]

/-- The single number in an array without axes. -/
def single (a : NDArray α) : Except (Fault α) α :=
  if a.rank = 0 then .ok (a.entry 0) else .error .notNumeric

/-- The objective `½ xᵀ G x + cᵀ x`. -/
def quadraticCost (G c x : NDArray α) : Except (Fault α) α :=
  let n := x.data.size
  match G.asMatOf? n n, c.asVec? n, x.asVec? n with
  | some G, some c, some x => .ok (QuadraticProgram.quadraticCost G c x)
  | _, _, _ => do
    let bend ← dot (x.map (Scalar.ratio 1 2 * ·)) (← dot G x)
    single (← zipWith (· + ·) bend (← dot c x))

/-- The largest magnitude of `A x - b`, zero without rows. -/
def constraintResidual (A b x : NDArray α) : Except (Fault α) α :=
  let m := b.data.size
  let n := x.data.size
  match A.asMatOf? m n, b.asVec? m, x.asVec? n with
  | some A, some b, some x => .ok (QuadraticProgram.constraintResidual A b x)
  | _, _, _ =>
    match A.shape with
    | [] => .error .outOfRange
    | 0 :: _ => .ok 0
    | _ => do supNorm (← zipWith (· - ·) (← dot A x) b)

/-- The array `G x + c - Aᵀ y`, without the last term if there are no rows. The last term may not
change the shape, except that of a single number. -/
def stationarity (G c A x y : NDArray α) : Except (Fault α) (NDArray α) := do
  let gradient ← zipWith (· + ·) (← dot G x) c
  match A.shape with
  | 0 :: _ => .ok gradient
  | _ =>
    let total ← zipWith (· - ·) gradient (← dot A.transpose y)
    if gradient.rank = 0 ∨ total.shape = gradient.shape then .ok total else .error .shapesDiffer

/-- The largest magnitude of `G x + c - Aᵀ y`, zero without entries. -/
def stationarityResidual (G c A x y : NDArray α) : Except (Fault α) α := do
  let total ← stationarity G c A x y
  if total.data.isEmpty then .ok 0 else supNorm total

/-- Both residuals, if all shapes fit. -/
def kktResiduals? (G c A b x : NDArray α) (y : Option (NDArray α)) : Option (Residuals α) :=
  match A.shape with
  | [m, n] => do
    let G ← G.asMatOf? n n
    let c ← c.asVec? n
    let A ← A.asMatOf? m n
    let b ← b.asVec? m
    let x ← x.flatVec? n
    match y with
    | none => some (QuadraticProgram.kktResiduals G c A b x none)
    | some y => (y.flatVec? m).map fun y => QuadraticProgram.kktResiduals G c A b x (some y)
  | _ => none

/-- Both residuals of a point and, if there are any, multipliers. -/
def kktResiduals (G c A b x : NDArray α) (y : Option (NDArray α)) :
    Except (Fault α) (Residuals α) :=
  match kktResiduals? G c A b x y with
  | some r => .ok r
  | none => do
    let x := ofVec x.flatten.entries
    let primal ← constraintResidual A b x
    match y with
    | none => .ok ⟨primal, none⟩
    | some y => .ok ⟨primal, some (← stationarityResidual G c A x (ofVec y.flatten.entries))⟩

/-- Whether an array is a square matrix equal to its transpose within a tolerance. The tolerance has
to be in the range of the number format if a finite difference is compared with it. -/
def isSymmetric (M : NDArray α) (tolerance : Numeral α) : Except (Fault α) Bool :=
  match M.asMat? with
  | some A =>
    if h : A.numCols = A.numRows then
      let G := A.entries.castCols h
      match tolerance.inRange? with
      | some bound => .ok (QuadraticProgram.isSymmetric G bound)
      | none =>
        if A.numRows = 0 then .ok true
        else if Scalar.isFinite (asymmetry G) then .error .integerTooLarge
        else .ok false
    else .ok false
  | none => .ok false

/-- Refuse an array that is not symmetric. -/
def assertSymmetric (M : NDArray α) (tolerance : Numeral α) : Except (Fault α) Unit := do
  if ← M.isSymmetric tolerance then .ok () else .error (.notSymmetric tolerance)

end QuadraticProgram.NDArray
