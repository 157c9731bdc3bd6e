import QuadraticProgram.Fault
import QuadraticProgram.Matrix.Basic

/-! # How far a point is from optimal

The residuals are the largest magnitudes by which a point misses the constraints and, together with
multipliers, the stationarity condition. An entry that is no number makes its residual no number.
-/

namespace QuadraticProgram

variable {α : Type} [Scalar α] {m n : Nat}

/-- The objective `½ xᵀ G x + cᵀ x`. -/
def quadraticCost (G : Mat α n n) (c x : Vec α n) : α :=
  Vec.dot (x.map (Scalar.ratio 1 2 * ·)) (G.mulVec x) + Vec.dot c x

/-- The largest magnitude of `A x - b`. -/
def constraintResidual (A : Mat α m n) (b : Vec α m) (x : Vec α n) : α :=
  ((A.mulVec x).sub b).maxAbs

/-- The largest magnitude of `G x + c - Aᵀ y`. -/
def stationarityResidual (G : Mat α n n) (c : Vec α n) (A : Mat α m n) (x : Vec α n)
    (y : Vec α m) : α :=
  let gradient := (G.mulVec x).add c
  Vec.maxAbs (if m = 0 then gradient else gradient.sub (A.transposeMulVec y))

/-- Both residuals; without multipliers there is no dual one. -/
structure Residuals (α : Type) where
  primal : α
  dual : Option α
  deriving Repr

def kktResiduals (G : Mat α n n) (c : Vec α n) (A : Mat α m n) (b : Vec α m) (x : Vec α n)
    (y : Option (Vec α m)) : Residuals α :=
  { primal := constraintResidual A b x
    dual := y.map (stationarityResidual G c A x) }

/-- Whether every residual is within a tolerance. -/
def Residuals.within (r : Residuals α) (tolerance : Numeral α) : Bool :=
  tolerance.admits r.primal && r.dual.all tolerance.admits

/-- The tolerance for optimality that is used when none is given. -/
def optimalityTolerance : α := Scalar.ratio 1 1000000

/-- The tolerance for symmetry that is used when none is given. -/
def symmetryTolerance : α := Scalar.ratio 1 1000000000

/-- The tolerance for feasibility that is used when none is given. -/
def feasibilityTolerance : α := Scalar.ratio 1 100000000

/-- The largest magnitude of `G - Gᵀ`. -/
def asymmetry (G : Mat α n n) : α :=
  Scalar.maxAbs fun i => Vec.maxAbs (Vec.ofFn fun j => G i j - G j i)

/-- Whether a square matrix equals its transpose within a tolerance. A difference that is not finite
is never within it. -/
def isSymmetric (G : Mat α n n) (tolerance : α) : Bool :=
  n = 0 || Scalar.isFinite (asymmetry G) && decide (asymmetry G ≤ tolerance)

/-- Refuse a matrix that is not symmetric. -/
def assertSymmetric (G : Mat α n n) (tolerance : Numeral α) : Except (Fault α) Unit :=
  if isSymmetric G tolerance.value then .ok () else .error (.notSymmetric tolerance)

/-- Refuse a residual beyond a tolerance. -/
def assertWithin (residual : α) (tolerance : Numeral α) : Except (Fault α) Unit :=
  if tolerance.admits residual then .ok () else .error (.infeasible residual tolerance)

end QuadraticProgram
