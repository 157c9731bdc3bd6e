import QuadraticProgram.Kkt.RangeSpace
import QuadraticProgram.Kkt.System
import QuadraticProgram.Solver.Event
import QuadraticProgram.Solver.Problem

/-! # Solving dense problems

A Cholesky factorization of the Hessian decides how the optimality conditions are solved. Neither
way detects that a problem has no solution; the residuals in the outcome tell. With checks on, the
Hessian has to be symmetric and the point found has to meet the constraints.
-/

namespace QuadraticProgram

variable {α : Type} [Scalar α] {n m : Nat}

/-- The result of a solve. Multipliers and the dual residual exist on the range-space path only. -/
structure Outcome (α : Type) (n m : Nat) where
  x : Vec α n
  cost : α
  path : KktPath
  multipliers : Option (Vec α m)
  primalResidual : α
  dualResidual : Option α

/-- An outcome together with the problem that it solves. -/
structure AnyOutcome (α : Type) where
  numVars : Nat
  numConstraints : Nat
  problem : Problem α numVars numConstraints
  outcome : Outcome α numVars numConstraints

/-- The factor of a matrix, if it has one. Every entry has to be finite, also those above the
diagonal, which the factorization does not read. -/
def choleskyFactor? (F : Factorizations α) (G : Mat α n n) :
    Except (Fault α) (Option (Mat α n n)) :=
  if G.isFinite then .ok (F.cholesky G) else .error .notFinite

/-- How large a residual may be for targets `b`. A largest target that is no number counts as one.
-/
def residualTolerance (b : Vec α m) : α :=
  feasibilityTolerance * Scalar.larger 1 b.maxAbs

/-- A point, the way it was found and its multipliers. -/
structure Candidate (α : Type) (n m : Nat) where
  path : KktPath
  x : Vec α n
  multipliers : Option (Vec α m)

/-- Solve the optimality conditions. -/
def findCandidate (F : Factorizations α) (P : Problem α n m) : Logged α (Candidate α n m) :=
  if n = 0 then pure ⟨.rangeSpace, Vec.zero, some Vec.zero⟩
  else do
    match ← Logged.ofExcept (choleskyFactor? F P.hessian) with
    | some L =>
      Logged.report (.positiveDefinite n m)
      let s ← Logged.ofExcept (solveRangeSpace F L P.gradient P.matrix P.target)
      pure ⟨.rangeSpace, s.x, some s.y⟩
    | none =>
      Logged.report (.notPositiveDefinite n m)
      let x ← Logged.ofExcept (solveFullSystem F P.hessian P.gradient P.matrix P.target)
      pure ⟨.fullSystem, x, none⟩

/-- Judge a candidate by its residuals. -/
def concludeCandidate (checks : Bool) (P : Problem α n m) (s : Candidate α n m) :
    Logged α (Outcome α n m) := do
  let r := kktResiduals P.hessian P.gradient P.matrix P.target s.x s.multipliers
  let tolerance := residualTolerance P.target
  if tolerance < r.primal then
    Logged.report (.constraintsMissed r.primal tolerance)
  if checks then
    Logged.report (.residuals s.path r)
    Logged.ofExcept (assertWithin r.primal (.real tolerance))
  pure
    { x := s.x
      cost := quadraticCost P.hessian P.gradient s.x
      path := s.path
      multipliers := s.multipliers
      primalResidual := r.primal
      dualResidual := r.dual }

/-- Solve a problem of known sizes. -/
def Problem.solve (F : Factorizations α) (checks : Bool) (P : Problem α n m) :
    Logged α (Outcome α n m) := do
  if checks then
    Logged.ofExcept (assertSymmetric P.hessian (.real symmetryTolerance))
  let s ← findCandidate F P
  concludeCandidate checks P s

/-- Read a problem and solve it. -/
def solveDense {δ : Type} [ArraySource δ α] (F : Factorizations α) (checks : Bool)
    (hessian gradient : δ) (matrix : Option δ) (target : δ) : Logged α (AnyOutcome α) := do
  let P ← Logged.ofExcept (AnyProblem.read hessian gradient matrix target)
  let outcome ← P.problem.solve F checks
  pure ⟨P.numVars, P.numConstraints, P.problem, outcome⟩

end QuadraticProgram
