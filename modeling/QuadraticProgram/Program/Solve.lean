import QuadraticProgram.Program.Assembly
import QuadraticProgram.Program.Writing

/-! # Solving programs

The solver accepts quadratic costs and linear equalities only. A solution is found before anything
is written. It is written in three parts, one after the other.
-/

namespace QuadraticProgram

variable {α : Type} [Scalar α]

/-- How a solve can end. No solve detects that a problem is infeasible or unbounded. -/
inductive Status
  | solutionFound
  deriving DecidableEq, Repr

def Status.label : Status → String
  | solutionFound => "SOLUTION_FOUND"

/-- The code that is stored with a solution. -/
def Status.code : Status → Int
  | solutionFound => 0

namespace Program

/-- The kinds that occur and that the solver cannot handle. -/
def unsupportedKinds (p : Program α) : List Kind := p.kinds.filter fun k => !k.isSupported

/-- Refuse a program that holds anything but quadratic costs and linear equalities. -/
def checkSupported (p : Program α) : Except (Fault α) Unit :=
  if p.unsupportedKinds.isEmpty then .ok () else .error (.unsupported p.unsupportedKinds)

/-- Check, assemble and solve a program without writing to it. A variable is at the position at
which it is found. -/
def solveOutcomeBy (F : Factorizations α) (checks : Bool) (p : Program α)
    (find : Variable → Except (Fault α) (Fin p.numVars)) : Logged α (AnyOutcome α) := do
  Logged.ofExcept p.checkSupported
  let P ← p.assembleBy find
  let outcome ← P.problem.solve F checks
  pure ⟨P.numVars, P.numConstraints, P.problem, outcome⟩

/-- Check, assemble and solve a program without writing to it. -/
def solveOutcome (F : Factorizations α) (checks : Bool) (p : Program α) :
    Logged α (AnyOutcome α) := p.solveOutcomeBy F checks p.index

end Program

/-- What a solve writes, in this order. -/
def AnyOutcome.writes (o : AnyOutcome α) : List (Write α) :=
  [.values ⟨o.numVars, o.outcome.x⟩, .cost o.outcome.cost,
    .result ⟨solverId, Status.solutionFound.code⟩]

namespace Program

/-- Write parts of a solution one after the other. -/
def writeParts (ws : List (Write α)) : InPlace (Program α) α Unit := ws.forM write

/-- Solve a program and store the solution in it. -/
def solveInPlace (F : Factorizations α) (checks : Bool) : InPlace (Program α) α Status := do
  let o ← InPlace.observe fun p => p.solveOutcome F checks
  writeParts o.writes
  pure .solutionFound

/-- The program that a solve leaves and its status, if it succeeds. -/
def solve (F : Factorizations α) (checks : Bool) (p : Program α) :
    Logged α (Program α × Status) := (solveInPlace F checks).outcome p

end Program

end QuadraticProgram
