import QuadraticProgram.Evaluator.Read
import QuadraticProgram.Solver.Identity

/-! # Programs

A program owns decision variables, the costs and constraints bound to them, and the latest solution
written to it.
-/

namespace QuadraticProgram

variable {δ α : Type} [Scalar α]

/-- An evaluator attached to as many variables as it takes. A variable may occur more than once. -/
structure Binding (α : Type) [Scalar α] where
  evaluator : Evaluator α
  vars : List Variable
  length_eq : (vars.length : Int) = evaluator.numVars

namespace Binding

/-- Attach an evaluator to variables, if the number fits. -/
def make (evaluator : Evaluator α) (vars : List Variable) :
    Except (Fault α) (Binding α) :=
  if h : (vars.length : Int) = evaluator.numVars then .ok ⟨evaluator, vars, h⟩
  else .error (.variableCount evaluator.kind evaluator.numVars vars.length)

def kind (b : Binding α) : Kind := b.evaluator.kind

end Binding

/-- Which solver wrote a solution, and the code it returned. -/
structure SolverResult where
  solver : SolverId
  code : Int
  deriving DecidableEq, Repr

/-- Decision variables, bindings and the stored solution. The value of a variable that no solution
was written for is missing. -/
structure Program (α : Type) [Scalar α] where
  vars : Array Variable
  bindings : Array (Binding α)
  values : Array (Option α)
  optimalCost : Option α
  solverResult : Option SolverResult

namespace Program

/-- The program without variables. -/
def empty : Program α := ⟨#[], #[], #[], none, none⟩

def numVars (p : Program α) : Nat := p.vars.size

/-- The position of a variable in a program. -/
def index (p : Program α) (v : Variable) : Except (Fault α) (Fin p.numVars) :=
  match p.vars.findFinIdx? fun w => w.id == v.id with
  | some i => .ok i
  | none => .error (.foreignVariable v)

/-- The variables that a request for new ones creates. Each is named after its place in the
request. -/
def freshVariables (count : Nat) (name : String) (nextId : Nat) : Array Variable :=
  Array.ofFn fun i : Fin count => ⟨s!"{name}({i.val})", nextId + i⟩

/-- The kinds that occur, each once, in the order of all kinds. -/
def kinds (p : Program α) : List Kind :=
  Kind.all.filter fun k => p.bindings.any fun b => b.kind = k

/-- The quadratic costs in the order in which they were added. -/
def quadraticCosts (p : Program α) : List (QuadraticCost α × List Variable) :=
  p.bindings.toList.filterMap fun b =>
    match b.evaluator with
    | .quadraticCost e => some (e, b.vars)
    | _ => none

/-- The linear equalities in the order in which they were added. -/
def linearEqualities (p : Program α) : List (LinearEquality α × List Variable) :=
  p.bindings.toList.filterMap fun b =>
    match b.evaluator with
    | .linearEquality e => some (e, b.vars)
    | _ => none

/-- The stored value at a place, if one was written. -/
def valueAt (p : Program α) (i : Nat) : Except (Fault α) (Option α) :=
  match p.values[i]? with
  | some value => .ok value
  | none => .error .outOfRange

/-- The stored value of one variable, if one was written. -/
def solution (p : Program α) (v : Variable) : Except (Fault α) (Option α) := do
  p.valueAt (← p.index v)

/-- The stored values of several variables, in their order. All are located before one is read. -/
def solutions (p : Program α) (vs : List Variable) : Except (Fault α) (List (Option α)) := do
  (← vs.mapM p.index).mapM fun i => p.valueAt i.val

end Program

end QuadraticProgram
