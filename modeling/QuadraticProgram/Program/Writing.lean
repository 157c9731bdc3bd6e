import QuadraticProgram.Program.Basic
import QuadraticProgram.Program.InPlace

/-! # Writing to programs

Bindings, solutions and new variables are written to a program in place. Whatever has to be checked
for a write is checked right before it.
-/

namespace QuadraticProgram

variable {δ α : Type} [Scalar α]

/-- A part of a solution that is written at once. -/
inductive Write (α : Type)
  | values (x : AnyVec α)
  | cost (a : α)
  | result (r : SolverResult)

/-- Refuse variables of which one is not found. -/
def checkFound {ι : Type} (find : Variable → Except (Fault α) ι) (vs : List Variable) :
    Except (Fault α) Unit := do
  let _ ← vs.mapM find

namespace Program

/-- Append new variables, without places for their values. -/
def appendVars (p : Program α) (fresh : Array Variable) : Program α :=
  { p with vars := p.vars ++ fresh }

/-- Append places for values that are missing. -/
def appendPlaces (p : Program α) (count : Nat) : Program α :=
  { p with values := p.values ++ Array.replicate count none }

def appendBinding (p : Program α) (b : Binding α) : Program α :=
  { p with bindings := p.bindings.push b }

/-- Refuse values that are not as many as the variables. -/
def checkCount (p : Program α) (x : AnyVec α) : Except (Fault α) Unit :=
  if x.size = p.numVars then .ok () else .error (.valueCount p.numVars x.size)

def setValues (p : Program α) (x : AnyVec α) : Program α :=
  { p with values := x.entries.toArray.map some }

def setOptimalCost (p : Program α) (cost : α) : Program α := { p with optimalCost := some cost }

def setSolverResult (p : Program α) (result : SolverResult) : Program α :=
  { p with solverResult := some result }

/-- Append a binding. All its variables have to be found before. -/
def bind (evaluator : Evaluator α) (vars : List Variable) :
    InPlace (Program α) α (Binding α) := do
  let b ← InPlace.ofExcept (Binding.make evaluator vars)
  InPlace.check fun p => checkFound p.index b.vars
  InPlace.write fun p => p.appendBinding b
  pure b

/-- Build an evaluator from data and bind it. -/
def add [ArraySource δ α] (spec : EvaluatorSpec δ α) (vars : List Variable) :
    InPlace (Program α) α (Binding α) := do
  let evaluator ← InPlace.ofExcept (Evaluator.read spec)
  Program.bind evaluator vars

/-- Write a part of a solution. -/
def write : Write α → InPlace (Program α) α Unit
  | .values x => do
    InPlace.check fun p => p.checkCount x
    InPlace.write fun p => p.setValues x
  | .cost a => InPlace.write fun p => p.setOptimalCost a
  | .result r => InPlace.write fun p => p.setSolverResult r

end Program

end QuadraticProgram
