import Mathlib.Data.List.AList
import QuadraticProgram.Program.Workspace

/-! # Programs with a dictionary

A program can look its variables up in a dictionary of their positions instead of searching for
them. The dictionary is a field of its own, which is written before the variables are appended.
-/

namespace QuadraticProgram

variable {δ α : Type} [Scalar α]

/-- A program together with a dictionary from the numbers of variables to positions. -/
structure IndexedProgram (α : Type) [Scalar α] extends Program α where
  positions : AList fun _ : Nat => Nat

/-- Enter variables in a dictionary, from a position on. A number that is there already gets the
new position. -/
def enterPositions (positions : AList fun _ : Nat => Nat) : Nat → List Variable →
    AList fun _ : Nat => Nat
  | _, [] => positions
  | i, v :: vs => enterPositions (positions.insert v.id i) (i + 1) vs

namespace IndexedProgram

/-- The program without variables. -/
def empty : IndexedProgram α := ⟨Program.empty, ∅⟩

/-- The position that a variable has in the dictionary. -/
def position (s : IndexedProgram α) (v : Variable) : Except (Fault α) Nat :=
  match s.positions.lookup v.id with
  | some i => .ok i
  | none => .error (.foreignVariable v)

/-- The position of a variable, which has to be one of a variable of the program. -/
def place (s : IndexedProgram α) (v : Variable) : Except (Fault α) (Fin s.numVars) := do
  let i ← s.position v
  if h : i < s.numVars then .ok ⟨i, h⟩ else .error .outOfRange

/-- The stored value of one variable, if one was written. -/
def solution (s : IndexedProgram α) (v : Variable) : Except (Fault α) (Option α) := do
  s.valueAt (← s.position v)

/-- The stored values of several variables, in their order. -/
def solutions (s : IndexedProgram α) (vs : List Variable) :
    Except (Fault α) (List (Option α)) := do
  (← vs.mapM s.position).mapM s.valueAt

/-- Check, assemble and solve a program without writing to it. -/
def solveOutcome (F : Factorizations α) (checks : Bool) (s : IndexedProgram α) :
    Logged α (AnyOutcome α) := s.toProgram.solveOutcomeBy F checks s.place

/-- Run on all but the dictionary. -/
def onFields {β : Type} (r : InPlace (Program α) α β) : InPlace (IndexedProgram α) α β :=
  InPlace.focus toProgram (fun p s => { s with toProgram := p }) r

/-- Append a binding. All its variables have to be found before. -/
def bind (evaluator : Evaluator α) (vars : List Variable) :
    InPlace (IndexedProgram α) α (Binding α) := do
  let b ← InPlace.ofExcept (Binding.make evaluator vars)
  InPlace.check fun s => checkFound s.position b.vars
  onFields (InPlace.write fun p => p.appendBinding b)
  pure b

/-- Solve a program and store the solution in it. -/
def solveInPlace (F : Factorizations α) (checks : Bool) : InPlace (IndexedProgram α) α Status := do
  let o ← InPlace.observe fun s => s.solveOutcome F checks
  onFields (Program.writeParts o.writes)
  pure .solutionFound

/-- Enter variables in the dictionary and append them. -/
def enter (count : VariableCount) (fresh : Array Variable) :
    InPlace (IndexedProgram α) α Unit := do
  InPlace.write fun s =>
    { s with positions := enterPositions s.positions s.numVars fresh.toList }
  onFields (Program.enter count fresh)

/-- Build an evaluator from data and bind it. -/
def add [ArraySource δ α] (spec : EvaluatorSpec δ α) (vars : List Variable) :
    InPlace (IndexedProgram α) α (Binding α) := do
  let evaluator ← InPlace.ofExcept (Evaluator.read spec)
  IndexedProgram.bind evaluator vars

def handlers [ArraySource δ α] (F : Factorizations α) : Handlers (IndexedProgram α) δ α where
  enter := enter
  add := IndexedProgram.add
  write := fun w => onFields (Program.write w)
  solve := solveInPlace F

/-- What becomes of a program and of the next free variable number in an operation, and what the
operation reports and returns. -/
def operate [ArraySource δ α] (F : Factorizations α) (s : IndexedProgram α) (nextId : Nat)
    (op : ProgramOp δ α) : Supplied (IndexedProgram α) × Logged α (ProgramAnswer α) :=
  (Supplied.operate (handlers F) op).run ⟨s, nextId⟩

end IndexedProgram

end QuadraticProgram
