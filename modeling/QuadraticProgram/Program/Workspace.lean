import QuadraticProgram.Program.Solve

/-! # Programs side by side

Several programs share one supply of variable numbers, and nothing else. An operation works on one
of them in place. A request for a truth value's worth of variables is refused only after the
variables have been made, but before they get places for their values.
-/

namespace QuadraticProgram

variable {δ α : Type} [Scalar α] [ArraySource δ α]

/-- How many variables a request asks for. -/
inductive VariableCount
  | number (k : Int)
  | truth (b : Bool)
  deriving DecidableEq, Repr

/-- The operations that can change a program. -/
inductive ProgramOp (δ α : Type)
  | newVariables (count : VariableCount) (name : String)
  | add (spec : EvaluatorSpec δ α) (vars : List Variable)
  | setValues (values : δ)
  | setOptimalCost (cost : α)
  | setSolverResult (result : SolverResult)
  | solve (checks : Bool)

/-- What an operation returns. -/
inductive ProgramAnswer (α : Type) [Scalar α]
  | done
  | vars (vs : Array Variable)
  | binding (b : Binding α)
  | status (s : Status)

/-- A program after an operation, the next free variable number, what was reported on the way and
what the operation returns. -/
structure Transition (α : Type) [Scalar α] where
  program : Program α
  nextId : Nat
  events : List (Event α)
  answer : Except (Fault α) (ProgramAnswer α)

namespace VariableCount

def toNat : VariableCount → Nat
  | number k => k.toNat
  | truth b => b.toNat

/-- Refuse a negative number. -/
def checkSign : VariableCount → Except (Fault α) Unit
  | number k => if k < 0 then .error .negativeCount else .ok ()
  | truth _ => .ok ()

/-- Refuse a truth value, which is no size of an array. -/
def checkSize : VariableCount → Except (Fault α) Unit
  | number _ => .ok ()
  | truth _ => .error .notNumeric

end VariableCount

/-- A program together with the next free variable number. -/
structure Supplied (π : Type) where
  program : π
  nextId : Nat

/-- How the parts of operations are carried out on programs of one representation. -/
structure Handlers (π δ α : Type) [Scalar α] where
  /-- Append as many variables as were asked for, with places for their values. -/
  enter : VariableCount → Array Variable → InPlace π α Unit
  add : EvaluatorSpec δ α → List Variable → InPlace π α (Binding α)
  write : Write α → InPlace π α Unit
  solve : Bool → InPlace π α Status

namespace Supplied

variable {π β : Type}

/-- Run on the program alone. -/
def onProgram (r : InPlace π α β) : InPlace (Supplied π) α β :=
  InPlace.focus Supplied.program (fun p s => { s with program := p }) r

/-- Make variables, which take the next numbers. -/
def draw (count : Nat) (name : String) : InPlace (Supplied π) α (Array Variable) := do
  let fresh ← InPlace.check fun s => .ok (Program.freshVariables count name s.nextId)
  InPlace.write fun s => { s with nextId := s.nextId + count }
  pure fresh

/-- Make new variables and enter them in the program. -/
def newVariables (enter : VariableCount → Array Variable → InPlace π α Unit)
    (count : VariableCount) (name : String) : InPlace (Supplied π) α (Array Variable) := do
  InPlace.ofExcept count.checkSign
  let fresh ← draw count.toNat name
  onProgram (enter count fresh)
  pure fresh

/-- Carry out an operation in place. -/
def operate (H : Handlers π δ α) : ProgramOp δ α → InPlace (Supplied π) α (ProgramAnswer α)
  | .newVariables count name => do
    pure (.vars (← newVariables H.enter count name))
  | .add spec vars => onProgram do
    pure (.binding (← H.add spec vars))
  | .setValues values => onProgram do
    let v ← InPlace.ofExcept (readVec values)
    H.write (.values v)
    pure .done
  | .setOptimalCost cost => onProgram do
    H.write (.cost cost)
    pure .done
  | .setSolverResult result => onProgram do
    H.write (.result result)
    pure .done
  | .solve checks => onProgram do
    pure (.status (← H.solve checks))

end Supplied

namespace Program

/-- Append new variables. The size of the array of their values is checked after that. -/
def enter (count : VariableCount) (fresh : Array Variable) : InPlace (Program α) α Unit := do
  InPlace.write fun p => p.appendVars fresh
  InPlace.ofExcept count.checkSize
  InPlace.write fun p => p.appendPlaces fresh.size

def handlers (F : Factorizations α) : Handlers (Program α) δ α where
  enter := enter
  add := Program.add
  write := write
  solve := solveInPlace F

@[simp] theorem handlers_add (F : Factorizations α) :
    (handlers (δ := δ) F).add = Program.add := rfl

@[simp] theorem handlers_write (F : Factorizations α) :
    (handlers (δ := δ) F).write = Program.write := rfl

@[simp] theorem handlers_solve (F : Factorizations α) :
    (handlers (δ := δ) F).solve = solveInPlace F := rfl

/-- What has become of a program after an operation. -/
def perform (F : Factorizations α) (p : Program α) (nextId : Nat) (op : ProgramOp δ α) :
    Transition α :=
  let (s, done) := (Supplied.operate (handlers F) op).run ⟨p, nextId⟩
  ⟨s.program, s.nextId, done.events, done.result⟩

end Program

/-- Programs and the next free variable number. -/
structure Workspace (α : Type) [Scalar α] where
  programs : Array (Program α)
  nextId : Nat

namespace Workspace

/-- One program without variables. -/
def initial : Workspace α := ⟨#[Program.empty], 0⟩

/-- Add a program. -/
def newProgram (w : Workspace α) : Workspace α :=
  { w with programs := w.programs.push Program.empty }

/-- Take a variable that belongs to no program. -/
def freeVariable (w : Workspace α) (name : String) : Workspace α × Variable :=
  ({ w with nextId := w.nextId + 1 }, ⟨name, w.nextId⟩)

/-- A program by its number. -/
def program (w : Workspace α) (i : Nat) : Except (Fault α) (Program α) :=
  match w.programs[i]? with
  | some p => .ok p
  | none => .error .outOfRange

/-- Carry out an operation on one program, if there is one of that number. -/
def perform (F : Factorizations α) (w : Workspace α) (i : Nat) (op : ProgramOp δ α) :
    Workspace α × Logged α (ProgramAnswer α) :=
  match w.programs[i]? with
  | some p =>
    let t := p.perform F w.nextId op
    (⟨w.programs.setIfInBounds i t.program, t.nextId⟩, ⟨t.events, t.answer⟩)
  | none => (w, ⟨[], .error .outOfRange⟩)

end Workspace

end QuadraticProgram
