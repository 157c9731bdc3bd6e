import QuadraticProgram.Arrays.Datum
import QuadraticProgram.Evaluator.Read
import QuadraticProgram.Logging.Registry
import QuadraticProgram.Program.Workspace

/-! # The steps of a session

A session works on numbered programs, on variables by their numbers and on bindings in the order in
which they were made. It also holds the switch for the checks on solves and the state of logging.
-/

namespace QuadraticProgram.Session

/-- Variables by number, one or several. -/
inductive VarArg
  | one (v : Nat)
  | many (vs : List Nat)

def VarArg.toList : VarArg → List Nat
  | one v => [v]
  | many vs => vs

/-- The steps. Those on programs start with the number of the program. -/
inductive Step
  | newProgram
  | newVariables (p : Nat) (count : Datum) (name : String)
  | freeVariable (name : String)
  | sameVariable (a b : Nat)
  | numVars (p : Nat)
  | vars (p : Nat)
  | index (p : Nat) (v : Nat)
  | add (p : Nat) (spec : EvaluatorSpec Datum Float) (vs : VarArg)
  | makeBinding (spec : EvaluatorSpec Datum Float) (vs : VarArg)
  | evaluate (binding : Nat) (point : Datum)
  | kinds (p : Nat)
  | ofKind (p : Nat) (label : String)
  | check (p : Nat)
  | assemble (p : Nat)
  | outcome (p : Nat)
  | solve (p : Nat)
  | setValues (p : Nat) (values : Datum)
  | solution (p : Nat) (vs : Option VarArg)
  | tensor (p : Nat) (elementType : String)
  | setCost (p : Nat) (cost : Datum)
  | getCost (p : Nat)
  | setResult (p : Nat) (solver : String) (code : Datum)
  | getResult (p : Nat)
  | setChecks (enabled : Datum)
  | getChecks
  /-- Carry out steps with the checks switched, and switch them back at the end, also if the end is
  a failure. -/
  | withChecks (enabled : Datum) (steps : List Step) (fail : Bool)
  | getLogger (name : Datum)
  | setUpLogger (name : Datum) (level : Datum) (handlers : Nat)
  | log (name : Datum) (level : Datum) (message : Datum)
  | setLogLevel (level : Datum)
  | configureLogging (level format : Datum) (toStream : Bool)
  | readStream
  | readStandardError
  deriving Inhabited

/-- What a step answers. -/
inductive Answer
  | nothing
  | fault (f : Fault Float)
  | whole (k : Nat)
  | truth (b : Bool)
  | variable (v : Variable)
  | vars (vs : List Variable)
  | binding (number : Nat) (kind : Kind) (vars : List Variable)
  | numbers (ks : List Nat)
  | kinds (ks : List Kind)
  | value (v : Value Float)
  | problem (P : AnyProblem Float)
  | outcome (o : AnyOutcome Float)
  | status (s : Status)
  | number (x : Option Float)
  | tensor (elementType : ElementType) (values : List Float)
  | result (r : Option SolverResult)
  | logger (l : Logger) (known : Bool)
  | block (answers : List Answer) (failed : Bool)
  | lines (ls : List String)

end QuadraticProgram.Session
