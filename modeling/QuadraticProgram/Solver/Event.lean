import QuadraticProgram.Kkt.Residuals

/-! # What a run reports

A run reports events as data. Each has a severity and a source; its wording is settled only when a
log record is written.
-/

namespace QuadraticProgram

/-- How the optimality conditions are solved. -/
inductive KktPath
  | rangeSpace
  | fullSystem
  deriving DecidableEq, Repr

def KktPath.label : KktPath → String
  | rangeSpace => "range_space"
  | fullSystem => "full_kkt"

/-- The severities in use, with their ranks. -/
inductive Severity
  | debug
  | info
  | warning
  deriving DecidableEq, Repr

def Severity.rank : Severity → Int
  | debug => 10
  | info => 20
  | warning => 30

/-- What the parts of a solve report. -/
inductive Event (α : Type)
  /-- A program was turned into a dense problem. -/
  | assembled (numVars numCosts numEqualities numRows : Nat)
  /-- The Hessian has a Cholesky factor. -/
  | positiveDefinite (numVars numConstraints : Nat)
  /-- The Hessian has no Cholesky factor. -/
  | notPositiveDefinite (numVars numConstraints : Nat)
  /-- The point found misses the constraints. -/
  | constraintsMissed (residual tolerance : α)
  /-- The residuals at the point found. -/
  | residuals (path : KktPath) (values : Residuals α)
  deriving Repr

namespace Event

variable {α : Type}

def severity : Event α → Severity
  | assembled .. => .debug
  | positiveDefinite .. => .debug
  | notPositiveDefinite .. => .info
  | constraintsMissed .. => .warning
  | residuals .. => .debug

/-- The name of the logger that an event is reported to. -/
def source : Event α → String
  | assembled .. => "eqqp.convex.assemble"
  | _ => "eqqp.convex.equality_qp"

/-- The text of the residuals; a missing one is shown as none. -/
def residualText (r : Residuals Float) : String :=
  "\x7b'primal_eq': " ++ Decimal.shortestText r.primal ++ ", 'dual': "
    ++ (r.dual.map Decimal.shortestText).getD "None" ++ "\x7d"

/-- The wording of an event. -/
def text : Event Float → String
  | assembled n costs equalities rows =>
    s!"Assembled {n} variables from {costs} quadratic costs and "
      ++ s!"{equalities} equality bindings ({rows} rows)"
  | positiveDefinite n m =>
    s!"Hessian is positive definite; using range-space method (n={n}, m={m})"
  | notPositiveDefinite n m =>
    s!"Hessian is not positive definite; solving full KKT system by SVD (n={n}, m={m})"
  | constraintsMissed residual tolerance =>
    "Equality residual ||Ax - b||_inf = " ++ Decimal.exponentForm 3 residual ++ " exceeds "
      ++ Decimal.exponentForm 1 tolerance ++ "; the constraints may be inconsistent"
  | residuals path values => s!"KKT residuals ({path.label}): " ++ residualText values

/-- The wording of an event with directives in place of its values. -/
def template : Event Float → String
  | assembled .. =>
    "Assembled %d variables from %d quadratic costs and %d equality bindings (%d rows)"
  | positiveDefinite .. =>
    "Hessian is positive definite; using range-space method (n=%d, m=%d)"
  | notPositiveDefinite .. =>
    "Hessian is not positive definite; solving full KKT system by SVD (n=%d, m=%d)"
  | constraintsMissed .. =>
    "Equality residual ||Ax - b||_inf = %.3e exceeds %.1e; the constraints may be inconsistent"
  | residuals .. => "KKT residuals (%s): %s"

/-- The values of an event as a list of arguments. -/
def arguments : Event Float → String
  | assembled n costs equalities rows => s!"({n}, {costs}, {equalities}, {rows})"
  | positiveDefinite n m => s!"({n}, {m})"
  | notPositiveDefinite n m => s!"({n}, {m})"
  | constraintsMissed residual tolerance =>
    "(" ++ Decimal.shortestText residual ++ ", " ++ Decimal.shortestText tolerance ++ ")"
  | residuals path values => s!"('{path.label}', " ++ residualText values ++ ")"

end Event

/-- The result of a run together with the events it reported, in order. -/
structure Logged (α β : Type) where
  events : List (Event α)
  result : Except (Fault α) β

namespace Logged

variable {α β γ : Type}

/-- Report one event. -/
def report (e : Event α) : Logged α Unit := ⟨[e], .ok ()⟩

/-- A step that reports nothing. -/
def ofExcept (r : Except (Fault α) β) : Logged α β := ⟨[], r⟩

/-- Go on with the result of a run, if it has one. -/
def andThen (r : Logged α β) (f : β → Logged α γ) : Logged α γ :=
  match r.result with
  | .ok b => let s := f b; ⟨r.events ++ s.events, s.result⟩
  | .error e => ⟨r.events, .error e⟩

instance : Monad (Logged α) where
  pure b := ⟨[], .ok b⟩
  bind := andThen

@[simp] theorem result_pure (b : β) : (pure b : Logged α β).result = .ok b := rfl

@[simp] theorem events_pure (b : β) : (pure b : Logged α β).events = [] := rfl

@[simp] theorem result_ofExcept (r : Except (Fault α) β) : (ofExcept r).result = r := rfl

@[simp] theorem events_ofExcept (r : Except (Fault α) β) : (ofExcept r).events = [] := rfl

theorem bind_of_ok {r : Logged α β} {b : β} (h : r.result = .ok b) (f : β → Logged α γ) :
    r >>= f = ⟨r.events ++ (f b).events, (f b).result⟩ := by
  simp only [bind, andThen, h]

theorem bind_of_error {r : Logged α β} {e : Fault α} (h : r.result = .error e)
    (f : β → Logged α γ) : r >>= f = ⟨r.events, .error e⟩ := by
  simp only [bind, andThen, h]

end Logged

end QuadraticProgram
