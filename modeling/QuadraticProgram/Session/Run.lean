import QuadraticProgram.Factorization.Standard
import QuadraticProgram.Session.Step
import QuadraticProgram.Text.Line

/-! # Running sessions

A step that fails answers its cause and the session goes on. Log lines pile up per target until they
are read.
-/

namespace QuadraticProgram

/-- The state of a session. -/
structure Session where
  workspace : Workspace Float
  /-- All variables; each stands at the place of its number. -/
  vars : Array Variable
  /-- All bindings in the order in which they were made. -/
  bindings : Array (Binding Float)
  /-- For each program, the numbers of its bindings in the order in which they were added. -/
  bindingNumbers : Array (Array Nat)
  checks : Bool
  registry : Registry
  /-- The full names of the loggers that the session was given. -/
  knownLoggers : List String
  streamLines : List String
  errorLines : List String

namespace Session

/-- A session with one program. -/
def initial : Session :=
  { workspace := Workspace.initial
    vars := #[]
    bindings := #[]
    bindingNumbers := #[#[]]
    checks := false
    registry := Registry.initial
    knownLoggers := []
    streamLines := []
    errorLines := [] }

/-- The factorizations that sessions run with. -/
def factorizations : Factorizations Float := Factorizations.standard

/-- Keep log lines until they are read. -/
def keep (s : Session) (written : List LogLine) : Session :=
  let linesFor := fun (t : Target) => written.filterMap fun w =>
    if w.target = t then some w.text else none
  { s with
    streamLines := s.streamLines ++ linesFor .stream
    errorLines := s.errorLines ++ linesFor .standardError }

/-- Log the events of a run. -/
def keepEvents (s : Session) (events : List (Event Float)) : Session :=
  s.keep (s.registry.writeEvents events)

/-- The lines of texts written one after the other, without the empty ones. -/
def nonemptyLines (texts : List String) : List String := texts.flatMap Text.nonemptyLines

/-- The stored values of all variables; a missing value is no number. -/
def storedValues (p : Program Float) : List Float :=
  p.values.toList.map fun x => x.getD (0.0 / 0.0)

/-- The values of a program in a tensor of a named element type. They are read back from it, which
has to be possible. -/
def tensor (p : Program Float) (name : String) : Except (Fault Float) Answer := do
  let t ← Datum.elementType name
  let _ ← Datum.readable name false
  .ok (.tensor t ((storedValues p).map t.convert))

/-- Variables by number. -/
def lookUp (s : Session) (vs : List Nat) : Except (Fault Float) (List Variable) :=
  vs.mapM fun v => match s.vars[v]? with
    | some v => .ok v
    | none => .error .outOfRange

/-- The answer of a computation, or the cause of its failure. -/
def answer {β : Type} (r : Except (Fault Float) β) (f : β → Answer) : Answer :=
  match r with
  | .ok b => f b
  | .error e => .fault e

/-- A question about one program. -/
def ask (s : Session) (p : Nat) (f : Program Float → Except (Fault Float) Answer) :
    Session × Answer :=
  (s, answer (s.workspace.program p >>= f) id)

/-- Data as a number of variables. A negative number is refused as such, whatever its type. -/
def variableCount : Datum → Except (Fault Float) VariableCount
  | .truth b => .ok (.truth b)
  | .whole k => .ok (.number k)
  | .real x => .error (if x < 0.0 then .negativeCount else .notNumeric)
  | _ => .error .notNumeric

/-- Number a new binding. -/
def number (s : Session) (b : Binding Float) : Session × Answer :=
  ({ s with bindings := s.bindings.push b }, .binding s.bindings.size b.kind b.vars)

/-- Number a new binding of a program. -/
def numberIn (s : Session) (p : Nat) (b : Binding Float) : Session × Answer :=
  { s with bindingNumbers := s.bindingNumbers.modify p fun ks => ks.push s.bindings.size }.number b

/-- Carry out an operation on a program. -/
def perform (s : Session) (p : Nat) (op : ProgramOp Datum Float) : Session × Answer :=
  let (workspace, run) := s.workspace.perform factorizations p op
  let made := ((workspace.programs[p]?.map Program.vars).getD #[]).filter fun v =>
    s.workspace.nextId ≤ v.id
  let s := { s with workspace, vars := s.vars ++ made }.keepEvents run.events
  match run.result with
  | .error e => (s, .fault e)
  | .ok .done => (s, .nothing)
  | .ok (.vars vs) => (s, .vars vs.toList)
  | .ok (.binding b) => s.numberIn p b
  | .ok (.status st) => (s, .status st)

/-- Carry out an operation whose data has to be read first. -/
def performRead (s : Session) (p : Nat) (op : Except (Fault Float) (ProgramOp Datum Float)) :
    Session × Answer :=
  match op with
  | .ok op => s.perform p op
  | .error e => (s, .fault e)

/-- Carry out a run on a program that does not change it. -/
def observe {β : Type} (s : Session) (p : Nat) (run : Program Float → Logged Float β)
    (f : β → Answer) : Session × Answer :=
  match s.workspace.program p with
  | .ok program =>
    let r := run program
    (s.keepEvents r.events, answer r.result f)
  | .error e => (s, .fault e)

/-- The numbers of the bindings of one kind. -/
def numbersOfKind (s : Session) (i : Nat) (p : Program Float) (kind : Kind) : List Nat :=
  ((p.bindings.toList.zip (s.bindingNumbers.getD i #[]).toList).filter fun b =>
    b.1.kind = kind).map Prod.snd

/-- Change the registry of loggers, or answer why not. -/
def updateRegistry (s : Session) (r : Except (Fault Float) Registry) : Session × Answer :=
  match r with
  | .ok registry => ({ s with registry }, .nothing)
  | .error e => (s, .fault e)

/-- The kinds in the order of their labels. -/
def sortKinds (ks : List Kind) : List Kind := ks.mergeSort fun a b => a.label ≤ b.label

mutual

/-- Carry out one step. -/
def step (s : Session) : Step → Session × Answer
  | .newProgram =>
    ({ s with
        workspace := s.workspace.newProgram
        bindingNumbers := s.bindingNumbers.push #[] },
      .whole s.workspace.programs.size)
  | .newVariables p count name =>
    s.performRead p ((variableCount count).map fun k => .newVariables k name)
  | .freeVariable name =>
    let (workspace, v) := s.workspace.freeVariable name
    ({ s with workspace, vars := s.vars.push v }, .variable v)
  | .sameVariable a b =>
    (s, answer (s.lookUp [a, b]) fun vs => .truth (vs[0]? = vs[1]?))
  | .numVars p => s.ask p fun program => .ok (.whole program.numVars)
  | .vars p => s.ask p fun program => .ok (.vars program.vars.toList)
  | .index p v => s.ask p fun program => do
    match ← s.lookUp [v] with
    | v :: _ => .ok (.whole (← program.index v))
    | [] => .error .outOfRange
  | .add p spec vs =>
    s.performRead p ((s.lookUp vs.toList).map fun vars => .add spec vars)
  | .makeBinding spec vs =>
    let made := do
      let e ← Evaluator.read spec
      Binding.make e (← s.lookUp vs.toList)
    match made with
    | .ok b => s.number b
    | .error e => (s, .fault e)
  | .evaluate binding point =>
    let value := do
      match s.bindings[binding]? with
      | some b => b.evaluator.eval (← readVec point)
      | none => .error .outOfRange
    (s, answer value .value)
  | .kinds p => s.ask p fun program => .ok (.kinds (sortKinds program.kinds))
  | .ofKind p label => s.ask p fun program =>
    match Kind.ofLabel? label with
    | some kind => .ok (.numbers (s.numbersOfKind p program kind))
    | none => .error .unknownKind
  | .check p => s.ask p fun program => program.checkSupported.map fun _ => .nothing
  | .assemble p => s.observe p Program.assemble .problem
  | .outcome p => s.observe p (Program.solveOutcome factorizations s.checks) .outcome
  | .solve p => s.perform p (.solve s.checks)
  | .setValues p values => s.perform p (.setValues values)
  | .solution p none => s.ask p fun program =>
    .ok (.value (.vector ⟨_, ⟨(storedValues program).toArray.toVector⟩⟩))
  | .solution p (some (.one v)) => s.ask p fun program => do
    match ← s.lookUp [v] with
    | v :: _ => .ok (.value (.number ((← program.solution v).getD (0.0 / 0.0))))
    | [] => .error .outOfRange
  | .solution p (some (.many vs)) => s.ask p fun program => do
    let xs ← program.solutions (← s.lookUp vs)
    .ok (.value (.vector ⟨_, ⟨(xs.map fun x => x.getD (0.0 / 0.0)).toArray.toVector⟩⟩))
  | .tensor p elementType => s.ask p fun program => tensor program elementType
  | .setCost p cost => s.performRead p (cost.toFloat.map .setOptimalCost)
  | .getCost p => s.ask p fun program => .ok (.number program.optimalCost)
  | .setResult p solver code =>
    s.performRead p (code.toInt.map fun k => .setSolverResult ⟨⟨solver⟩, k⟩)
  | .getResult p => s.ask p fun program => .ok (.result program.solverResult)
  | .setChecks enabled => ({ s with checks := enabled.toTruth }, .nothing)
  | .getChecks => (s, .truth s.checks)
  | .withChecks enabled steps fail =>
    match enabled.readTruth with
    | .error e => (s, .fault e)
    | .ok checks =>
      let (after, answers) := runSteps { s with checks } steps
      ({ after with checks := s.checks }, .block answers fail)
  | .getLogger name =>
    match Registry.readName name with
    | .error e => (s, .fault e)
    | .ok name =>
      let (registry, l) := s.registry.getLogger name
      ({ s with registry, knownLoggers := l.name :: s.knownLoggers },
        .logger l (s.knownLoggers.contains l.name))
  | .setUpLogger name level handlers =>
    s.updateRegistry (s.registry.setUpOutside name level handlers)
  | .log name level message =>
    match Registry.readName name with
    | .error e => (s, .fault e)
    | .ok name =>
      let (registry, _) := s.registry.getLogger name
      match LogLevel.readNumber level with
      | .ok level =>
        let (registry, written) := s.registry.log name level message.message
        ({ s with registry }.keep written, .nothing)
      | .error e => ({ s with registry }, .fault e)
  | .setLogLevel level => s.updateRegistry (s.registry.setLevel level)
  | .configureLogging level format toStream =>
    s.updateRegistry
      (s.registry.configure level format (if toStream then .stream else .standardError))
  | .readStream => ({ s with streamLines := [] }, .lines (nonemptyLines s.streamLines))
  | .readStandardError => ({ s with errorLines := [] }, .lines (nonemptyLines s.errorLines))

/-- Carry out steps one after the other. -/
def runSteps (s : Session) : List Step → Session × List Answer
  | [] => (s, [])
  | st :: rest =>
    let (s, a) := step s st
    let (s, as) := runSteps s rest
    (s, a :: as)

end

/-- The answers to all steps of a session. -/
def run (steps : List Step) : List Answer := (runSteps initial steps).2

end Session

end QuadraticProgram
