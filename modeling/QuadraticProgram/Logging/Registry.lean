import QuadraticProgram.Logging.Format
import QuadraticProgram.Solver.Event

/-! # The registry of loggers

Loggers are told apart by their full names, which all start with the name of the package. A logger
is set up when it is first asked for: with the level in force, one handler of that level and no
propagation. Loggers that were given handlers from outside before are left as they are. Levels and
handlers of all loggers asked for so far are changed together.
-/

namespace QuadraticProgram

/-- Where a handler writes. -/
inductive Target
  | standardError
  | stream
  | nowhere
  deriving DecidableEq, Repr

/-- A handler writes the records of its level and above in a format. -/
structure Handler where
  level : LogLevel
  target : Target
  format : String
  deriving DecidableEq, Repr

/-- A named logger. Records that it lets through also go to the handlers of its parents, as far as
loggers propagate. -/
structure Logger where
  name : String
  level : LogLevel
  handlers : List Handler
  propagate : Bool
  deriving DecidableEq, Repr

/-- All loggers by name, the names of those that were asked for, in order, and the level that new
ones get. -/
structure Registry where
  loggers : List Logger
  cached : List String
  defaultLevel : LogLevel
  deriving Repr

/-- A line written by a handler. -/
structure LogLine where
  target : Target
  text : String
  deriving DecidableEq, Repr

namespace Registry

/-- The name under which a logger is kept: the package's name stands in front, unless it already
does. -/
def fullName (name : Option String) : String :=
  match name with
  | none => "eqqp"
  | some n => if n = "eqqp" || "eqqp.".toList.isPrefixOf n.toList then n else "eqqp." ++ n

/-- Read the name by which a logger is asked for, if there is one. -/
def readName : Datum → Except (Fault Float) (Option String)
  | .null => .ok none
  | .text s => .ok (some s)
  | _ => .error .notAName

/-- The name of the logger above all others. It is asked for by this name or by none. -/
def rootName : String := "root"

/-- Read the full name of a logger. -/
def readFullName : Datum → Except (Fault Float) String
  | .text s => .ok (if s.isEmpty then rootName else s)
  | d => if d.toTruth then .error .notNumeric else .ok rootName

/-- The logger with a full name. -/
def find? (r : Registry) (name : String) : Option Logger := r.loggers.find? fun l => l.name = name

/-- Put a logger in the place of the one of its name, or behind all others. -/
def put (r : Registry) (l : Logger) : Registry :=
  if r.loggers.any fun l' => l'.name = l.name then
    { r with loggers := r.loggers.map fun l' => if l'.name = l.name then l else l' }
  else { r with loggers := r.loggers ++ [l] }

/-- A logger as it is first set up. -/
def setUp (level : LogLevel) (name : String) : Logger :=
  ⟨name, level, [⟨level, .standardError, RecordFormat.standard⟩], false⟩

/-- Ask for a logger by full name. -/
def request (r : Registry) (name : String) : Registry × Logger :=
  let fresh := setUp r.defaultLevel name
  match r.find? name with
  | some l =>
    if r.cached.contains name then (r, l)
    else
      let l := if l.handlers.isEmpty then fresh else l
      let r := r.put l
      ({ r with cached := r.cached ++ [name] }, l)
  | none =>
    let r := r.put fresh
    ({ r with cached := r.cached ++ [name] }, fresh)

/-- Ask for a logger. -/
def getLogger (r : Registry) (name : Option String) : Registry × Logger := r.request (fullName name)

/-- The registry at the start: the loggers of assembly and of the solver have been asked for. -/
def initial : Registry :=
  let r : Registry := ⟨[], [], LogLevel.standard⟩
  ((r.request "eqqp.convex.assemble").1.request "eqqp.convex.equality_qp").1

/-- Change every logger that was asked for. -/
def mapCached (r : Registry) (f : Logger → Logger) : Registry :=
  { r with loggers := r.loggers.map fun l => if r.cached.contains l.name then f l else l }

/-- Set the level of all loggers asked for and of all their handlers. -/
def setLevel (r : Registry) (level : Datum) : Except (Fault Float) Registry := do
  let level ← LogLevel.require level
  let set := fun (l : Logger) =>
    { l with level, handlers := l.handlers.map fun h => { h with level } }
  .ok { r.mapCached set with defaultLevel := level }

/-- The format that a configuration asks for: the standard one if none or an empty one is given. -/
def chooseFormat (format : Datum) : Except (Fault Float) String :=
  match format with
  | .text s =>
    if s.isEmpty then .ok RecordFormat.standard
    else if RecordFormat.showsField s.toList then .ok s
    else .error .badFormat
  | d => if d.toTruth then .error .notNumeric else .ok RecordFormat.standard

/-- Set the level of all loggers asked for, and give each one new handler in place of all it has. -/
def configure (r : Registry) (level format : Datum) (target : Target) :
    Except (Fault Float) Registry := do
  let level? ← LogLevel.read level
  let format ← chooseFormat format
  match level? with
  | none => .error .notALevel
  | some level =>
    let set := fun (l : Logger) => { l with level, handlers := [⟨level, target, format⟩] }
    .ok { r.mapCached set with defaultLevel := level }

/-- Set up a logger from outside: its level, and handlers that write nowhere. A logger of a new name
propagates. The level has to be called by its exact name. -/
def setUpOutside (r : Registry) (name level : Datum) (handlers : Nat) :
    Except (Fault Float) Registry := do
  let name ← readFullName name
  let level ← LogLevel.readExact level
  let l := (r.find? name).getD ⟨name, level, [], true⟩
  let idle : Handler := ⟨.number 0, .nowhere, RecordFormat.standard⟩
  .ok (r.put { l with level, handlers := l.handlers ++ List.replicate handlers idle })

/-- The loggers above a name, the nearest first. Their names are what stands before a dot, from the
last dot on; right before a dot that leads to no logger, another dot does not count. -/
def parents (r : Registry) (name : String) : List Logger :=
  above name.toList.reverse
where
  /-- The loggers above a name spelled backwards. -/
  above : List Char → List Logger
    | '.' :: c :: rest =>
      match r.find? (String.ofList (c :: rest).reverse) with
      | some l => l :: above (c :: rest)
      | none => above rest
    | _ :: rest => above rest
    | [] => []

/-- The rank of the logger above all others, which is that of new loggers until it is set. -/
def rootRank (r : Registry) : Int :=
  match r.find? rootName with
  | some l => l.level.rank
  | none => LogLevel.standard.rank

/-- The rank from which on a logger lets records through: its own, or that of the nearest logger
above it that has one. -/
def effectiveRank (r : Registry) (l : Logger) : Int :=
  match (l :: r.parents l.name).find? fun l => l.level.rank ≠ 0 with
  | some l => l.level.rank
  | none => r.rootRank

/-- The handlers that see the records of a logger. -/
def reach (l : Logger) (parents : List Logger) : List Handler :=
  match parents with
  | [] => l.handlers
  | p :: rest => if l.propagate then l.handlers ++ reach p rest else l.handlers

/-- What is written when a logger is given a record. Ranks that are not positive are never
written. -/
def emit (r : Registry) (l : Logger) (record : LogRecord) : List LogLine :=
  if 0 < record.level.rank ∧ r.effectiveRank l ≤ record.level.rank then
    (reach l (r.parents l.name)).filterMap fun h =>
      if h.level.rank ≤ record.level.rank then
        (RecordFormat.write h.format record).map fun text => ⟨h.target, text⟩
      else none
  else []

/-- Ask for a logger and give it a message. -/
def log (r : Registry) (name : Option String) (level : LogLevel) (message : String) :
    Registry × List LogLine :=
  let (r, l) := r.getLogger name
  (r, r.emit l ⟨l.name, level, message, message, "()"⟩)

/-- What is written for the events of a run. -/
def writeEvents (r : Registry) (events : List (Event Float)) : List LogLine :=
  events.flatMap fun e =>
    match r.find? e.source with
    | some l => r.emit l ⟨l.name, .number e.severity.rank, e.text, e.template, e.arguments⟩
    | none => []

end Registry

end QuadraticProgram
