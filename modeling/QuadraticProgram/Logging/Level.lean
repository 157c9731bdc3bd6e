import QuadraticProgram.Arrays.Datum

/-! # Logging levels

A level is a rank that records are compared by. Some ranks have names; a truth value counts as the
rank one or zero but is shown as what it is.
-/

namespace QuadraticProgram

/-- A logging level as it was given. -/
inductive LogLevel
  | number (k : Int)
  | truth (b : Bool)
  deriving DecidableEq, Repr

namespace LogLevel

/-- The rank that records are compared by. -/
def rank : LogLevel → Int
  | number k => k
  | truth b => if b then 1 else 0

/-- The level of new loggers before any is set. -/
def standard : LogLevel := number 30

/-- The names of levels; a rank may have several. -/
def names : List (String × Int) :=
  [("CRITICAL", 50), ("FATAL", 50), ("ERROR", 40), ("WARNING", 30), ("WARN", 30), ("INFO", 20),
   ("DEBUG", 10), ("NOTSET", 0)]

/-- Upper case, as far as the letters in level names go: besides the ASCII letters, the dotless i
and the long s have upper-case forms among them. -/
def upper (c : Char) : Char :=
  if c = 'ı' then 'I' else if c = 'ſ' then 'S' else c.toUpper

/-- The level with a name, in any case. -/
def ofName? (s : String) : Option LogLevel :=
  (names.lookup (s.map upper)).map number

/-- A level as it was given. -/
def text : LogLevel → String
  | number k => toString k
  | truth b => if b then "True" else "False"

/-- How a level is called: by the first name of its rank, if it has one. -/
def label (l : LogLevel) : String :=
  match names.find? fun p => p.2 = l.rank with
  | some p => p.1
  | none => "Level " ++ l.text

/-- Read a level. A text that names none is refused at once; other data that is no level is missing,
and refused where the level would be set. -/
def read : Datum → Except (Fault Float) (Option LogLevel)
  | .text s => match ofName? s with
    | some l => .ok (some l)
    | none => .error (.unknownLevel s)
  | .whole k => .ok (some (number k))
  | .truth b => .ok (some (truth b))
  | _ => .ok none

/-- Read a level that has to be a number. -/
def readNumber : Datum → Except (Fault Float) LogLevel
  | .whole k => .ok (number k)
  | .truth b => .ok (truth b)
  | _ => .error .notALevel

/-- Read a level that is a number or the exact name of one. -/
def readExact : Datum → Except (Fault Float) LogLevel
  | .text s => match names.lookup s with
    | some k => .ok (number k)
    | none => .error .inexactLevel
  | d => readNumber d

/-- Read a level where nothing comes before setting it. -/
def require (d : Datum) : Except (Fault Float) LogLevel := do
  match ← read d with
  | some l => .ok l
  | none => .error .notALevel

end LogLevel

end QuadraticProgram
