import QuadraticProgram.Logging.Level
import QuadraticProgram.Text.Percent
import QuadraticProgram.Text.Word

/-! # Record formats

A record format is a template in percent notation over the fields of a log record, such as the name
of the logger or the message. It has to show some field, which is judged more generously than the
template is read when a record is written: a format may pass and still show nothing.
-/

namespace QuadraticProgram

/-- What is logged. -/
structure LogRecord where
  logger : String
  level : LogLevel
  message : String
  /-- The message before its arguments were put in. -/
  template : String
  /-- The arguments as they are shown. -/
  arguments : String

namespace RecordFormat

/-- The level, the logger and the message. -/
def standard : String := "[%(levelname)s] %(name)s: %(message)s"

/-- A decimal digit of any script. -/
def isDigit (c : Char) : Bool := (Text.digitValue? c).isSome

/-- Characters that may end a field. Case does not matter; the dotless i, the dotted capital I and
the long s count as cases of ASCII letters. -/
def isConversion (c : Char) : Bool :=
  "diouxefgcrsa%ıİſ".toList.contains c || "diouxefgcrsa".toList.contains c.toLower

/-- A width or a precision: digits, or a star. -/
def dropExtent : List Char → List Char
  | '*' :: cs => cs
  | cs => cs.dropWhile isDigit

/-- Whether a text goes on with a complete named field, the percent sign apart. -/
def startsField : List Char → Bool
  | '(' :: cs =>
    match cs.takeWhile Text.isWord, cs.dropWhile Text.isWord with
    | _ :: _, ')' :: cs =>
      let cs := dropExtent (cs.dropWhile Text.Directive.isFlag)
      let cs := match cs with
        | '.' :: c :: rest => if c = '*' || isDigit c then dropExtent (c :: rest) else cs
        | _ => cs
      match cs with
      | c :: _ => isConversion c
      | [] => false
    | _, _ => false
  | _ => false

/-- Whether a format shows some field of a record. -/
def showsField : List Char → Bool
  | '%' :: cs => startsField cs || showsField cs
  | _ :: cs => showsField cs
  | [] => false

/-- A level as a number, and as it was given. -/
def levelNumber (l : LogLevel) : Text.Showable := .integer l.rank l.text

/-- The fields of a record. -/
def field (r : LogRecord) (key : String) : Option Text.Showable :=
  match key with
  | "name" => some (.text r.logger)
  | "levelname" => some (.text r.level.label)
  | "levelno" => some (levelNumber r.level)
  | "message" => some (.text r.message)
  | "msg" => some (.text r.template)
  | "args" => some (.other r.arguments)
  | "exc_info" => some (.other "None")
  | "exc_text" => some (.other "None")
  | "stack_info" => some (.other "None")
  | "threadName" => some (.text "MainThread")
  | "processName" => some (.text "MainProcess")
  | _ => none

/-- The start of a record shown as a whole, up to the first field that depends on where the program
runs. -/
def wholeStart (r : LogRecord) : String :=
  "\x7b'name': " ++ Text.quoted r.logger ++ ", 'msg': " ++ Text.quoted r.template ++ ", 'args': "
    ++ r.arguments ++ ", 'levelname': " ++ Text.quoted r.level.label ++ ", 'levelno': "
    ++ r.level.text ++ ", 'pathname': '"

/-- The record written in a format, if every field of the format can be written. -/
def write (format : String) (r : LogRecord) : Option String :=
  Text.writeTemplate format (field r) (.openEnded (wholeStart r))

end RecordFormat

end QuadraticProgram
