import QuadraticProgram.Decimal.Basic
import QuadraticProgram.Text.Digit

/-! # Reading numbers from text

A number is an optional sign followed by `nan`, `inf` or `infinity` in any case, or by digits with
an optional point and an optional exponent. Single underscores may stand between digits. The value
is the nearest binary64 number, an infinity beyond the range.
-/

namespace QuadraticProgram.Decimal

/-- A number as written: the digits before and after the point, and the exponent. -/
structure Written where
  negative : Bool
  whole : List Char
  fraction : List Char
  exponent : Int

/-- Take digits, with single underscores between them, off the front of a text. An underscore that
is not followed by a digit is left standing. -/
def takeDigits : List Char → List Char × List Char
  | '_' :: c :: rest =>
    if c.isDigit then
      let (ds, r) := takeDigits rest
      (c :: ds, r)
    else ([], '_' :: c :: rest)
  | c :: rest =>
    if c.isDigit then
      let (ds, r) := takeDigits rest
      (c :: ds, r)
    else ([], c :: rest)
  | [] => ([], [])

/-- Digits that start with a digit. -/
def digitRun (cs : List Char) : List Char × List Char :=
  match cs with
  | '_' :: _ => ([], cs)
  | _ => takeDigits cs

def takeSign : List Char → Bool × List Char
  | '-' :: rest => (true, rest)
  | '+' :: rest => (false, rest)
  | cs => (false, cs)

/-- The natural number of a list of ASCII digits. -/
def natOfDigits (ds : List Char) : Nat := ds.foldl (fun n c => 10 * n + (c.toNat - 48)) 0

/-- An exponent that fills the rest of a text; an empty text is exponent zero. -/
def takeExponent? : List Char → Option Int
  | [] => some 0
  | c :: rest =>
    if c = 'e' || c = 'E' then
      let (negative, cs) := takeSign rest
      match digitRun cs with
      | ([], _) => none
      | (ds, []) => some (if negative then -(natOfDigits ds : Int) else natOfDigits ds)
      | _ => none
    else none

/-- Split a number into its digits and exponent. -/
def Written.ofChars? (cs : List Char) : Option Written :=
  let (negative, cs) := takeSign cs
  let (whole, rest) := digitRun cs
  let (fraction, rest) := match rest with
    | '.' :: r => digitRun r
    | r => ([], r)
  if whole.isEmpty && fraction.isEmpty then none
  else (takeExponent? rest).map fun e => ⟨negative, whole, fraction, e⟩

/-- The nearest binary64 number. Decimal exponents far outside the range are decided without forming
the power of ten. -/
def Written.toFloat (w : Written) : Float :=
  let digits := natOfDigits (w.whole ++ w.fraction)
  let place := w.exponent - w.fraction.length
  let leading := place + digitCount digits
  let size :=
    if digits = 0 || leading < -400 then 0.0
    else if leading > 400 then 1.0 / 0.0
    else if place < 0 then Float.ofScientific digits true (-place).toNat
    else Float.ofScientific digits false place.toNat
  if w.negative then -size else size

/-- The values that are written as words. -/
def word? (cs : List Char) : Option Float :=
  let (negative, cs) := takeSign cs
  let word := String.ofList (cs.map Char.toLower)
  let size? := if word = "nan" then some (0.0 / 0.0)
    else if word = "inf" || word = "infinity" then some (1.0 / 0.0 : Float)
    else none
  size?.map fun size => if negative then -size else size

/-- Read a binary64 number. -/
def readFloat? (s : String) : Option Float :=
  let cs := Text.plainNumber s
  (word? cs).orElse fun _ => (Written.ofChars? cs).map Written.toFloat

/-- The digits of an integer and whether it is negative, if a text is an optional sign and digits
with single underscores between them. -/
def integerDigits? (s : String) : Option (Bool × List Char) :=
  let (negative, cs) := takeSign (Text.plainNumber s)
  match digitRun cs with
  | ([], _) => none
  | (ds, []) => some (negative, ds)
  | _ => none

/-- How many digits an integer may be written with, leading zeros included. -/
def maxIntegerDigits : Nat := 4300

/-- Read an integer. -/
def readInt? (s : String) : Option Int :=
  (integerDigits? s).bind fun (negative, ds) =>
    if ds.length ≤ maxIntegerDigits then
      some (if negative then -(natOfDigits ds : Int) else natOfDigits ds)
    else none

end QuadraticProgram.Decimal
