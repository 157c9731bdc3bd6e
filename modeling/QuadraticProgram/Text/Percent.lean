import QuadraticProgram.Decimal.Form
import QuadraticProgram.Text.Quoted

/-! # Templates in percent notation

A template is text in which directives stand for values. A directive starts with a percent sign and
names its value between parentheses; flags, a width and a precision may follow, and one character
says how the value is converted. Two percent signs stand for one. A template that asks for something
impossible has no text at all.
-/

namespace QuadraticProgram.Text

/-- A value that a template can show. -/
inductive Showable
  | text (s : String)
  /-- An integer, and how it is shown where no number is asked for. -/
  | integer (k : Int) (shown : String)
  /-- Something that is neither text nor a number. -/
  | other (shown : String)
  /-- Something of which only the start of its text is settled. -/
  | openEnded (start : String)
  deriving Repr

/-- A width or a precision: written out, or to be taken from a value of its own. Named values give
none. -/
inductive Extent
  | written (n : Nat)
  | fromValue
  deriving DecidableEq, Repr

/-- What a template says about showing one value. -/
structure Directive where
  key : Option String
  flags : List Char
  width : Option Extent
  precision : Option Extent
  conversion : Char
  deriving DecidableEq, Repr

/-- The parts of a template. -/
inductive Piece
  | literal (c : Char)
  | directive (d : Directive)
  deriving DecidableEq, Repr

/-- The widths and precisions that a text can have. -/
def maxExtent : Nat := Nat.pow 2 31 - 1

/-- A text of at least a given width, filled up with blanks. -/
def fill (left : Bool) (width : Nat) (s : String) : String :=
  let blanks := String.ofList (List.replicate (width - s.length) ' ')
  if left then s ++ blanks else blanks ++ s

namespace Directive

/-- Characters that change how a value is shown. -/
def isFlag (c : Char) : Bool := "#0+ -".toList.contains c

/-- The rest of a key up to the parenthesis that closes it, and what follows. Parentheses inside the
key are balanced; `depth` of them are open. -/
def takeKey : (depth : Nat) → List Char → Option (List Char × List Char)
  | _, [] => none
  | 0, ')' :: cs => some ([], cs)
  | depth + 1, ')' :: cs => (takeKey depth cs).map fun (key, rest) => (')' :: key, rest)
  | depth, '(' :: cs => (takeKey (depth + 1) cs).map fun (key, rest) => ('(' :: key, rest)
  | depth, c :: cs => (takeKey depth cs).map fun (key, rest) => (c :: key, rest)

/-- A width or a precision, if there is one, and what follows. -/
def takeExtent : List Char → Option Extent × List Char
  | '*' :: cs => (some .fromValue, cs)
  | cs =>
    let ds := cs.takeWhile Char.isDigit
    let written := Extent.written (ds.foldl (fun n c => 10 * n + (c.toNat - 48)) 0)
    (if ds.isEmpty then none else some written, cs.dropWhile Char.isDigit)

/-- A precision after its point, where no digits count as zero, and what follows. -/
def takePrecision : List Char → Option Extent × List Char
  | '.' :: cs =>
    let (extent, rest) := takeExtent cs
    (some (extent.getD (.written 0)), rest)
  | cs => (none, cs)

/-- A letter for the size of a number, which means nothing, is passed over. -/
def dropSize : List Char → List Char
  | c :: cs => if c = 'h' || c = 'l' || c = 'L' then cs else c :: cs
  | [] => []

/-- A directive without its percent sign, and what follows. -/
def parse (cs : List Char) : Option (Directive × List Char) := do
  let (key, cs) ← match cs with
    | '(' :: rest => (takeKey 0 rest).map fun (key, rest) => (some (String.ofList key), rest)
    | _ => some (none, cs)
  let flags := cs.takeWhile isFlag
  let (width, cs) := takeExtent (cs.dropWhile isFlag)
  let (precision, cs) := takePrecision cs
  match dropSize cs with
  | conversion :: rest => some (⟨key, flags, width, precision, conversion⟩, rest)
  | [] => none

/-- How a value is to be shown, once all is known. -/
structure Layout where
  left : Bool
  plus : Bool
  blank : Bool
  full : Bool
  zeros : Bool
  width : Nat
  precision : Option Nat

/-- A number made of its sign, a mark of its base and its digits. Zeros fill up the digits, blanks
the whole. -/
def Layout.number (l : Layout) (negative : Bool) (mark digits : String) : String :=
  let sign := if negative then "-" else if l.plus then "+" else if l.blank then " " else ""
  let missing := l.width - (sign ++ mark ++ digits).length
  if l.zeros && !l.left then
    sign ++ mark ++ String.ofList (List.replicate missing '0') ++ digits
  else fill l.left l.width (sign ++ mark ++ digits)

/-- An integer in a base, with as many digits at least as the precision says. -/
def Layout.integer (l : Layout) (base : Nat) (mark : String) (upper : Bool) (k : Int) : String :=
  let ds := Nat.toDigits base k.natAbs
  let ds := if upper then ds.map Char.toUpper else ds
  l.number (k < 0) (if l.full then mark else "")
    (Decimal.padLeft (l.precision.getD 0) (String.ofList ds))

/-- An integer as a number with fractional digits, if it is in range. -/
def Layout.real (l : Layout) (form : Decimal.Form) (upper : Bool) (k : Int) : Option String :=
  let x := Float.ofInt k
  if x.isFinite then
    let digits := form.text l.full (l.precision.getD 6) x
    some (l.number (k < 0) "" (if upper then digits.map Char.toUpper else digits))
  else none

/-- A text, cut to the precision. -/
def Layout.text (l : Layout) (s : String) : String :=
  fill l.left l.width (match l.precision with
    | some n => String.ofList (s.toList.take n)
    | none => s)

/-- A single character. -/
def Layout.character (l : Layout) : Showable → Option String
  | .text s => if s.length = 1 then some (fill l.left l.width s) else none
  | .integer k _ =>
    if 0 ≤ k ∧ k.toNat.isValidChar then
      some (fill l.left l.width (String.ofList [Char.ofNat k.toNat]))
    else none
  | _ => none

/-- The text of a value, changed by `f`; text is first changed by `quote`. A text that is settled
only at its start has to be cut there. -/
def Layout.described (l : Layout) (quote f : String → String) : Showable → Option String
  | .text s => some (l.text (f (quote s)))
  | .integer _ shown => some (l.text (f shown))
  | .other shown => some (l.text (f shown))
  | .openEnded start =>
    match l.precision with
    | some n => if n ≤ (f start).length then some (l.text (f start)) else none
    | none => none

/-- Convert a value. -/
def convert (l : Layout) (conversion : Char) (v : Showable) : Option String :=
  match conversion, v with
  | 's', v => l.described id id v
  | 'r', v => l.described quoted id v
  | 'a', v => l.described quoted escapeOutsideAscii v
  | 'c', v => l.character v
  | 'd', .integer k _ => some (l.integer 10 "" false k)
  | 'i', .integer k _ => some (l.integer 10 "" false k)
  | 'u', .integer k _ => some (l.integer 10 "" false k)
  | 'o', .integer k _ => some (l.integer 8 "0o" false k)
  | 'x', .integer k _ => some (l.integer 16 "0x" false k)
  | 'X', .integer k _ => some (l.integer 16 "0X" true k)
  | 'f', .integer k _ => l.real .positional false k
  | 'F', .integer k _ => l.real .positional true k
  | 'e', .integer k _ => l.real .exponential false k
  | 'E', .integer k _ => l.real .exponential true k
  | 'g', .integer k _ => l.real .general false k
  | 'G', .integer k _ => l.real .general true k
  | _, _ => none

/-- A width or a precision as a number. -/
def resolve : Option Extent → Option (Option Nat)
  | none => some none
  | some (.written n) => if n ≤ maxExtent then some (some n) else none
  | some .fromValue => none

/-- Write a directive. One without a name shows the value that is left over, if there is one. -/
def write (lookUp : String → Option Showable) (d : Directive) (leftOver : Option Showable) :
    Option String := do
  let v ← match d.key with
    | some key => lookUp key
    | none => leftOver
  let width ← resolve d.width
  let precision ← resolve d.precision
  let layout : Layout :=
    { left := d.flags.contains '-'
      plus := d.flags.contains '+'
      blank := d.flags.contains ' '
      full := d.flags.contains '#'
      zeros := d.flags.contains '0'
      width := width.getD 0
      precision }
  convert layout d.conversion v

end Directive

namespace Piece

/-- The parts of a template. The fuel is the length of the template. -/
def parseFrom : Nat → List Char → Option (List Piece)
  | _, [] => some []
  | 0, _ => none
  | fuel + 1, '%' :: '%' :: cs => (parseFrom fuel cs).map (.literal '%' :: ·)
  | fuel + 1, '%' :: cs => do
    let (d, rest) ← Directive.parse cs
    (parseFrom fuel rest).map (.directive d :: ·)
  | fuel + 1, c :: cs => (parseFrom fuel cs).map (.literal c :: ·)

/-- Write the parts of a template one after the other. Only the first directive can show the value
that is left over. -/
def writeAll (lookUp : String → Option Showable) :
    List Piece → (leftOver : Option Showable) → Option (List String)
  | [], _ => some []
  | .literal c :: rest, leftOver => (writeAll lookUp rest leftOver).map (String.singleton c :: ·)
  | .directive d :: rest, leftOver => do
    let s ← d.write lookUp leftOver
    (writeAll lookUp rest none).map (s :: ·)

end Piece

/-- The text of a template over named values. A directive without a name shows the `whole` that
these values belong to, but only if it is the first. -/
def writeTemplate (template : String) (lookUp : String → Option Showable) (whole : Showable) :
    Option String := do
  let cs := template.toList
  let pieces ← Piece.parseFrom cs.length cs
  (Piece.writeAll lookUp pieces (some whole)).map String.join

end QuadraticProgram.Text
