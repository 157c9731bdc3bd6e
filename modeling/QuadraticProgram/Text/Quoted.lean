import QuadraticProgram.Text.Visible

/-! # Quoted names

A name is quoted with single quotes, unless it holds a single quote and no double quote. The quote
in use and the backslash are escaped, and so is every character that prints nothing visible.
-/

namespace QuadraticProgram.Text

/-- The lower-case hexadecimal digits of a number, at least `width` of them. -/
def hexText (width n : Nat) : List Char :=
  let ds := Nat.toDigits 16 n
  List.replicate (width - ds.length) '0' ++ ds

/-- A character given by its number in hexadecimal digits. -/
def numberedChar (c : Char) : List Char :=
  if c.toNat < 0x100 then '\\' :: 'x' :: hexText 2 c.toNat
  else if c.toNat < 0x10000 then '\\' :: 'u' :: hexText 4 c.toNat
  else '\\' :: 'U' :: hexText 8 c.toNat

/-- One character as it stands inside the given quotes. -/
def escapeChar (quote c : Char) : List Char :=
  if c = quote || c = '\\' then ['\\', c]
  else if c = '\n' then ['\\', 'n']
  else if c = '\t' then ['\\', 't']
  else if c = '\r' then ['\\', 'r']
  else if isVisible c then [c]
  else numberedChar c

/-- The quote that a name is written with. -/
def quoteFor (cs : List Char) : Char :=
  if cs.contains '\'' && !cs.contains '"' then '"' else '\''

/-- A name between quotes. -/
def quoted (name : String) : String :=
  let cs := name.toList
  let quote := quoteFor cs
  String.ofList (quote :: cs.flatMap (escapeChar quote) ++ [quote])

/-- A text in which all characters outside ASCII are given by their numbers. -/
def escapeOutsideAscii (s : String) : String :=
  String.ofList (s.toList.flatMap fun c => if c.toNat < 0x80 then [c] else numberedChar c)

end QuadraticProgram.Text
