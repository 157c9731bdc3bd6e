import QuadraticProgram.Decimal.Basic

/-! # The text of numbers

Three texts of a number are in use: the shortest one that reads back, a fixed number of digits in
exponent form, and rounded report values. They share one layout of the digits.
-/

namespace QuadraticProgram.Decimal

/-- Which exponents are written positionally, and how many digits an exponent has at least. -/
structure Layout where
  leastPositional : Int
  firstExponential : Int
  exponentDigits : Nat

/-- Exponents from `-4` to `15` are written positionally, with at least one digit on either side of
the point; others with a signed exponent of two digits or more. -/
def Layout.plain : Layout := ⟨-4, 16, 2⟩

/-- The decimal digits of a natural number. -/
def digitText (n : Nat) : String := String.ofList (Nat.toDigits 10 n)

/-- A text made at least `width` long by zeros on its left. -/
def padLeft (width : Nat) (s : String) : String :=
  String.ofList (List.replicate (width - s.length) '0') ++ s

/-- A signed exponent with a minimal number of digits. -/
def exponentText (digits : Nat) (e : Int) : String :=
  "e" ++ (if e < 0 then "-" else "+") ++ padLeft digits (digitText e.natAbs)

/-- The first digit, and the others after a point if there are any. -/
def pointAfterFirst (ds : List Char) : String :=
  match ds with
  | [] => ""
  | [d] => String.ofList [d]
  | d :: rest => String.ofList (d :: '.' :: rest)

/-- Lay out the digits of a decimal without its trailing zeros. -/
def text (layout : Layout) (d : Decimal) : String :=
  let d := d.normalize
  let sign := if d.negative then "-" else ""
  let ds := Nat.toDigits 10 d.coefficient
  let e := d.exponent
  if layout.leastPositional ≤ e && e < layout.firstExponential then
    if e < 0 then
      sign ++ "0." ++ String.ofList (List.replicate (-e - 1).toNat '0' ++ ds)
    else
      let whole := (e + 1).toNat
      let padded := ds ++ List.replicate (whole - ds.length) '0'
      let fraction := padded.drop whole
      sign ++ String.ofList (padded.take whole) ++ "." ++
        (if fraction.isEmpty then "0" else String.ofList fraction)
  else
    sign ++ pointAfterFirst ds ++ exponentText layout.exponentDigits e

/-- The texts of the values that have no digits. -/
def special? (x : Float) : Option String :=
  if x.isNaN then some "nan"
  else if x.isFinite then none
  else some (if x < 0 then "-inf" else "inf")

/-- The shortest text that reads back as the same number. -/
def shortestText (x : Float) : String :=
  (special? x).getD ((shortest x).text .plain)

/-- Exponent form with `places` digits after the point. -/
def exponentForm (places : Nat) (x : Float) : String :=
  (special? x).getD <|
    let d := significant (places + 1) x
    let ds := Nat.toDigits 10 d.coefficient
    let padded := ds ++ List.replicate (places + 1 - ds.length) '0'
    (if d.negative then "-" else "") ++ pointAfterFirst padded ++ exponentText 2 d.exponent

end QuadraticProgram.Decimal
