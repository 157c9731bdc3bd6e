import QuadraticProgram.Decimal.Layout

/-! # Numbers written to a given precision

A finite number is written positionally, with an exponent, or in whichever of the two suits its
size. The last way drops trailing zeros. A point without digits behind it is dropped too, unless the
full form is asked for.
-/

namespace QuadraticProgram.Decimal

/-- The ways of writing a number to a given precision. -/
inductive Form
  | positional
  | exponential
  | general
  deriving DecidableEq, Repr

namespace Form

/-- Digits with a point between them, which may be left out before no digits. -/
def withPoint (full : Bool) (whole fraction : List Char) : List Char :=
  if fraction.isEmpty && !full then whole else whole ++ '.' :: fraction

/-- The digits of a number, as many as asked for, and the exponent of the first. -/
def leadingDigits (count : Nat) (x : Float) : List Char × Int :=
  let d := significant count x
  let ds := Nat.toDigits 10 d.coefficient
  (ds ++ List.replicate (count - ds.length) '0', d.exponent)

/-- Digits without the zeros at their end. -/
def dropZeros (ds : List Char) : List Char := (ds.reverse.dropWhile (· = '0')).reverse

/-- The magnitude with `places` digits after the point. -/
def positionalText (full : Bool) (places : Nat) (x : Float) : List Char :=
  let ds := Nat.toDigits 10 (coefficientAt (Binary.ofFloat x) (-places))
  let padded := List.replicate (places + 1 - ds.length) '0' ++ ds
  let whole := padded.length - places
  withPoint full (padded.take whole) (padded.drop whole)

/-- Digits with a point after the first and an exponent. -/
def exponentialText (full : Bool) (ds : List Char) (e : Int) : List Char :=
  withPoint full (ds.take 1) (ds.drop 1) ++ (exponentText 2 e).toList

/-- The magnitude with `count` significant digits. It is written positionally if the exponent is at
least `-4` and less than the number of digits. -/
def generalText (full : Bool) (count : Nat) (x : Float) : List Char :=
  let (ds, e) := leadingDigits count x
  let shorten := fun (fraction : List Char) => if full then fraction else dropZeros fraction
  if -4 ≤ e ∧ e < count then
    if e < 0 then
      withPoint full ['0'] (shorten (List.replicate (-e - 1).toNat '0' ++ ds))
    else
      let whole := (e + 1).toNat
      withPoint full (ds.take whole) (shorten (ds.drop whole))
  else exponentialText full (ds.take 1 ++ shorten (ds.drop 1)) e

/-- The magnitude of a finite number. The precision counts the digits after the point, and all
significant digits in the general form, of which there is at least one. -/
def text (form : Form) (full : Bool) (precision : Nat) (x : Float) : String :=
  String.ofList <| match form with
    | positional => positionalText full precision x
    | exponential =>
      let (ds, e) := leadingDigits (precision + 1) x
      exponentialText full ds e
    | general => generalText full (max precision 1) x

end Form

end QuadraticProgram.Decimal
