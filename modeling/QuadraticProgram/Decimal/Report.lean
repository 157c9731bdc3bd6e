import QuadraticProgram.Decimal.Layout
import QuadraticProgram.Scalar

/-! # Numbers in reports

Data that was only copied or added is reported with fifteen significant digits. Computed data is
reported to a common decimal place per array, eight digits below the leading digit of its largest
entry but never beyond the twelfth place, so that noise below working precision does not show. Zeros
are reported without a sign.
-/

namespace QuadraticProgram.Decimal

/-- A decimal as a report writes it. -/
def reportText (d : Decimal) : String :=
  text .plain (if d.coefficient = 0 then { d with negative := false } else d)

/-- A finite number with fifteen significant digits. -/
def exactText (x : Float) : String := reportText (significant 15 x)

/-- The common decimal place of an array of computed values. -/
def commonPlace (xs : Array Float) : Int :=
  let largest := xs.foldl
    (fun acc x => if x.isFinite then Scalar.larger acc x.abs else acc) 0.0
  max ((significant 9 largest).exponent - 7) (-12)

/-- A finite number rounded to a decimal place. -/
def approxText (place : Int) (x : Float) : String := reportText (atPlace x place)

end QuadraticProgram.Decimal
