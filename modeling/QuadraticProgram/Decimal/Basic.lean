import QuadraticProgram.Decimal.Binary

/-! # Decimal numbers read off binary ones

A decimal is an integer coefficient at a decimal place. Rounding is on the exact binary value, so
the digits chosen do not depend on how a number was computed.
-/

namespace QuadraticProgram

/-- The number `± coefficient * 10 ^ place`. -/
structure Decimal where
  negative : Bool
  coefficient : Nat
  place : Int
  deriving DecidableEq, Repr

namespace Decimal

/-- How many decimal digits a positive integer has; one for zero. -/
def digitCount (n : Nat) : Nat := (Nat.toDigits 10 n).length

/-- The exponent of the leading decimal digit of a positive magnitude. Four hundred places past the
point hold the leading digit of every binary64 number. -/
def leadingExponent (b : Binary) : Int :=
  (digitCount (b.numerator * Nat.pow 10 400 / b.denominator) : Int) - 401

/-- The coefficient of the multiple of `10 ^ place` that is nearest to a magnitude. -/
def coefficientAt (b : Binary) (place : Int) : Nat :=
  roundDiv (b.numerator * Nat.pow 10 (-place).toNat) (b.denominator * Nat.pow 10 place.toNat)

/-- The multiple of `10 ^ place` nearest to a finite number. -/
def atPlace (x : Float) (place : Int) : Decimal :=
  ⟨signBit x, coefficientAt (Binary.ofFloat x) place, place⟩

/-- The nearest decimal of `digits` significant digits to a finite number. -/
def significant (digits : Nat) (x : Float) : Decimal :=
  let b := Binary.ofFloat x
  if b.mantissa = 0 then ⟨signBit x, 0, 0⟩ else
    let place := leadingExponent b + 1 - digits
    let c := coefficientAt b place
    if digits < digitCount c then ⟨signBit x, c / 10, place + 1⟩ else ⟨signBit x, c, place⟩

/-- The exponent of the leading digit of a decimal, zero for zero. -/
def exponent (d : Decimal) : Int :=
  if d.coefficient = 0 then 0 else d.place + digitCount d.coefficient - 1

/-- Whether a positive decimal lies among the reals that round to a given positive binary magnitude.
Those reals end half-way to the two neighbours, and the ends belong to them if the mantissa is even;
below a power of two the neighbour is twice as near. -/
def readsBackTo (coefficient : Nat) (place : Int) (b : Binary) : Bool :=
  let quarter : Binary := ⟨1, b.exponent - 2⟩
  let below := if b.mantissa = Nat.pow 2 52 && b.exponent > -1074 then 1 else 2
  let value := coefficient * Nat.pow 10 place.toNat * quarter.denominator
  let unit := Nat.pow 10 (-place).toNat * quarter.numerator
  let low := (4 * b.mantissa - below) * unit
  let high := (4 * b.mantissa + 2) * unit
  if b.mantissa % 2 = 0 then low ≤ value && value ≤ high else low < value && value < high

/-- The decimal with the fewest digits that reads back as a magnitude, found among the two
neighbours of the magnitude on each grid; of two that read back the nearer is taken. -/
def shortestFrom (b : Binary) (leading : Int) (digits fuel : Nat) : Nat × Int :=
  let place := leading + 1 - digits
  match fuel with
  | 0 => (coefficientAt b place, place)
  | fuel + 1 =>
    let nearest := coefficientAt b place
    let floor :=
      b.numerator * Nat.pow 10 (-place).toNat / (b.denominator * Nat.pow 10 place.toNat)
    let other := if nearest = floor then floor + 1 else floor
    if readsBackTo nearest place b then (nearest, place)
    else if readsBackTo other place b then (other, place)
    else shortestFrom b leading (digits + 1) fuel

/-- The decimal with the fewest digits that reads back as the same finite number. -/
def shortest (x : Float) : Decimal :=
  let b := Binary.ofFloat x
  if b.mantissa = 0 then ⟨signBit x, 0, 0⟩ else
    let (c, place) := shortestFrom b (leadingExponent b) 1 16
    ⟨signBit x, c, place⟩

/-- The same number without trailing zeros in the coefficient; the fuel is the number of digits. -/
def stripZeros : Nat → Decimal → Decimal
  | 0, d => d
  | fuel + 1, d =>
    if d.coefficient ≠ 0 && d.coefficient % 10 = 0 then
      stripZeros fuel ⟨d.negative, d.coefficient / 10, d.place + 1⟩
    else d

/-- The number with the shortest coefficient. -/
def normalize (d : Decimal) : Decimal :=
  if d.coefficient = 0 then ⟨d.negative, 0, 0⟩ else stripZeros (digitCount d.coefficient) d

end Decimal

end QuadraticProgram
