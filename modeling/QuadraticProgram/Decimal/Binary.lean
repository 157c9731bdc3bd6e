import QuadraticProgram.Decimal.Rounding

/-! # Binary floating-point numbers as exact integers

A finite binary64 number is an integer times a power of two. Narrower formats are reached from it by
rounding to the nearest of their numbers.
-/

namespace QuadraticProgram.Decimal

/-- The magnitude `mantissa * 2 ^ exponent`. -/
structure Binary where
  mantissa : Nat
  exponent : Int
  deriving DecidableEq, Repr

namespace Binary

/-- The magnitude of a finite number, with the largest mantissa the format allows. -/
def ofFloat (x : Float) : Binary :=
  let bits := x.toBits.toNat
  let field : Nat := bits / Nat.pow 2 52 % Nat.pow 2 11
  let fraction : Nat := bits % Nat.pow 2 52
  if field = 0 then ⟨fraction, -1074⟩ else ⟨fraction + Nat.pow 2 52, Int.ofNat field - 1075⟩

def toFloat (b : Binary) : Float := Float.scaleB (Float.ofNat b.mantissa) b.exponent

/-- A magnitude as a fraction. -/
def numerator (b : Binary) : Nat := b.mantissa * Nat.pow 2 b.exponent.toNat

def denominator (b : Binary) : Nat := Nat.pow 2 (-b.exponent).toNat

end Binary

/-- Whether the sign bit is set, for zeros and infinities too. -/
def signBit (x : Float) : Bool := x.toBits.toNat / Nat.pow 2 63 = 1

/-- Whether a binary64 number is at most an integer; a value that is no number is not. -/
def leInt (x : Float) (k : Int) : Bool :=
  if x.isFinite then
    let b := Binary.ofFloat x
    let size : Int := b.numerator
    decide ((if signBit x then -size else size) ≤ k * b.denominator)
  else x < 0.0

/-- A binary format: the digits of a mantissa, the exponent of the smallest positive number and the
exponent of the first power of two that is out of range. -/
structure Format where
  precision : Nat
  leastExponent : Int
  overflowExponent : Int

namespace Format

def binary32 : Format := ⟨24, -149, 128⟩

def binary16 : Format := ⟨11, -24, 16⟩

/-- The range of `binary32` with eight digits of precision. -/
def brain16 : Format := ⟨8, -133, 128⟩

/-- The nearest number of the format, or an infinity if rounding leaves its range. -/
def round (f : Format) (x : Float) : Float :=
  if !x.isFinite then x else
    let b := Binary.ofFloat x
    let digits := if b.mantissa = 0 then 0 else Nat.log2 b.mantissa + 1
    let exponent := max f.leastExponent (b.exponent + digits - f.precision)
    let rounded : Binary :=
      if exponent ≤ b.exponent then b
      else ⟨roundDiv b.mantissa (Nat.pow 2 (exponent - b.exponent).toNat), exponent⟩
    let inRange := rounded.mantissa = 0 ||
      decide ((Nat.log2 rounded.mantissa : Int) + rounded.exponent < f.overflowExponent)
    let size := if inRange then rounded.toFloat else 1.0 / 0.0
    if signBit x then -size else size

end Format

end QuadraticProgram.Decimal
