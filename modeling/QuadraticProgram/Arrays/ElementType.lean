import QuadraticProgram.Fault

/-! # Element types of tensors

A tensor holds its numbers in a named element type. Numbers that come one by one are stored, and
refused if the type cannot hold them; numbers of another tensor or array are converted, which always
gives some number. A complex number is represented by its real part alone.
-/

namespace QuadraticProgram

/-- The element types. -/
inductive ElementType
  | float64
  | float32
  | float16
  | bfloat16
  | complex128
  | complex64
  | complex32
  | bool
  /-- Numbers of eight bits, in a layout with a name of its own. -/
  | quarter (layout : String)
  /-- Integers of some width, in two's complement or without a sign. -/
  | integer (bits : Nat) (signed : Bool)
  deriving DecidableEq, Repr

namespace ElementType

/-- The full name of an element type. -/
def name : ElementType → String
  | float64 => "float64"
  | float32 => "float32"
  | float16 => "float16"
  | bfloat16 => "bfloat16"
  | complex128 => "complex128"
  | complex64 => "complex64"
  | complex32 => "complex32"
  | bool => "bool"
  | quarter layout => "float8_" ++ layout
  | integer bits signed => (if signed then "int" else "uint") ++ toString bits

/-- The element types that are called by their full names. -/
def all : List ElementType :=
  [float64, float32, float16, bfloat16, complex128, complex64, complex32, bool,
   quarter "e4m3fn", quarter "e4m3fnuz", quarter "e5m2", quarter "e5m2fnuz",
   integer 64 true, integer 32 true, integer 16 true, integer 8 true,
   integer 64 false, integer 32 false, integer 16 false, integer 8 false]

/-- The short names of element types. -/
def aliases : List (String × ElementType) :=
  [("double", float64), ("float", float32), ("half", float16), ("cdouble", complex128),
   ("cfloat", complex64), ("chalf", complex32), ("long", integer 64 true), ("int", integer 32 true),
   ("short", integer 16 true)]

/-- The element type with a full or short name. -/
def ofName? (s : String) : Option ElementType :=
  (all.find? fun t => t.name = s).or (aliases.lookup s)

/-- Names that stand for something other than an element type. -/
def otherNames : List String := ["complex", "real", "imag", "tensor", "Tensor", "dtype"]

/-- Whether arrays can be made from tensors of an element type. -/
def isReadable : ElementType → Bool
  | bfloat16 | complex32 | quarter _ => false
  | _ => true

/-- Whether tensors of an element type can take part in differentiation. -/
def isDifferentiable : ElementType → Bool
  | bool | integer .. => false
  | _ => true

/-- The integer part of a finite number. -/
def integerPart (x : Float) : Int :=
  let b := Decimal.Binary.ofFloat x
  let size : Nat := b.numerator / b.denominator
  if Decimal.signBit x then -(size : Int) else size

/-- A number rounded to the precision of an element type that has fractions. The narrow types are
reached through binary32, so a number is rounded twice. -/
def round (t : ElementType) (x : Float) : Float :=
  match t with
  | float32 | complex64 => Decimal.Format.binary32.round x
  | float16 | complex32 => Decimal.Format.binary16.round (Decimal.Format.binary32.round x)
  | bfloat16 => Decimal.Format.brain16.round (Decimal.Format.binary32.round x)
  | _ => x

/-- An integer wrapped around to a width. -/
def wrap (bits : Nat) (signed : Bool) (k : Int) : Int :=
  if signed then Int.bmod k (Nat.pow 2 bits) else k % Int.ofNat (Nat.pow 2 bits)

/-- The least and the largest integer of a width. -/
def bounds (bits : Nat) (signed : Bool) : Int × Int :=
  let size : Int := Nat.pow 2 (if signed then bits - 1 else bits)
  (if signed then -size else 0, size - 1)

/-- The value of a number converted to an element type. Integers drop the fraction and wrap around;
a number beyond the integers of the machine, which has two sizes of them, becomes the least of
them. -/
def convert (t : ElementType) (x : Float) : Float :=
  match t with
  | bool => if x == 0.0 then 0.0 else 1.0
  | integer bits signed =>
    let wide := bits = 64 || !signed && (bits = 32 || bits = 8)
    let (least, largest) := bounds (if wide then 64 else 32) true
    let part := if x.isFinite then integerPart x else least
    Float.ofInt (wrap bits signed (if least ≤ part ∧ part ≤ largest then part else least))
  | t => t.round x

/-- Store an integer in an integer type. A type without a sign takes negative integers down to the
opposite of its largest one, which wrap around. -/
def storeInteger (bits : Nat) (signed : Bool) (k : Int) : Except (Fault Float) Float :=
  let (least, largest) := bounds bits signed
  let least := if signed then least else -largest
  let (leastOfMachine, largestOfMachine) := bounds 64 true
  if leastOfMachine ≤ k ∧ k ≤ largestOfMachine ∧ least ≤ k ∧ k ≤ largest then
    .ok (Float.ofInt (wrap bits signed k))
  else .error .tensorRefused

/-- Store one number in an element type. -/
def store (t : ElementType) (number : Numeral Float) : Except (Fault Float) Float :=
  match t, number with
  | bool, .real x => .ok (if x == 0.0 then 0.0 else 1.0)
  | bool, number => .ok (if number.integer? = some 0 then 0.0 else 1.0)
  | integer bits signed, .real x =>
    let (least, largest) := bounds bits signed
    if x.isFinite && Float.ofInt least ≤ x && x ≤ Float.ofInt largest then .ok (t.convert x)
    else .error .tensorRefused
  | integer bits signed, number => storeInteger bits signed (number.integer?.getD 0)
  | t, number => match number.inRange? with
    | some x => .ok (t.round x)
    | none => .error .integerTooLarge

end ElementType

end QuadraticProgram
