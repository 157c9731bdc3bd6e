import QuadraticProgram.Arrays.ElementType
import QuadraticProgram.Arrays.Source
import QuadraticProgram.Decimal.Reader

/-! # Loose data read as numbers

Data arrives as nested lists, numbers, texts that spell numbers, arrays given by shape, and tensors
of a named element type. Reading first settles the shape, which fails on uneven lists, and then the
numbers one by one. A tensor takes its extents from its first items, and its numbers have to be
numbers.
-/

namespace QuadraticProgram

/-- Data before it is read. -/
inductive Datum
  | null
  | truth (b : Bool)
  | whole (k : Int)
  | real (x : Float)
  | text (s : String)
  | list (items : List Datum)
  /-- Something with named parts, and how many. -/
  | record (size : Nat)
  /-- An array given by the extents of its axes and its entries in row-major order. -/
  | shaped (extents : List Datum) (entries : Datum)
  /-- A tensor whose entries are held in a named element type, and whether it takes part in
  differentiation. -/
  | tensor (elementType : String) (tracked : Bool) (content : Datum)
  deriving Inhabited

namespace Datum

/-- A whole number as a binary64 number, if it is in range. -/
def ofWhole (k : Int) : Except (Fault Float) Float :=
  let x := Float.ofInt k
  if x.isFinite then .ok x else .error .integerTooLarge

/-- The number that an entry of an array stands for; null is no number. -/
def entryValue : Datum → Except (Fault Float) Float
  | null => .ok (0.0 / 0.0)
  | truth b => .ok (if b then 1.0 else 0.0)
  | whole k => ofWhole k
  | real x => .ok x
  | text s => match Decimal.readFloat? s with
    | some x => .ok x
    | none => .error (.unreadable s)
  | _ => .error .notNumeric

/-- The shape of an array, unless it has more axes than an array can have. -/
def limited (shape : Shape) : Except (Fault Float) Shape :=
  if shape.length ≤ 64 then .ok shape else .error .ragged

/-- The texts that stand for numbers also where texts are not read. -/
def specialNumber? (s : String) : Option Float :=
  match s with
  | "nan" => some (0.0 / 0.0)
  | "inf" => some (1.0 / 0.0)
  | "-inf" => some (-1.0 / 0.0)
  | _ => none

/-- The extent of an axis as it is given. -/
def extent : Datum → Except (Fault Float) Int
  | whole k => .ok k
  | truth b => .ok b.toNat
  | _ => .error .notNumeric

/-- The extents that the content of a tensor should have: those met on the way down its first
items. -/
def leadingShape : Datum → Except (Fault Float) Shape
  | list [] => .ok [0]
  | list (d :: rest) => (leadingShape d).map ((rest.length + 1) :: ·)
  | text s => match specialNumber? s with
    | some _ => .ok []
    | none => if s.isEmpty then .ok [0] else .error .ragged
  | _ => .ok []

/-- The numbers of a tensor whose content has the given extents. -/
def stored (t : ElementType) : Shape → Datum → Except (Fault Float) (List Float)
  | [], truth b => (t.store (.truth b)).map fun x => [x]
  | [], whole k => (t.store (.whole k)).map fun x => [x]
  | [], real x => (t.store (.real x)).map fun x => [x]
  | [], text s => match specialNumber? s with
    | some x => (t.store (.real x)).map fun x => [x]
    | none => .error .notNumeric
  | [], _ => .error .notNumeric
  | n :: s, list items =>
    if items.length = n then storedItems s items else .error .ragged
  | n :: _, text s => match specialNumber? s with
    | some _ => .error .notNumeric
    | none => .error (if s.length = n then .notNumeric else .ragged)
  | _, _ => .error .notNumeric
where
  /-- The numbers of all items. -/
  storedItems (s : Shape) : List Datum → Except (Fault Float) (List Float)
    | [] => .ok []
    | d :: rest => do
      let xs ← stored t s d
      let ys ← storedItems s rest
      .ok (xs ++ ys)

/-- The element type of a name. -/
def elementType (name : String) : Except (Fault Float) ElementType :=
  match ElementType.ofName? name with
  | some t => .ok t
  | none => .error (if ElementType.otherNames.contains name then .notNumeric
      else .unknownElementType)

/-- The element type of a tensor, which has to allow differentiation if the tensor takes part in
it. -/
def tensorType (name : String) (tracked : Bool) : Except (Fault Float) ElementType := do
  let t ← elementType name
  if tracked && !t.isDifferentiable then .error .tensorRefused else .ok t

/-- Whether an array can be made from a tensor that may take part in differentiation. -/
def readable (name : String) (tracked : Bool) : Except (Fault Float) Unit := do
  let t ← elementType name
  if tracked then .error .tensorRefused
  else if t.isReadable then .ok ()
  else .error .notNumeric

mutual

/-- The shape of data, if nested lists are even. -/
def shape : Datum → Except (Fault Float) Shape
  | list items => do limited (← listShape items)
  | shaped extents entries => do
    let _ ← entries.shape
    let xs ← entries.values
    match Shape.complete? (← extents.mapM extent) xs.length with
    | some s => limited s
    | none => .error .ragged
  | tensor name tracked content => do
    let (s, _) ← tensorEntries name tracked content
    let _ ← readable name tracked
    limited s
  | _ => .ok []

/-- The entries of data in row-major order. -/
def values : Datum → Except (Fault Float) (List Float)
  | list items => listValues items
  | shaped _ entries => entries.values
  | tensor name tracked content => (tensorEntries name tracked content).map Prod.snd
  | d => d.entryValue.map fun x => [x]

/-- The shape and the numbers of a tensor. -/
def tensorEntries (name : String) (tracked : Bool) :
    Datum → Except (Fault Float) (Shape × List Float)
  | shaped s entries => do
    let shape ← shape (shaped s entries)
    let xs ← values (shaped s entries)
    let t ← tensorType name tracked
    .ok (shape, xs.map t.convert)
  | tensor inner within content => do
    let (shape, xs) ← tensorEntries inner within content
    let t ← tensorType name tracked
    .ok (shape, xs.map t.convert)
  | d => do
    let t ← elementType name
    let shape ← leadingShape d
    let xs ← stored t shape d
    let _ ← tensorType name tracked
    .ok (shape, xs)

/-- The common shape of the items of a list, behind their number. -/
def listShape : List Datum → Except (Fault Float) Shape
  | [] => .ok [0]
  | d :: rest => do
    let first ← d.shape
    match ← listShape rest with
    | 0 :: _ => .ok (1 :: first)
    | n :: others => if first = others then .ok ((n + 1) :: first) else .error .ragged
    | [] => .error .ragged

/-- The entries of all items. -/
def listValues : List Datum → Except (Fault Float) (List Float)
  | [] => .ok []
  | d :: rest => do
    let xs ← d.values
    let ys ← listValues rest
    .ok (xs ++ ys)

end

/-- The shape and the entries of data; a tensor is taken out of differentiation first. -/
def read : Datum → Except (Fault Float) (Shape × List Float)
  | tensor name tracked content => do
    let (shape, xs) ← tensorEntries name tracked content
    let _ ← readable name false
    .ok (← limited shape, xs)
  | d => do .ok (← d.shape, ← d.values)

/-- Read data as an array. -/
def toArray (d : Datum) : Except (Fault Float) (NDArray Float) := do
  let (shape, values) ← d.read
  if h : values.toArray.size = shape.size then .ok ⟨shape, values.toArray, h⟩
  else .error .ragged

instance : ArraySource Datum Float := ⟨toArray⟩

/-- The single number in a list. -/
def single : List Float → Except (Fault Float) Float
  | [x] => .ok x
  | _ => .error .notSingle

/-- Data as a single number. Lists, null and arrays that have axes are refused; a tensor may have
axes if it has one entry. -/
def toFloat : Datum → Except (Fault Float) Float
  | null => .error .notNumeric
  | shaped s entries => do
    let s ← shape (shaped s entries)
    let xs ← entries.values
    if s.isEmpty then single xs else .error .notNumeric
  | tensor name tracked content => do single (← tensorEntries name tracked content).2
  | d => d.entryValue

/-- A number as it was given. -/
def toNumeral : Datum → Except (Fault Float) (Numeral Float)
  | truth b => .ok (.truth b)
  | whole k => .ok (.whole k)
  | d => d.toFloat.map .real

/-- The numbers of a list as they were given. Nothing but numbers will do. -/
def toNumerals : Datum → Except (Fault Float) (List (Numeral Float))
  | list items => items.mapM fun d => match d with
    | truth b => .ok (.truth b)
    | whole k => .ok (.whole k)
    | real x => .ok (.real x)
    | _ => .error .notNumeric
  | _ => .error .notNumeric

/-- The integer part of a number. -/
def integerOf (x : Float) : Except (Fault Float) Int :=
  if x.isFinite then .ok (ElementType.integerPart x)
  else .error (if x.isNaN then .unreadable "nan" else .integerTooLarge)

/-- Data as an integer: numbers drop their fraction, texts have to spell an integer. -/
def toInt : Datum → Except (Fault Float) Int
  | truth b => .ok (if b then 1 else 0)
  | whole k => .ok k
  | real x => integerOf x
  | text s => match Decimal.readInt? s with
    | some k => .ok k
    | none => .error (.unreadable s)
  | _ => .error .notNumeric

/-- Whether data counts as true before it is read: numbers other than zero, and whatever is not
empty. -/
def toTruth : Datum → Bool
  | null => false
  | truth b => b
  | whole k => k ≠ 0
  | real x => !(x == 0.0)
  | text s => !s.isEmpty
  | list items => !items.isEmpty
  | record size => size ≠ 0
  | shaped .. => true
  | tensor .. => true

/-- Whether data counts as true after arrays have been read: an array counts as its only entry. -/
def readTruth : Datum → Except (Fault Float) Bool
  | shaped s entries => do
    let _ ← shape (shaped s entries)
    let x ← single (← entries.values)
    .ok !(x == 0.0)
  | tensor name tracked content => do
    match single (← tensorEntries name tracked content).2 with
    | .ok x => .ok !(x == 0.0)
    | .error _ => .error .tensorRefused
  | d => .ok d.toTruth

/-- Data as it is described among other data, with texts between quotes. -/
def description : Datum → String
  | null => "None"
  | truth b => if b then "True" else "False"
  | whole k => toString k
  | real x => Decimal.shortestText x
  | text s => Text.quoted s
  | list items => "[" ++ String.intercalate ", " (descriptions items) ++ "]"
  | record _ => "\x7b\x7d"
  | shaped _ entries => entries.description
  | tensor _ _ content => content.description
where
  /-- The descriptions of all items. -/
  descriptions : List Datum → List String
    | [] => []
    | d :: rest => d.description :: descriptions rest

/-- Data as a message: a text is shown as it is, all else by its description. -/
def message : Datum → String
  | text s => s
  | d => d.description

end Datum

end QuadraticProgram
