import QuadraticProgram.Arrays.Shape
import QuadraticProgram.Evaluator.Kind
import QuadraticProgram.Numeral
import QuadraticProgram.Program.Variable

/-! # What can go wrong

Every failure is one of these causes. The causes that the library itself judges have a message;
those that lie in the form of the data or in the arithmetic have none.
-/

namespace QuadraticProgram

/-- The causes of failure. -/
inductive Fault (α : Type)
  /-- Lists of unequal depth or length where an array was expected. -/
  | ragged
  /-- Text that is no number. -/
  | unreadable (text : String)
  /-- Data of a type that has no numeric value. -/
  | notNumeric
  /-- An integer beyond the range of the number format. -/
  | integerTooLarge
  /-- Several numbers, or none, where a single one is needed. -/
  | notSingle
  /-- A name that belongs to no element type. -/
  | unknownElementType
  /-- A tensor that cannot hold its content, or that cannot be used as asked. -/
  | tensorRefused
  /-- An array of the wrong rank. -/
  | wrongRank (expected : Numeral α) (shape : Shape)
  /-- Operands whose shapes do not fit together. -/
  | shapesDiffer
  /-- An axis that the array does not have. -/
  | noAxis
  /-- A position that the array does not have. -/
  | outOfRange
  /-- An infinity, or a value that is no number, where a factorization needs finite data. -/
  | notFinite
  /-- A triangular system with an exact zero on its diagonal. -/
  | singularTriangle
  /-- Data that has no singular value decomposition. -/
  | noDecomposition
  /-- A quadratic term that is not square or does not match the linear term. -/
  | costShape (quadratic : Shape) (linear : Nat)
  /-- An equality with a target of the wrong length. -/
  | targetShape (rows : Nat) (target : Shape)
  /-- An equality whose two bounds are not the same vector. -/
  | boundsDiffer
  /-- Bounds of the wrong length. -/
  | boundsShape (rows : Nat) (lower upper : Shape)
  /-- A lower bound above its upper bound. -/
  | boundsCross
  /-- A complementarity matrix that is not square or does not match its vector. -/
  | complementarityShape (matrix : Shape) (vector : Nat)
  /-- A cost or constraint attached to the wrong number of variables. -/
  | variableCount (kind : Kind) (expected : Int) (got : Nat)
  /-- A variable that belongs to another program or to none. -/
  | foreignVariable (v : Variable)
  /-- A request for fewer than no variables. -/
  | negativeCount
  /-- A solution vector of the wrong length. -/
  | valueCount (expected got : Nat)
  /-- Costs or constraints that the solver cannot handle. -/
  | unsupported (kinds : List Kind)
  /-- A Hessian that is not square or does not match the gradient. -/
  | hessianShape
  /-- Constraint data that matches neither itself nor the number of variables. -/
  | constraintShape (matrix target : Shape) (n : Nat)
  /-- A matrix that differs from its transpose. -/
  | notSymmetric (tolerance : Numeral α)
  /-- A point that misses the equality constraints. -/
  | infeasible (residual : α) (tolerance : Numeral α)
  /-- A text that names no logging level. -/
  | unknownLevel (text : String)
  /-- A text that is not the exact name of a logging level, where only such a name will do. -/
  | inexactLevel
  /-- A logging level that is neither a whole number nor a name. -/
  | notALevel
  /-- A record format that shows no field of the record. -/
  | badFormat
  /-- A name that belongs to no kind of cost or constraint. -/
  | unknownKind
  /-- A name that belongs to no function for a generic cost or constraint. -/
  | unknownFunction
  /-- The name of a logger that is not text. -/
  | notAName
  deriving Repr

/-- The sentence about costs and constraints that the solver cannot handle. -/
def unsupportedMessage (names : List String) : String :=
  "Equality constrained QP solver only supports quadratic costs and linear equality constraints; "
    ++ "found unsupported binding kinds: " ++ String.intercalate ", " names

/-- The message of a failure, for the causes that have one. -/
def Fault.message? : Fault Float → Option String
  | .wrongRank expected shape =>
    "Expected a " ++ expected.text ++ "-D array, got shape " ++ shape.text
  | .costShape quadratic linear =>
    s!"Q must be square and match b: got Q {quadratic.text}, b ({linear},)"
  | .targetShape rows target =>
    s!"Equality target must have shape ({rows},), got {target.text}"
  | .boundsDiffer => "Equality constraint requires lower_bound == upper_bound"
  | .boundsShape rows lower upper =>
    s!"Bounds must have shape ({rows},), got {lower.text} and {upper.text}"
  | .boundsCross => "Lower bound exceeds upper bound"
  | .complementarityShape matrix vector =>
    s!"M must be square and match q: got M {matrix.text}, q ({vector},)"
  | .variableCount kind expected got =>
    s!"{kind.title} expects {expected} variables, got {got}"
  | .foreignVariable v => s!"{v.text} is not a decision variable of this program"
  | .negativeCount => "count must be non-negative"
  | .valueCount expected got => s!"Expected {expected} decision variable values, got {got}"
  | .unsupported kinds => unsupportedMessage (kinds.map Kind.label)
  | .hessianShape => "G must be square and match the dimension of c"
  | .constraintShape matrix target n =>
    s!"Constraint dimension mismatch: A {matrix.text}, b {target.text}, n={n}"
  | .notSymmetric tolerance => s!"Matrix is not symmetric within tolerance {tolerance.text}."
  | .infeasible residual tolerance =>
    "Point violates equality constraints: ||Ax - b||_inf = " ++ Decimal.exponentForm 3 residual
      ++ " exceeds tolerance " ++ tolerance.text ++ "."
  | .unknownLevel text => s!"Unknown logging level: {Text.quoted text}"
  | _ => none

end QuadraticProgram
