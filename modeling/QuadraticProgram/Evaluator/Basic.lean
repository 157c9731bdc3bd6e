import QuadraticProgram.Arrays.Source
import QuadraticProgram.Kkt.Residuals

/-! # Costs and constraints

An evaluator is a cost or constraint over local variables. Its data is checked when it is built, so
an evaluator of a known size has matrices and vectors that fit. Generic costs and constraints carry
a function and the number of variables they claim to take.
-/

namespace QuadraticProgram

/-- The value of a cost or of a constraint at a point. -/
inductive Value (α : Type)
  | number (a : α)
  | vector (v : AnyVec α)

/-- Lower and upper bounds of which no lower one exceeds its upper one. Entries that are no number
exceed nothing. -/
structure Bounds (α : Type) [Scalar α] (m : Nat) where
  lower : Vec α m
  upper : Vec α m
  not_crossed : ∀ i, ¬ upper i < lower i

/-- The cost `½ vᵀ Q v + bᵀ v`. -/
structure QuadraticCost (α : Type) where
  numVars : Nat
  quadratic : Mat α numVars numVars
  linear : Vec α numVars

/-- The constraint `A v = target`. -/
structure LinearEquality (α : Type) where
  numRows : Nat
  numVars : Nat
  matrix : Mat α numRows numVars
  target : Vec α numRows

/-- The constraint `lower ≤ A v ≤ upper`. -/
structure LinearBounds (α : Type) [Scalar α] where
  numRows : Nat
  numVars : Nat
  matrix : Mat α numRows numVars
  bounds : Bounds α numRows

/-- The constraint `lower ≤ v ≤ upper`. -/
structure BoundingBox (α : Type) [Scalar α] where
  numVars : Nat
  bounds : Bounds α numVars

/-- A cost given by a function. -/
structure GenericCost (α : Type) where
  function : AnyVec α → Except (Fault α) α
  numVars : Int

/-- The constraint `lower ≤ f v ≤ upper`. -/
structure GenericConstraint (α : Type) [Scalar α] where
  function : AnyVec α → Except (Fault α) (NDArray α)
  numRows : Nat
  bounds : Bounds α numRows
  numVars : Int

/-- The conditions `0 ≤ v`, `0 ≤ M v + q` and `vᵀ (M v + q) = 0`. -/
structure Complementarity (α : Type) where
  numVars : Nat
  matrix : Mat α numVars numVars
  offset : Vec α numVars

/-- A cost or constraint of any kind. -/
inductive Evaluator (α : Type) [Scalar α]
  | quadraticCost (e : QuadraticCost α)
  | linearEquality (e : LinearEquality α)
  | linear (e : LinearBounds α)
  | boundingBox (e : BoundingBox α)
  | genericCost (e : GenericCost α)
  | genericConstraint (e : GenericConstraint α)
  | linearComplementarity (e : Complementarity α)

variable {α : Type} [Scalar α]

/-- The value of a quadratic cost at a point. -/
def QuadraticCost.eval (e : QuadraticCost α) (v : Vec α e.numVars) : α :=
  QuadraticProgram.quadraticCost e.quadratic e.linear v

/-- The left-hand side of an equality at a point. -/
def LinearEquality.eval (e : LinearEquality α) (v : Vec α e.numVars) : Vec α e.numRows :=
  e.matrix.mulVec v

/-- The left-hand side of a complementarity condition at a point. -/
def Complementarity.eval (e : Complementarity α) (v : Vec α e.numVars) : Vec α e.numVars :=
  (e.matrix.mulVec v).add e.offset

/-- A point as one of a known length. -/
def AnyVec.ofSize (v : AnyVec α) (n : Nat) : Except (Fault α) (Vec α n) :=
  if h : v.size = n then .ok (v.entries.cast h) else .error .shapesDiffer

namespace Evaluator

def kind : Evaluator α → Kind
  | quadraticCost _ => .quadraticCost
  | linearEquality _ => .linearEquality
  | linear _ => .linear
  | boundingBox _ => .boundingBox
  | genericCost _ => .genericCost
  | genericConstraint _ => .genericConstraint
  | linearComplementarity _ => .linearComplementarity

/-- How many variables an evaluator takes. -/
def numVars : Evaluator α → Int
  | quadraticCost e => e.numVars
  | linearEquality e => e.numVars
  | linear e => e.numVars
  | boundingBox e => e.numVars
  | genericCost e => e.numVars
  | genericConstraint e => e.numVars
  | linearComplementarity e => e.numVars

/-- The value at a point. Only evaluators with a matrix mind the length of the point. -/
def eval : Evaluator α → AnyVec α → Except (Fault α) (Value α)
  | quadraticCost e, v => do .ok (.number (e.eval (← v.ofSize e.numVars)))
  | linearEquality e, v => do .ok (.vector ⟨_, e.eval (← v.ofSize e.numVars)⟩)
  | linear e, v => do .ok (.vector ⟨_, e.matrix.mulVec (← v.ofSize e.numVars)⟩)
  | boundingBox _, v => .ok (.vector v)
  | genericCost e, v => (e.function v).map .number
  | genericConstraint e, v => do .ok (.vector (← (← e.function v).toVec))
  | linearComplementarity e, v => do .ok (.vector ⟨_, e.eval (← v.ofSize e.numVars)⟩)

end Evaluator

end QuadraticProgram
