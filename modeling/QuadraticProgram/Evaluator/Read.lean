import QuadraticProgram.Evaluator.Basic

/-! # Building costs and constraints from data

All data of an evaluator is read first, in the order in which it is given; only then are the parts
compared with each other. The first failure is the one reported.
-/

namespace QuadraticProgram

/-- A cost or constraint as it is described before its data is read. The function of a generic one
has been found or refused already, and counts first. Its number of variables has been read or
refused already too, and counts after all else. -/
inductive EvaluatorSpec (δ α : Type)
  | quadraticCost (quadratic linear : δ)
  | linearEquality (matrix lower : δ) (upper : Option δ)
  | linear (matrix lower upper : δ)
  | boundingBox (lower upper : δ)
  | genericCost (function : Except (Fault α) (AnyVec α → Except (Fault α) α))
      (numVars : Except (Fault α) Int)
  | genericConstraint (function : Except (Fault α) (AnyVec α → Except (Fault α) (NDArray α)))
      (lower upper : δ) (numVars : Except (Fault α) Int)
  | linearComplementarity (matrix offset : δ)

variable {δ α : Type} [Scalar α]

/-- Bounds of a known length, if both have it and do not cross. -/
def Bounds.ofVecs (m : Nat) (lower upper : AnyVec α) : Except (Fault α) (Bounds α m) :=
  if h : lower.size = m ∧ upper.size = m then
    let lower := lower.entries.cast h.1
    let upper := upper.entries.cast h.2
    if hc : ∀ i, ¬ upper i < lower i then .ok ⟨lower, upper, hc⟩
    else .error .boundsCross
  else .error (.boundsShape m lower.shape upper.shape)

/-- Whether two vectors of the same length have equal entries. -/
def Vec.same {n : Nat} (x y : Vec α n) : Bool :=
  (List.finRange n).all fun i => Scalar.same (x i) (y i)

variable [ArraySource δ α]

def QuadraticCost.read (quadratic linear : δ) : Except (Fault α) (QuadraticCost α) := do
  let Q ← readMat quadratic
  let b ← readVec linear
  if h : Q.numRows = b.size ∧ Q.numCols = b.size then
    .ok ⟨b.size, Q.entries.cast h.1 h.2, b.entries⟩
  else .error (.costShape Q.shape b.size)

/-- An equality may be given two bounds, which then have to be the same vector. The lower bound
alone is compared with itself, so a target that is no number is refused either way. -/
def LinearEquality.read (matrix lower : δ) (upper : Option δ) :
    Except (Fault α) (LinearEquality α) := do
  let A ← readMat matrix
  let b ← readVec lower
  let b' ← match upper with
    | none => .ok b
    | some upper => readVec upper
  if h : b.size = A.numRows then
    if h' : b'.size = b.size then
      if (b'.entries.cast h').same b.entries then
        .ok ⟨A.numRows, A.numCols, A.entries, b.entries.cast h⟩
      else .error .boundsDiffer
    else .error .boundsDiffer
  else .error (.targetShape A.numRows b.shape)

def LinearBounds.read (matrix lower upper : δ) : Except (Fault α) (LinearBounds α) := do
  let A ← readMat matrix
  let bounds ← Bounds.ofVecs A.numRows (← readVec lower) (← readVec upper)
  .ok ⟨A.numRows, A.numCols, A.entries, bounds⟩

def BoundingBox.read (lower upper : δ) : Except (Fault α) (BoundingBox α) := do
  let lower ← readVec lower
  let bounds ← Bounds.ofVecs lower.size lower (← readVec upper)
  .ok ⟨lower.size, bounds⟩

def GenericConstraint.read (function : Except (Fault α) (AnyVec α → Except (Fault α) (NDArray α)))
    (lower upper : δ) (numVars : Except (Fault α) Int) :
    Except (Fault α) (GenericConstraint α) := do
  let function ← function
  let box ← BoundingBox.read lower upper
  .ok ⟨function, box.numVars, box.bounds, ← numVars⟩

def Complementarity.read (matrix offset : δ) : Except (Fault α) (Complementarity α) := do
  let M ← readMat matrix
  let q ← readVec offset
  if h : M.numRows = q.size ∧ M.numCols = q.size then
    .ok ⟨q.size, M.entries.cast h.1 h.2, q.entries⟩
  else .error (.complementarityShape M.shape q.size)

/-- Build the described evaluator. -/
def Evaluator.read : EvaluatorSpec δ α → Except (Fault α) (Evaluator α)
  | .quadraticCost Q b => (QuadraticCost.read Q b).map .quadraticCost
  | .linearEquality A b b' => (LinearEquality.read A b b').map .linearEquality
  | .linear A lower upper => (LinearBounds.read A lower upper).map .linear
  | .boundingBox lower upper => (BoundingBox.read lower upper).map .boundingBox
  | .genericCost f numVars => do .ok (.genericCost ⟨← f, ← numVars⟩)
  | .genericConstraint f lower upper numVars =>
    (GenericConstraint.read f lower upper numVars).map .genericConstraint
  | .linearComplementarity M q => (Complementarity.read M q).map .linearComplementarity

end QuadraticProgram
