/-! # Kinds of costs and constraints -/

namespace QuadraticProgram

/-- Every kind of cost or constraint that a program can hold. -/
inductive Kind
  | quadraticCost
  | linearEquality
  | linear
  | boundingBox
  | genericCost
  | genericConstraint
  | linearComplementarity
  deriving DecidableEq, Repr

namespace Kind

/-- All kinds in the order in which reports list them. -/
def all : List Kind :=
  [quadraticCost, linearEquality, linear, boundingBox, genericCost, genericConstraint,
   linearComplementarity]

theorem mem_all (k : Kind) : k ∈ all := by
  cases k <;> decide

theorem nodup_all : all.Nodup := by
  decide

/-- The name of a kind in reports. -/
def label : Kind → String
  | quadraticCost => "quadratic_cost"
  | linearEquality => "linear_equality_constraint"
  | linear => "linear_constraint"
  | boundingBox => "bounding_box_constraint"
  | genericCost => "generic_cost"
  | genericConstraint => "generic_constraint"
  | linearComplementarity => "linear_complementarity_constraint"

/-- The name of the cost or constraint itself, as messages about one of them give it. -/
def title : Kind → String
  | quadraticCost => "QuadraticCost"
  | linearEquality => "LinearEqualityConstraint"
  | linear => "LinearConstraint"
  | boundingBox => "BoundingBoxConstraint"
  | genericCost => "GenericCost"
  | genericConstraint => "GenericConstraint"
  | linearComplementarity => "LinearComplementarityConstraint"

def ofLabel? (s : String) : Option Kind := all.find? fun k => k.label = s

theorem ofLabel?_label (k : Kind) : ofLabel? k.label = some k := by
  cases k <;> decide

/-- Whether the solver can handle a kind. -/
def isSupported : Kind → Bool
  | quadraticCost | linearEquality => true
  | _ => false

end Kind

end QuadraticProgram
