/-! # The identity of the solver -/

namespace QuadraticProgram

/-- A label for a solver. Two labels are equal if their names are. -/
structure SolverId where
  name : String
  deriving DecidableEq, Repr

/-- The label under which the solver signs its results. -/
def solverId : SolverId := ⟨"Equality constrained QP"⟩

/-- Whether the solver can be used. It needs nothing that could be missing. -/
def SolverId.available (_ : SolverId) : Bool := true

end QuadraticProgram
