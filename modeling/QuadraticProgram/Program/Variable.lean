import QuadraticProgram.Text.Quoted

/-! # Decision variables

A variable is told from all others by its number, which is given out once. Its name is only shown.
-/

namespace QuadraticProgram

/-- A scalar unknown. -/
structure Variable where
  name : String
  id : Nat
  deriving DecidableEq, Repr

/-- How a variable is shown. -/
def Variable.text (v : Variable) : String :=
  "DecisionVariable(" ++ Text.quoted v.name ++ ", id=" ++ toString v.id ++ ")"

end QuadraticProgram
