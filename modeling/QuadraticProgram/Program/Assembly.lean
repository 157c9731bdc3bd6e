import QuadraticProgram.Program.Basic
import QuadraticProgram.Solver.Dense

/-! # From a program to a dense problem

Quadratic costs are scattered into one Hessian and one gradient through the positions of their
variables; whatever falls on the same place adds up. Equalities become consecutive blocks of rows in
the order in which they were added. Bindings of other kinds do not take part.
-/

namespace QuadraticProgram

variable {α : Type} [Scalar α]

namespace Mat

/-- Add to one entry. -/
def addAt {m n : Nat} (A : Mat α m n) (i : Fin m) (j : Fin n) (a : α) : Mat α m n :=
  A.setRow i ((A.row i).set j (A i j + a))

/-- The rows of one matrix above those of another. -/
def above {m k n : Nat} (A : Mat α m n) (B : Mat α k n) : Mat α (m + k) n :=
  Mat.ofFn fun i j => Fin.addCases (fun i => A i j) (fun i => B i j) i

end Mat

/-- Add to one entry of a vector. -/
def Vec.addAt {n : Nat} (x : Vec α n) (i : Fin n) (a : α) : Vec α n := x.set i (x i + a)

/-- A quadratic cost whose variables have been located among `n`. -/
structure PlacedCost (α : Type) (n : Nat) where
  cost : QuadraticCost α
  place : Vec (Fin n) cost.numVars

/-- An equality whose variables have been located among `n`. -/
structure PlacedEquality (α : Type) (n : Nat) where
  equality : LinearEquality α
  place : Vec (Fin n) equality.numVars

/-- The positions among `n` of as many variables as are expected. -/
def locateBy {n : Nat} (find : Variable → Except (Fault α) (Fin n)) (vs : List Variable)
    (k : Nat) : Except (Fault α) (Vec (Fin n) k) := do
  let places ← vs.mapM find
  if h : places.toArray.size = k then .ok ⟨⟨places.toArray, h⟩⟩ else .error .shapesDiffer

namespace Program

/-- The positions of as many variables of a program as are expected. -/
def locate (p : Program α) (vs : List Variable) (k : Nat) :
    Except (Fault α) (Vec (Fin p.numVars) k) := locateBy p.index vs k

section Found

variable (p : Program α) (find : Variable → Except (Fault α) (Fin p.numVars))

/-- The quadratic costs with the positions of their variables. -/
def placedCostsBy : Except (Fault α) (List (PlacedCost α p.numVars)) :=
  p.quadraticCosts.mapM fun (e, vs) => do .ok ⟨e, ← locateBy find vs e.numVars⟩

/-- The equalities with the positions of their variables. -/
def placedEqualitiesBy : Except (Fault α) (List (PlacedEquality α p.numVars)) :=
  p.linearEqualities.mapM fun (e, vs) => do .ok ⟨e, ← locateBy find vs e.numVars⟩

end Found

def placedCosts (p : Program α) : Except (Fault α) (List (PlacedCost α p.numVars)) :=
  p.placedCostsBy p.index

def placedEqualities (p : Program α) : Except (Fault α) (List (PlacedEquality α p.numVars)) :=
  p.placedEqualitiesBy p.index

end Program

variable {n : Nat}

/-- Add the quadratic term of a cost to a Hessian. -/
def PlacedCost.addHessian (c : PlacedCost α n) (G : Mat α n n) : Mat α n n :=
  let k := c.cost.numVars
  Fin.foldl k (fun G p =>
    Fin.foldl k (fun G q => G.addAt (c.place p) (c.place q) (c.cost.quadratic p q)) G) G

/-- Add the linear term of a cost to a gradient. -/
def PlacedCost.addGradient (c : PlacedCost α n) (g : Vec α n) : Vec α n :=
  Fin.foldl c.cost.numVars (fun g p => g.addAt (c.place p) (c.cost.linear p)) g

/-- The rows of an equality over all variables. -/
def PlacedEquality.rows (e : PlacedEquality α n) : Mat α e.equality.numRows n :=
  Fin.foldl e.equality.numVars (fun A p =>
    Mat.ofFn fun r j => if j = e.place p then A r j + e.equality.matrix r p else A r j) Mat.zero

/-- Constraint rows and their targets, under construction. -/
structure Stack (α : Type) (n : Nat) where
  numRows : Nat
  matrix : Mat α numRows n
  target : Vec α numRows

namespace Stack

def empty : Stack α n := ⟨0, Mat.zero, Vec.zero⟩

/-- Put the rows of an equality below those stacked so far. -/
def push (s : Stack α n) (e : PlacedEquality α n) : Stack α n :=
  ⟨s.numRows + e.equality.numRows, s.matrix.above e.rows, s.target.append e.equality.target⟩

end Stack

/-- The dense problem of located costs and equalities. -/
def assemblePlaced (costs : List (PlacedCost α n)) (equalities : List (PlacedEquality α n)) :
    AnyProblem α :=
  let stack := equalities.foldl Stack.push Stack.empty
  ⟨n, stack.numRows,
    { hessian := costs.foldl (fun G c => c.addHessian G) Mat.zero
      gradient := costs.foldl (fun g c => c.addGradient g) Vec.zero
      matrix := stack.matrix
      target := stack.target }⟩

namespace Program

/-- Gather the quadratic costs and equalities of a program into one dense problem, where a variable
is at the position at which it is found. -/
def assembleBy (p : Program α) (find : Variable → Except (Fault α) (Fin p.numVars)) :
    Logged α (AnyProblem α) := do
  let costs ← Logged.ofExcept (p.placedCostsBy find)
  let equalities ← Logged.ofExcept (p.placedEqualitiesBy find)
  let P := assemblePlaced costs equalities
  Logged.report (.assembled P.numVars costs.length equalities.length P.numConstraints)
  pure P

def assemble (p : Program α) : Logged α (AnyProblem α) := p.assembleBy p.index

end Program

end QuadraticProgram
