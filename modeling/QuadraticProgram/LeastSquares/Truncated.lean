import QuadraticProgram.LeastSquares.Rank

/-! # Least squares of least norm

The singular values that count are inverted and all others are treated as zero, which gives the
least-squares solution of smallest norm for the matrix so truncated.
-/

namespace QuadraticProgram

variable {α : Type} [Scalar α] {m n : Nat}

namespace ThinSVD

/-- The inverses of the singular values that count, zero for the others. -/
def truncatedInverse (d : ThinSVD α m n) (cutoff : α) : Vec α (min m n) :=
  Vec.ofFn fun i => if exceeds d.sing cutoff i then 1 / d.sing i else 0

/-- The solution of the truncated system. -/
def solve (d : ThinSVD α m n) (cutoff : α) (rhs : Vec α m) : Vec α n :=
  d.vt.transposeMulVec ((d.truncatedInverse cutoff).mul (d.u.transposeMulVec rhs))

end ThinSVD

/-- The least-squares solution of `M z = rhs` of smallest norm. Without entries it is zero. -/
def truncatedLeastSquares (F : Factorizations α) (M : Mat α m n) (rhs : Vec α m)
    (cutoff : Option α) : Except (Fault α) (Vec α n) :=
  if m = 0 ∨ n = 0 then .ok Vec.zero
  else if !M.isFinite then .error .noDecomposition
  else .ok ((F.svd M).solve (cutoff.getD (defaultCutoff m n)) rhs)

end QuadraticProgram
