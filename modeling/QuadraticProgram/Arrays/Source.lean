import QuadraticProgram.Arrays.Basic

/-! # Where arrays come from

Definitions that take numeric data accept anything that can be read as an array or refused. Arrays
themselves are always readable.
-/

namespace QuadraticProgram

/-- Data that can be read as an array of numbers, or refused. -/
class ArraySource (δ : Type) (α : outParam Type) where
  read : δ → Except (Fault α) (NDArray α)

instance {α : Type} : ArraySource (NDArray α) α := ⟨.ok⟩

variable {δ α : Type} [ArraySource δ α]

/-- Data read as a vector. -/
def readVec (d : δ) : Except (Fault α) (AnyVec α) := ArraySource.read d >>= NDArray.toVec

/-- Data read as a matrix. -/
def readMat (d : δ) : Except (Fault α) (AnyMat α) := ArraySource.read d >>= NDArray.toMat

end QuadraticProgram
