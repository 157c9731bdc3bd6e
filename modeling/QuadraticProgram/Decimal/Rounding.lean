/-! # Rounding exact quotients

A half goes to the even neighbour everywhere in the library, for decimal places, significant digits
and binary formats alike.
-/

namespace QuadraticProgram.Decimal

/-- The integer nearest to `num / den`, an exact half going to the even neighbour. -/
def roundDiv (num den : Nat) : Nat :=
  let q := num / den
  let twice := 2 * (num % den)
  if den < twice || (twice = den && q % 2 = 1) then q + 1 else q

/-- The rounded quotient is within half a unit. -/
theorem two_mul_roundDiv_le (num den : Nat) : 2 * (roundDiv num den * den) ≤ 2 * num + den := by
  have h : den * (num / den) + num % den = num := Nat.div_add_mod num den
  unfold roundDiv
  simp only [Bool.or_eq_true, decide_eq_true_eq, Bool.and_eq_true]
  split
  · rw [Nat.add_mul, Nat.mul_comm (num / den) den]
    omega
  · rw [Nat.mul_comm (num / den) den]
    omega

theorem le_two_mul_roundDiv (num : Nat) {den : Nat} (h0 : 0 < den) :
    2 * num ≤ 2 * (roundDiv num den * den) + den := by
  have h : den * (num / den) + num % den = num := Nat.div_add_mod num den
  have hlt : num % den < den := Nat.mod_lt _ h0
  unfold roundDiv
  simp only [Bool.or_eq_true, decide_eq_true_eq, Bool.and_eq_true]
  split
  · rw [Nat.add_mul, Nat.mul_comm (num / den) den]
    omega
  · rw [Nat.mul_comm (num / den) den]
    omega

end QuadraticProgram.Decimal
