import Mathlib
import QuadraticProgram.Solver.Dense

/-! # Comparisons of machine numbers

Two machine numbers are in one of three orders, unless one of them is no number: then every
comparison fails. The product of a finite number and a number is a number, so the tolerance for
residuals always is one.
-/

namespace QuadraticProgram.Binary
open Float.Model Float.Model.UnpackedFloat

section Order

theorem sign_compare_swap (s t : Sign) : compare t s = (compare s t).swap := by
  cases s <;> cases t <;> rfl

/-- Magnitudes are compared by their exponents first. -/
theorem compare_magnitudes_swap (e e' : Int) (m m' : Nat) :
    (compare e' e).then (compare m' m) = ((compare e e').then (compare m m')).swap := by
  rw [Ordering.swap_then, ← Std.OrientedCmp.eq_swap, ← Std.OrientedCmp.eq_swap]

/-- The order of two values, seen from the other side. -/
theorem compare_swap (a b : UnpackedFloat) : b.compare a = (a.compare b).map Ordering.swap := by
  cases a with
  | notANumber => cases b <;> rfl
  | infinity s =>
    cases b with
    | infinity t => exact congrArg some (sign_compare_swap s t)
    | notANumber => rfl
    | zero t => cases s <;> rfl
    | finite t m e hm => cases s <;> rfl
  | zero s =>
    cases b with
    | infinity t => cases t <;> rfl
    | notANumber => rfl
    | zero t => rfl
    | finite t m e hm => cases t <;> rfl
  | finite s m e hm =>
    cases b with
    | infinity t => cases t <;> rfl
    | notANumber => rfl
    | zero t => cases s <;> rfl
    | finite t m' e' hm' =>
      cases s <;> cases t
      · exact congrArg (fun o => some (Ordering.swap o)) (compare_magnitudes_swap e e' m m')
      · rfl
      · rfl
      · exact congrArg some (compare_magnitudes_swap e e' m m')

/-- Only values that are no numbers are in no order. -/
theorem compare_eq_none_iff (a b : UnpackedFloat) :
    a.compare b = none ↔ a.isNaN = true ∨ b.isNaN = true := by
  fun_cases UnpackedFloat.compare a b <;> simp [UnpackedFloat.isNaN]

theorem lt_iff (a b : Float) : a < b ↔ a.toModel.compare b.toModel = some .lt := by
  change decide (a.toModel.lt b.toModel = true) = true ↔ _
  simp [Float.Model.lt, UnpackedFloat.lt, Float.Model.compare]

theorem le_iff (a b : Float) :
    a ≤ b ↔ a.toModel.compare b.toModel = some .lt ∨ a.toModel.compare b.toModel = some .eq := by
  change decide (a.toModel.le b.toModel = true) = true ↔ _
  rw [decide_eq_true_iff, Float.Model.le, UnpackedFloat.le, Float.Model.compare]
  cases a.toModel.unpack.compare b.toModel.unpack with
  | none => simp
  | some o => cases o <;> simp

variable {a b : Float}

theorem not_lt_of_le (h : a ≤ b) : ¬b < a := by
  rw [le_iff] at h
  rw [lt_iff, Float.Model.compare, compare_swap]
  rw [Float.Model.compare] at h
  rcases h with h | h <;> simp [h]

/-- Of two numbers one is less, or the other is at most it. -/
theorem lt_iff_not_le (ha : a.isNaN = false) (hb : b.isNaN = false) : a < b ↔ ¬b ≤ a := by
  have hsome : a.toModel.unpack.compare b.toModel.unpack ≠ none := by
    rw [ne_eq, compare_eq_none_iff]
    rintro (h | h)
    · exact Bool.false_ne_true (ha.symm.trans h)
    · exact Bool.false_ne_true (hb.symm.trans h)
  rw [lt_iff, le_iff, Float.Model.compare, Float.Model.compare, compare_swap a.toModel.unpack]
  cases h : a.toModel.unpack.compare b.toModel.unpack with
  | none => exact absurd h hsome
  | some o => cases o <;> simp

theorem not_le_of_isNaN (h : a.isNaN = true ∨ b.isNaN = true) : ¬a ≤ b := by
  have hnone := (compare_eq_none_iff a.toModel.unpack b.toModel.unpack).mpr h
  rw [le_iff, Float.Model.compare, hnone]
  simp

theorem not_lt_of_isNaN (h : a.isNaN = true ∨ b.isNaN = true) : ¬a < b := by
  have hnone := (compare_eq_none_iff a.toModel.unpack b.toModel.unpack).mpr h
  rw [lt_iff, Float.Model.compare, hnone]
  simp

end Order

section Product

/-- With the largest exponent only infinities are stored, apart from what is no number. -/
theorem unpackMantissa_pack {spec : Format} {u : UnpackedFloat} (hu : u.isNaN = false) :
    unpackExponent (pack spec u) = (-1#_) → unpackMantissa (pack spec u) = 0#_ := by
  fun_cases UnpackedFloat.pack spec u with
  | case1 => cases hu
  | case2 s => simp [packedInfinity]
  | case3 s => simp [packedZero]
  | case4 s m e hm biased hoverflow => simp [packedInfinity]
  | case5 s m e hm bits biased hsmall hnormal =>
    have hlt : biased < 2 ^ spec.exponentBits - 1 := by omega
    have hmod : biased % 2 ^ spec.exponentBits ≠ 2 ^ spec.exponentBits - 1 := by
      rw [Nat.mod_eq_of_lt (by omega)]
      omega
    simp [BitVec.neg_one_eq_allOnes, ← BitVec.toNat_inj, hmod]
  | case6 s m e hm bits biased hsmall hsubnormal =>
    simp [Nat.pos_iff_ne_zero.mp spec.he]

/-- Only what is no number is stored as no number. -/
theorem unpack_pack_isNaN {u : UnpackedFloat} (hu : u.isNaN = false) :
    (Float.Model.pack u).unpack.isNaN = false := by
  rw [← Bool.not_eq_true]
  intro h
  have hbits := (isNaN_unpack_iff_of_valid (Float.Model.pack u).valid).mp h
  have hnan := @isNaNBits_packedNaN Format.binary64
  rw [← hbits, isNaNBits, decide_eq_true_iff] at hnan
  exact hnan.2 (unpackMantissa_pack hu hnan.1)

/-- A product with a positive finite number is no number only if the other factor is none. -/
theorem isNaN_mul {a b : Float} (hfinite : a.isFinite = true) (hpos : 0 < a)
    (hb : b.isNaN = false) : (a * b).isNaN = false := by
  apply unpack_pack_isNaN
  change a.toModel.unpack.isFinite = true at hfinite
  change b.toModel.unpack.isNaN = false at hb
  rw [lt_iff, Float.Model.compare] at hpos
  cases hu : a.toModel.unpack with
  | infinity s =>
    rw [hu] at hfinite
    cases hfinite
  | notANumber =>
    rw [hu] at hfinite
    cases hfinite
  | zero s =>
    have hzero : (0 : Float).toModel.unpack = .zero .positive := by rfl
    rw [hu, hzero] at hpos
    cases hpos
  | finite s m e hm =>
    cases hv : b.toModel.unpack with
    | infinity t => rfl
    | notANumber =>
      rw [hv] at hb
      cases hb
    | zero t => rfl
    | finite t m' e' hm' =>
      rw [UnpackedFloat.mul, roundWithAccuracy]
      dsimp only
      split <;> rfl

end Product

/-- A largest target that is no number leaves the tolerance as if it were one, so the tolerance is
always a number. -/
theorem residualTolerance_isNaN {m : Nat} (b : Vec Float m) :
    (residualTolerance b).isNaN = false := by
  have hfinite : (feasibilityTolerance : Float).isFinite = true := by decide +kernel
  have hpos : (0 : Float) < feasibilityTolerance := by decide +kernel
  apply isNaN_mul hfinite hpos
  rw [Scalar.larger]
  split
  · rename_i hlt
    rw [← Bool.not_eq_true]
    intro h
    exact not_lt_of_isNaN (.inr h) hlt
  · decide +kernel

end QuadraticProgram.Binary
