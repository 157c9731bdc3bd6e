import Mathlib.Analysis.Real.Sqrt
import Mathlib.Tactic
import QuadraticProgram.Kkt.Residuals

/-! # The real numbers as scalars

Over the reals every number is finite and every comparison is decided, so the sums, largest
magnitudes and tolerances of the library have their usual meaning.
-/

namespace QuadraticProgram

noncomputable instance instScalarReal : Scalar ℝ where
  zero := 0
  one := 1
  natCast k := k
  add a b := a + b
  sub a b := a - b
  mul a b := a * b
  div a b := a / b
  neg a := -a
  lt a b := a < b
  le a b := a ≤ b
  decidableLT := Real.decidableLT
  decidableLE := Real.decidableLE
  sqrt := Real.sqrt
  abs a := |a|
  isFinite _ := true
  leInt a k := decide (a ≤ k)

/-- What one step of a loop keeps, the whole loop keeps. The property may speak of the number of
steps made. -/
theorem foldl_invariant {β : Type*} {n : ℕ} {f : β → Fin n → β} {b : β} (P : ℕ → β → Prop)
    (start : P 0 b) (step : ∀ (i : Fin n) (b : β), P i b → P (i + 1) (f b i)) :
    P n (Fin.foldl n f b) := by
  induction n with
  | zero => simpa using start
  | succ n ih =>
    rw [Fin.foldl_succ_last]
    exact step (Fin.last n) _ (ih fun i b hb => step i.castSucc b hb)

/-- What one step of a loop from the last index down keeps, the whole loop keeps. The property may
speak of the first index passed. -/
theorem foldr_invariant {β : Type*} {n : ℕ} {f : Fin n → β → β} {b : β} (P : ℕ → β → Prop)
    (start : P n b) (step : ∀ (i : Fin n) (b : β), P (i + 1) b → P i (f i b)) :
    P 0 (Fin.foldr n f b) := by
  induction n generalizing b with
  | zero => simpa using start
  | succ n ih =>
    rw [Fin.foldr_succ_last]
    exact ih (step (Fin.last n) b start) fun i b hb => step i.castSucc b hb

namespace Scalar

variable {n : ℕ}

theorem sum_eq (f : Fin n → ℝ) : sum f = ∑ i, f i := by
  induction n with
  | zero => rfl
  | succ n ih =>
    rw [Fin.sum_univ_castSucc, ← ih, sum, Fin.foldl_succ_last]
    rfl

theorem ratio_eq (p q : ℕ) : (ratio p q : ℝ) = p / q := rfl

theorem epsilon_pos : (0 : ℝ) < epsilon := by
  rw [epsilon, ratio_eq]
  norm_num

theorem same_iff (a b : ℝ) : same a b = true ↔ a = b := by
  simp only [same, Bool.and_eq_true, decide_eq_true_eq]
  exact le_antisymm_iff.symm

theorem larger_eq_max (a b : ℝ) : larger a b = max a b := by
  unfold larger
  by_cases h : a < b
  · exact (if_pos h).trans (max_eq_right h.le).symm
  · exact (if_neg h).trans (max_eq_left (not_lt.mp h)).symm

theorem largerOrInvalid_eq_max (a b : ℝ) : largerOrInvalid a b = max a b := by
  rw [← larger_eq_max]
  have hb : isNumber b = true := decide_eq_true (le_refl b)
  simp [largerOrInvalid, larger, hb]

/-- A bound on the largest magnitude is a bound on every magnitude. -/
theorem maxAbs_le_iff (f : Fin n → ℝ) {t : ℝ} (ht : 0 ≤ t) :
    maxAbs f ≤ t ↔ ∀ i, |f i| ≤ t := by
  induction n with
  | zero => exact ⟨fun _ i => i.elim0, fun _ => ht⟩
  | succ n ih =>
    rw [maxAbs, Fin.foldl_succ_last, largerOrInvalid_eq_max, max_le_iff, Fin.forall_fin_succ']
    exact and_congr_left' (ih fun i => f i.castSucc)

theorem maxAbs_nonneg (f : Fin n → ℝ) : 0 ≤ maxAbs f := by
  induction n with
  | zero => exact le_refl (0 : ℝ)
  | succ n ih =>
    rw [maxAbs, Fin.foldl_succ_last, largerOrInvalid_eq_max]
    exact le_max_of_le_left (ih fun i => f i.castSucc)

theorem maxAbs_zero : maxAbs (fun _ : Fin n => (0 : ℝ)) = 0 := by
  apply le_antisymm
  · rw [maxAbs_le_iff _ le_rfl]
    simp
  · exact maxAbs_nonneg _

end Scalar

end QuadraticProgram
