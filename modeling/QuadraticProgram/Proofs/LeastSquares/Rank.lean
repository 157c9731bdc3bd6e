import Mathlib.Order.Interval.Finset.Fin
import QuadraticProgram.Proofs.Factorization.Exact

/-! # Rank decisions on values that do not increase

The values above a cutoff are counted, and as many are taken from the front. For values that do not
increase these are the same ones: the values taken are exactly those that exceed the cutoff.
-/

namespace QuadraticProgram

variable {m n k : ℕ}

theorem defaultCutoff_nonneg (m n : ℕ) : (0 : ℝ) ≤ defaultCutoff m n :=
  mul_nonneg (Nat.cast_nonneg (max m n)) Scalar.epsilon_pos.le

theorem defaultCutoff_lt_one (h : max m n < 2 ^ 52) : (defaultCutoff m n : ℝ) < 1 := by
  have hcast : ((max m n : ℕ) : ℝ) < 2 ^ 52 := by exact_mod_cast h
  change ((max m n : ℕ) : ℝ) * Scalar.epsilon < 1
  rw [Scalar.epsilon, Scalar.ratio_eq, Nat.cast_one, mul_one_div, div_lt_one (by positivity)]
  exact_mod_cast h

theorem exceeds_iff (values : Vec ℝ k) (cutoff : ℝ) (i : Fin k) :
    exceeds values cutoff i = true ↔ values ⟨0, i.pos⟩ * cutoff < values i := by
  rw [exceeds, decide_eq_true_iff]

theorem exceeds_zero {values : Vec ℝ k} {cutoff : ℝ} (hc : cutoff < 1) {i : Fin k}
    (hi : i.val = 0) (hv : 0 < values i) : exceeds values cutoff i = true := by
  have hfirst : (⟨0, i.pos⟩ : Fin k) = i := Fin.ext hi.symm
  rw [exceeds_iff, hfirst]
  exact mul_lt_of_lt_one_right hv hc

/-- A value that exceeds a share of a first value that is not negative is positive. -/
theorem pos_of_exceeds {values : Vec ℝ k} (hv : ∀ i, 0 ≤ values i) {cutoff : ℝ} (hc : 0 ≤ cutoff)
    {i : Fin k} (h : exceeds values cutoff i = true) : 0 < values i :=
  lt_of_le_of_lt (mul_nonneg (hv _) hc) ((exceeds_iff values cutoff i).mp h)

/-- A property that holds of all positions before a position where it holds is counted by the
positions where it holds. -/
theorem lt_countP_finRange_iff {p : Fin k → Bool} (hp : ∀ i j, i ≤ j → p j = true → p i = true)
    (i : Fin k) : i.val < (List.finRange k).countP p ↔ p i = true := by
  have hcard : (List.finRange k).countP p = (Finset.univ.filter fun i => p i = true).card := by
    rw [List.countP_eq_length_filter]
    simp [Finset.card, Finset.filter, Finset.univ, Fintype.elems]
  rw [hcard]
  constructor
  · intro h
    by_contra hi
    have hsub : (Finset.univ.filter fun j => p j = true) ⊆ Finset.Iio i := by
      intro j hj
      rw [Finset.mem_Iio]
      by_contra hij
      exact hi (hp i j (not_lt.mp hij) (Finset.mem_filter.mp hj).2)
    have := Finset.card_le_card hsub
    rw [Fin.card_Iio] at this
    omega
  · intro h
    have hsub : Finset.Iic i ⊆ Finset.univ.filter fun j => p j = true := by
      intro j hj
      exact Finset.mem_filter.mpr ⟨Finset.mem_univ j, hp j i (Finset.mem_Iic.mp hj) h⟩
    have := Finset.card_le_card hsub
    rw [Fin.card_Iic] at this
    omega

namespace PivotedQR

variable {f : PivotedQR ℝ m n} {M : Mat ℝ m n} {cutoff : ℝ}

theorem pivots_apply (f : PivotedQR ℝ m n) (i : Fin (min m n)) :
    f.pivots i = |f.r i ⟨i, lt_of_lt_of_le i.isLt (min_le_right m n)⟩| :=
  Vec.get_ofFn _ i

theorem pivots_nonneg (f : PivotedQR ℝ m n) (i : Fin (min m n)) : 0 ≤ f.pivots i := by
  rw [pivots_apply]
  exact abs_nonneg _

theorem pivots_mul_self (f : PivotedQR ℝ m n) (i : Fin (min m n)) :
    f.pivots i * f.pivots i = f.r i ⟨i, lt_of_lt_of_le i.isLt (min_le_right m n)⟩ *
      f.r i ⟨i, lt_of_lt_of_le i.isLt (min_le_right m n)⟩ := by
  rw [pivots_apply, abs_mul_abs_self]

/-- One pivot counts unless it is zero. -/
theorem keepsNonzero_of_le_one (f : PivotedQR ℝ m n) (h : min m n ≤ 1) (hc : cutoff < 1) :
    f.KeepsNonzero cutoff := by
  intro i hi
  exact exceeds_zero hc (by omega) (lt_of_le_of_ne (f.pivots_nonneg i) hi.symm)

/-- Pivots of longest columns do not increase. -/
theorem Greedy.antitone (hf : f.Greedy) : Antitone f.pivots.get := by
  intro i k hik
  rw [mul_self_le_mul_self_iff (f.pivots_nonneg k) (f.pivots_nonneg i), pivots_mul_self f k]
  have hcol := mul_self_le_tailSq (f.r.col ⟨k, lt_of_lt_of_le k.isLt (min_le_right m n)⟩).get
    (i := k) (j := i) hik
  rw [Mat.get_col] at hcol
  exact hcol.trans (hf i _ hik)

/-- The first pivot of a matrix that is not zero is positive. -/
theorem Exact.pivots_zero_pos (hf : f.Exact M) (hg : f.Greedy) (hM : M.toMatrix ≠ 0)
    {i : Fin (min m n)} (hi : i.val = 0) : 0 < f.pivots i := by
  refine lt_of_le_of_ne (f.pivots_nonneg i) fun h => hM ?_
  have hr : f.r.toMatrix = 0 := by
    ext k c
    have htail := hg i c (by omega)
    rw [← h, zero_mul, hi] at htail
    have hzero := eq_zero_of_tailSq htail (Nat.zero_le k)
    rwa [Mat.get_col] at hzero
  have hsub := hf.product
  rw [hr, Matrix.mul_zero] at hsub
  ext a j
  obtain ⟨c, rfl⟩ := Finite.surjective_of_injective hf.perm_injective j
  exact congrFun (congrFun hsub a) c

/-- The pivots in front, as many as the rank, are those that exceed the cutoff. -/
theorem Exact.lt_rank_iff (hf : f.Exact M) (cutoff : ℝ) (i : Fin (min m n)) :
    i.val < f.rank cutoff ↔ exceeds f.pivots cutoff i = true := by
  apply lt_countP_finRange_iff
  intro i j hij h
  rw [exceeds_iff] at h ⊢
  exact lt_of_lt_of_le h (hf.antitone hij)

/-- The leading block has no zero on its diagonal. -/
theorem Exact.leadingBlock_diag_ne_zero (hf : f.Exact M) (hc : 0 ≤ cutoff)
    (i : Fin (f.rank cutoff)) :
    f.leadingBlock (f.rank cutoff) (f.rank_le cutoff) i i ≠ 0 := by
  have h := (hf.lt_rank_iff cutoff (pivot (f.rank_le cutoff) i)).mp i.isLt
  have hpos := pos_of_exceeds f.pivots_nonneg hc h
  rw [pivots_apply, abs_pos] at hpos
  rw [leadingBlock, Mat.get_ofFn]
  exact hpos

end PivotedQR

end QuadraticProgram
