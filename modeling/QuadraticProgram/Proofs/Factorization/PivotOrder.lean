import QuadraticProgram.Proofs.LeastSquares.Rank

/-! # The order of pivots

A factorization that exchanges the first longest remaining column into its place reads the inner
products of the columns and nothing else. So columns that are turned together, or turned round one
by one, are taken in the same order and with the same pivots.
-/

namespace QuadraticProgram
open Matrix

variable {m n : ℕ}

/-- The first position of a largest value, among the positions from `j` on. -/
structure IsFirstLargest (values : Fin n → ℝ) (j p : Fin n) : Prop where
  le : j ≤ p
  largest : ∀ c, j ≤ c → values c ≤ values p
  first : ∀ c, j ≤ c → c < p → values c < values p

theorem IsFirstLargest.unique {values : Fin n → ℝ} {j p q : Fin n}
    (hp : IsFirstLargest values j p) (hq : IsFirstLargest values j q) : p = q := by
  by_contra hne
  rcases lt_or_gt_of_ne hne with hlt | hlt
  · exact (hq.first p hp.le hlt).not_ge (hp.largest q hq.le)
  · exact (hp.first q hq.le hlt).not_ge (hq.largest p hp.le)

/-- The part of an inner product in front of a position. -/
noncomputable def headDot (x y : Fin m → ℝ) (t : ℕ) : ℝ := ∑ i, if i.val < t then x i * y i else 0

theorem headDot_self_add_tailSq (x : Fin m → ℝ) (t : ℕ) : headDot x x t + tailSq x t = x ⬝ᵥ x :=
  (dotProduct_self_eq_add_tailSq x t).symm

/-- A vector that ends at a position meets another one there and in front of it only. -/
theorem headDot_add_mul {x : Fin m → ℝ} {t : Fin m} (hx : ∀ i, t < i → x i = 0) (y : Fin m → ℝ) :
    headDot x y t + x t * y t = x ⬝ᵥ y := by
  have hlast : x t * y t = ∑ i, if i = t then x i * y i else 0 := by simp
  rw [headDot, hlast, ← Finset.sum_add_distrib]
  apply Finset.sum_congr rfl
  intro i _
  rcases lt_trichotomy i t with h | h | h
  · simp [h, h.ne]
  · simp [h]
  · simp [h.not_gt, h.ne', hx i h]

namespace PivotedQR

/-- A column of the matrix in the coordinates of `q`. -/
noncomputable def coords (f : PivotedQR ℝ m n) (M : Mat ℝ m n) (v : Fin n) : Fin (min m n) → ℝ :=
  f.q.toMatrixᵀ *ᵥ (M.col v).get

/-- The squared length that the first `t` columns of `q` leave of a column. -/
noncomputable def remaining (f : PivotedQR ℝ m n) (M : Mat ℝ m n) (t : ℕ) (v : Fin n) : ℝ :=
  tailSq (f.coords M v) t

/-- The order of the columns after every step. Step `t` exchanges position `t` with the first
position of a longest remaining column. -/
structure Exchanges (f : PivotedQR ℝ m n) (M : Mat ℝ m n) (order : ℕ → Fin n → Fin n) : Prop where
  start : order 0 = id
  step : ∀ t : Fin (min m n), ∃ p,
    IsFirstLargest (f.remaining M t ∘ order t) (pivotCol le_rfl t) p ∧
      order (t + 1) = order t ∘ Equiv.swap (pivotCol le_rfl t) p
  final : f.perm.get = order (min m n)

/-- At every step the first longest remaining column becomes the next pivot. -/
def TakesFirstLongest (f : PivotedQR ℝ m n) (M : Mat ℝ m n) : Prop := ∃ order, f.Exchanges M order

section Coordinates

variable {f : PivotedQR ℝ m n} {M : Mat ℝ m n}

theorem Exact.col_perm (hf : f.Exact M) (c : Fin n) :
    (M.col (f.perm c)).get = f.q.toMatrix *ᵥ (f.r.col c).get := by
  ext i
  rw [Mat.get_col]
  apply (congrFun (congrFun hf.product i) c).trans
  change ∑ l, f.q i l * f.r l c = ∑ l, f.q i l * f.r.col c l
  simp

theorem Exact.coords_perm (hf : f.Exact M) (c : Fin n) :
    f.coords M (f.perm c) = (f.r.col c).get := by
  rw [coords, hf.col_perm, mulVec_mulVec, hf.orthonormal, one_mulVec]

theorem Exact.mulVec_coords (hf : f.Exact M) (v : Fin n) :
    f.q.toMatrix *ᵥ f.coords M v = (M.col v).get := by
  obtain ⟨c, rfl⟩ := Finite.surjective_of_injective hf.perm_injective v
  rw [hf.coords_perm, hf.col_perm]

theorem Exact.coords_dotProduct (hf : f.Exact M) (u v : Fin n) :
    f.coords M u ⬝ᵥ f.coords M v = (M.col u).get ⬝ᵥ (M.col v).get := by
  rw [← hf.mulVec_coords u, ← hf.mulVec_coords v, dotProduct_mulVec_mulVec hf.orthonormal]

theorem Exact.coords_perm_of_lt (hf : f.Exact M) {c : Fin n} {i : Fin (min m n)}
    (h : c.val < i.val) : f.coords M (f.perm c) i = 0 := by
  rw [hf.coords_perm, Mat.get_col]
  exact hf.triangular i c h

theorem Exact.headDot_pivot (hf : f.Exact M) (t : Fin (min m n)) (v : Fin n) :
    headDot (f.coords M (f.perm (pivotCol le_rfl t))) (f.coords M v) t +
        f.coords M (f.perm (pivotCol le_rfl t)) t * f.coords M v t =
      (M.col (f.perm (pivotCol le_rfl t))).get ⬝ᵥ (M.col v).get := by
  rw [headDot_add_mul fun i hi => hf.coords_perm_of_lt hi, hf.coords_dotProduct]

theorem Exact.pivots_eq_abs_coords (hf : f.Exact M) (t : Fin (min m n)) :
    f.pivots t = |f.coords M (f.perm (pivotCol le_rfl t)) t| := by
  rw [pivots_apply, hf.coords_perm, Mat.get_col]
  rfl

/-- A pivot is all that remains of its column. -/
theorem Exact.remaining_pivot (hf : f.Exact M) (t : Fin (min m n)) :
    f.remaining M t (f.perm (pivotCol le_rfl t)) =
      f.coords M (f.perm (pivotCol le_rfl t)) t * f.coords M (f.perm (pivotCol le_rfl t)) t := by
  have hhead := hf.headDot_pivot t (f.perm (pivotCol le_rfl t))
  have hsplit := headDot_self_add_tailSq (f.coords M (f.perm (pivotCol le_rfl t))) t
  rw [hf.coords_dotProduct, ← hhead] at hsplit
  exact add_left_cancel hsplit

end Coordinates

section Order

variable {f : PivotedQR ℝ m n} {M : Mat ℝ m n} {order : ℕ → Fin n → Fin n}

/-- Later exchanges leave the positions of earlier steps alone. -/
theorem Exchanges.settled (ho : f.Exchanges M order) {s t : ℕ} (hst : s ≤ t) (ht : t ≤ min m n)
    {c : Fin n} (hc : c.val < s) : order t c = order s c := by
  induction t, hst using Nat.le_induction with
  | base => rfl
  | succ t hst ih =>
    obtain ⟨p, hp, hnext⟩ := ho.step ⟨t, ht⟩
    have hct : c < pivotCol le_rfl ⟨t, ht⟩ := Fin.lt_def.mpr (lt_of_lt_of_le hc hst)
    rw [hnext, Function.comp_apply,
      Equiv.swap_apply_of_ne_of_ne hct.ne (hct.trans_le hp.le).ne]
    exact ih (Nat.le_of_succ_le ht)

theorem Exchanges.perm_of_lt (ho : f.Exchanges M order) {t : ℕ} (ht : t ≤ min m n) {c : Fin n}
    (hc : c.val < t) : f.perm c = order t c := by
  rw [ho.final]
  exact ho.settled ht le_rfl hc

theorem Exchanges.surjective (ho : f.Exchanges M order) {t : ℕ} (ht : t ≤ min m n) :
    Function.Surjective (order t) := by
  induction t with
  | zero =>
    rw [ho.start]
    exact Function.surjective_id
  | succ t ih =>
    obtain ⟨p, -, hnext⟩ := ho.step ⟨t, ht⟩
    have hnext : order (t + 1) = order t ∘ Equiv.swap (pivotCol le_rfl ⟨t, ht⟩) p := hnext
    rw [hnext]
    exact (ih (Nat.le_of_succ_le ht)).comp (Equiv.surjective _)

/-- The column taken by a step. -/
theorem Exchanges.perm_pivotCol (ho : f.Exchanges M order) {t : Fin (min m n)} {p : Fin n}
    (hnext : order (t + 1) = order t ∘ Equiv.swap (pivotCol le_rfl t) p) :
    f.perm (pivotCol le_rfl t) = order t p := by
  rw [ho.perm_of_lt (Nat.succ_le_of_lt t.isLt) (Nat.lt_succ_self t.val), hnext,
    Function.comp_apply, Equiv.swap_apply_left]

/-- Once a pivot is zero, nothing is left of any column. -/
theorem Exchanges.coords_eq_zero (ho : f.Exchanges M order) (hf : f.Exact M) {t : Fin (min m n)}
    (h : f.coords M (f.perm (pivotCol le_rfl t)) t = 0) (v : Fin n) : f.coords M v t = 0 := by
  obtain ⟨p, hp, hnext⟩ := ho.step t
  obtain ⟨c, rfl⟩ := ho.surjective t.isLt.le v
  by_cases hc : c.val < t.val
  · rw [← ho.perm_of_lt t.isLt.le hc]
    exact hf.coords_perm_of_lt hc
  · have hle := hp.largest c (not_lt.mp hc)
    rw [Function.comp_apply, Function.comp_apply, ← ho.perm_pivotCol hnext, hf.remaining_pivot, h,
      mul_zero] at hle
    exact eq_zero_of_tailSq hle le_rfl

end Order

section Uniqueness

variable {f f' : PivotedQR ℝ m n} {M M' : Mat ℝ m n} {order order' : ℕ → Fin n → Fin n}

/-- The columns of one matrix have the inner products of the columns of the other, up to a sign for
each column. -/
structure SameProducts (M M' : Mat ℝ m n) (d : Fin n → ℝ) : Prop where
  sign : ∀ v, d v * d v = 1
  dotProduct_eq : ∀ u v,
    (M'.col u).get ⬝ᵥ (M'.col v).get = d u * d v * ((M.col u).get ⬝ᵥ (M.col v).get)

/-- After `t` steps both factorizations have the same order of columns, and the coordinates made
final so far have the same products. -/
structure Agree (f f' : PivotedQR ℝ m n) (M M' : Mat ℝ m n) (order order' : ℕ → Fin n → Fin n)
    (d : Fin n → ℝ) (t : ℕ) : Prop where
  order_eq : order' t = order t
  coords_mul : ∀ k : Fin (min m n), k.val < t → ∀ u v,
    f'.coords M' u k * f'.coords M' v k = d u * d v * (f.coords M u k * f.coords M v k)

variable {d : Fin n → ℝ}

theorem Agree.headDot_eq {t : ℕ} (h : Agree f f' M M' order order' d t) (u v : Fin n) :
    headDot (f'.coords M' u) (f'.coords M' v) t =
      d u * d v * headDot (f.coords M u) (f.coords M v) t := by
  rw [headDot, headDot, Finset.mul_sum]
  apply Finset.sum_congr rfl
  intro k _
  by_cases hk : k.val < t
  · rw [if_pos hk, if_pos hk, h.coords_mul k hk]
  · rw [if_neg hk, if_neg hk, mul_zero]

theorem Agree.remaining_eq {t : ℕ} (h : Agree f f' M M' order order' d t) (hf : f.Exact M)
    (hf' : f'.Exact M') (hM : SameProducts M M' d) (v : Fin n) :
    f'.remaining M' t v = f.remaining M t v := by
  have hsplit := headDot_self_add_tailSq (f.coords M v) t
  have hsplit' := headDot_self_add_tailSq (f'.coords M' v) t
  rw [h.headDot_eq, hf'.coords_dotProduct, hM.dotProduct_eq, hM.sign, one_mul, one_mul,
    ← hf.coords_dotProduct, ← hsplit] at hsplit'
  exact add_left_cancel hsplit'

/-- A step takes the same column in both, and makes coordinates final that have the same
products. -/
theorem Agree.step {t : Fin (min m n)} (h : Agree f f' M M' order order' d t) (hf : f.Exact M)
    (hf' : f'.Exact M') (hM : SameProducts M M' d) (ho : f.Exchanges M order)
    (ho' : f'.Exchanges M' order') : Agree f f' M M' order order' d (t + 1) := by
  obtain ⟨p, hp, hnext⟩ := ho.step t
  obtain ⟨p', hp', hnext'⟩ := ho'.step t
  have hvalues : f'.remaining M' t ∘ order' t = f.remaining M t ∘ order t := by
    rw [h.order_eq, funext (h.remaining_eq hf hf' hM)]
  obtain rfl : p = p' := hp.unique (hvalues ▸ hp')
  have hpivot : f'.perm (pivotCol le_rfl t) = f.perm (pivotCol le_rfl t) := by
    rw [ho.perm_pivotCol hnext, ho'.perm_pivotCol hnext', h.order_eq]
  have hmul : ∀ v, f'.coords M' (f.perm (pivotCol le_rfl t)) t * f'.coords M' v t =
      d (f.perm (pivotCol le_rfl t)) * d v *
        (f.coords M (f.perm (pivotCol le_rfl t)) t * f.coords M v t) := by
    intro v
    have hdot := hf'.headDot_pivot t v
    rw [hpivot, h.headDot_eq, hM.dotProduct_eq, ← hf.headDot_pivot, mul_add] at hdot
    exact add_left_cancel hdot
  refine ⟨by rw [hnext, hnext', h.order_eq], fun k hk u v => ?_⟩
  rcases Nat.lt_succ_iff_lt_or_eq.mp hk with hk | hk
  · exact h.coords_mul k hk u v
  obtain rfl : k = t := Fin.ext hk
  have hsq := hmul (f.perm (pivotCol le_rfl k))
  rw [hM.sign, one_mul] at hsq
  by_cases hzero : f.coords M (f.perm (pivotCol le_rfl k)) k = 0
  · have hzero' : f'.coords M' (f'.perm (pivotCol le_rfl k)) k = 0 := by
      rw [hpivot, ← mul_self_eq_zero, hsq, hzero, mul_zero]
    rw [ho.coords_eq_zero hf hzero, ho'.coords_eq_zero hf' hzero', zero_mul, zero_mul, mul_zero]
  · -- products with the pivot determine all others
    have hne : f.coords M (f.perm (pivotCol le_rfl k)) k *
        f.coords M (f.perm (pivotCol le_rfl k)) k ≠ 0 := mul_self_ne_zero.mpr hzero
    apply mul_left_cancel₀ hne
    have hsign := hM.sign (f.perm (pivotCol le_rfl k))
    calc _ = (f'.coords M' (f.perm (pivotCol le_rfl k)) k * f'.coords M' u k) *
          (f'.coords M' (f.perm (pivotCol le_rfl k)) k * f'.coords M' v k) := by
            rw [← hsq]
            ring
      _ = d (f.perm (pivotCol le_rfl k)) * d (f.perm (pivotCol le_rfl k)) *
          (f.coords M (f.perm (pivotCol le_rfl k)) k * f.coords M (f.perm (pivotCol le_rfl k)) k *
            (d u * d v * (f.coords M u k * f.coords M v k))) := by
            rw [hmul, hmul]
            ring
      _ = _ := by rw [hsign, one_mul]

theorem Agree.all (hf : f.Exact M) (hf' : f'.Exact M') (hM : SameProducts M M' d)
    (ho : f.Exchanges M order) (ho' : f'.Exchanges M' order') {t : ℕ} (ht : t ≤ min m n) :
    Agree f f' M M' order order' d t := by
  induction t with
  | zero => exact ⟨by rw [ho.start, ho'.start], fun k hk => absurd hk (Nat.not_lt_zero _)⟩
  | succ t ih => exact (ih (Nat.le_of_succ_le ht)).step (t := ⟨t, ht⟩) hf hf' hM ho ho'

/-- Inner products determine the order of the columns. -/
theorem TakesFirstLongest.perm_eq (hg : f.TakesFirstLongest M) (hg' : f'.TakesFirstLongest M')
    (hf : f.Exact M) (hf' : f'.Exact M') (hM : SameProducts M M' d) : f'.perm = f.perm := by
  obtain ⟨order, ho⟩ := hg
  obtain ⟨order', ho'⟩ := hg'
  apply Vec.ext_get
  intro c
  rw [ho.final, ho'.final, (Agree.all hf hf' hM ho ho' le_rfl).order_eq]

/-- Inner products determine the pivots. -/
theorem TakesFirstLongest.pivots_eq (hg : f.TakesFirstLongest M) (hg' : f'.TakesFirstLongest M')
    (hf : f.Exact M) (hf' : f'.Exact M') (hM : SameProducts M M' d) : f'.pivots = f.pivots := by
  have hperm := hg.perm_eq hg' hf hf' hM
  obtain ⟨order, ho⟩ := hg
  obtain ⟨order', ho'⟩ := hg'
  apply Vec.ext_get
  intro t
  have hsq := (Agree.all hf hf' hM ho ho' le_rfl).coords_mul t t.isLt
    (f.perm (pivotCol le_rfl t)) (f.perm (pivotCol le_rfl t))
  rw [hM.sign, one_mul] at hsq
  rw [hf.pivots_eq_abs_coords, hf'.pivots_eq_abs_coords, hperm]
  exact abs_eq_iff_mul_self_eq.mpr hsq

end Uniqueness

end PivotedQR

/-- Every column-pivoted factorization takes the first longest remaining column. -/
def Factorizations.FirstLongestPivotedQR (F : Factorizations ℝ) : Prop :=
  ∀ ⦃m n⦄ (M : Mat ℝ m n), (F.pivotedQR M).TakesFirstLongest M

end QuadraticProgram
