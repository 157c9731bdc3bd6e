import QuadraticProgram.Proofs.Factorization.PivotOrder
import QuadraticProgram.Proofs.Factorization.Reflector

/-! # Factorization by reflections is exact

After every step the columns of the matrix, in their present order, are the product of the
reflections so far with the reduced matrix, which is triangular as far as the steps have come. The
remaining norms are those of the columns that remain, so every step takes a longest one.
-/

namespace QuadraticProgram
open Matrix

variable {m n : ℕ}

theorem Vec.coe_swap {α : Type} (x : Vec α n) (p q : Fin n) :
    (x.swap p q).get = x.get ∘ Equiv.swap p q := by
  funext j
  rw [get_swap, Function.comp_apply, Equiv.swap_apply_def]
  split
  · rfl
  · split
    · rfl
    · rfl

theorem Mat.toMatrix_swapCols (A : Mat ℝ m n) (p q : Fin n) :
    (A.swapCols p q).toMatrix = A.toMatrix.submatrix id (Equiv.swap p q) := by
  ext i j
  rw [toMatrix_apply, get_swapCols, submatrix_apply, Equiv.swap_apply_def]
  split
  · rfl
  · split
    · rfl
    · rfl

namespace Reflection

theorem firstLargest_spec (j : Fin n) (values : Vec ℝ n) :
    IsFirstLargest values.get j (firstLargest j values) := by
  -- after `t` positions the best one so far is the first largest among those looked at
  have h := foldl_invariant (fun t (best : Fin n) =>
      j ≤ best ∧ (∀ c : Fin n, c.val < t ∨ c = j → j ≤ c → values c ≤ values best) ∧
        ∀ c : Fin n, j ≤ c → c < best → values c < values best)
    (f := fun best c => if j < c && values best < values c then c else best) (b := j)
    ⟨le_rfl, fun c hc _ => by simp_all, fun c hj hc => absurd hc hj.not_gt⟩
    (by
      rintro i best ⟨hj, hall, hfirst⟩
      split
      · rename_i h
        obtain ⟨hji, hlt⟩ := Bool.and_eq_true_iff.mp h
        have hji : j < i := of_decide_eq_true hji
        have hlt : values best < values i := of_decide_eq_true hlt
        refine ⟨hji.le, fun c hc hjc => ?_, fun c hjc hci => ?_⟩
        · by_cases hci : c = i
          · rw [hci]
          · exact (hall c (by omega) hjc).trans hlt.le
        · exact (hall c (.inl hci) hjc).trans_lt hlt
      · rename_i h
        refine ⟨hj, fun c hc hjc => ?_, hfirst⟩
        by_cases hci : c = i ∧ c ≠ j
        · obtain ⟨rfl, hne⟩ := hci
          by_contra hlt
          exact h (Bool.and_eq_true_iff.mpr ⟨decide_eq_true (lt_of_le_of_ne hjc (Ne.symm hne)),
            decide_eq_true (not_le.mp hlt)⟩)
        · exact hall c (by omega) hjc)
  rcases h with ⟨hj, hall, hfirst⟩
  exact ⟨hj, fun c hc => hall c (.inl c.isLt) hc, hfirst⟩

/-- The product of reflections, the latest of which stands first in the list. -/
noncomputable def product : List (Reflector ℝ m) → Matrix (Fin m) (Fin m) ℝ
  | [] => 1
  | h :: hs => product hs * h.toMatrix

theorem toMatrix_foldl_applyCols (hs : List (Reflector ℝ m)) (Q : Mat ℝ m n) :
    (hs.foldl (fun q h => h.applyCols q) Q).toMatrix = product hs * Q.toMatrix := by
  induction hs generalizing Q with
  | nil => exact (Matrix.one_mul _).symm
  | cons h hs ih =>
    rw [List.foldl_cons, ih, Reflector.toMatrix_applyCols, product, Matrix.mul_assoc]

/-- Taking an entry out of a remaining norm leaves the norm of the rest. -/
theorem Remaining.shrink_now {r : Remaining ℝ} {entry rest : ℝ} {recompute : Unit → ℝ}
    (hrest : 0 ≤ rest) (hnow : r.now = √(entry * entry + rest)) (hnew : recompute () = √rest) :
    (r.shrink entry recompute).now = √rest := by
  have hsum : 0 ≤ entry * entry + rest := add_nonneg (mul_self_nonneg _) hrest
  unfold shrink
  by_cases hpos : 0 < r.now
  · have hne : entry * entry + rest ≠ 0 := (Real.sqrt_pos.mp (hnow ▸ hpos)).ne'
    have hleft : 1 - Scalar.abs entry / r.now * (Scalar.abs entry / r.now) =
        rest / (entry * entry + rest) := by
      change 1 - |entry| / r.now * (|entry| / r.now) = _
      rw [div_mul_div_comm, abs_mul_abs_self, hnow, Real.mul_self_sqrt hsum, eq_div_iff hne,
        sub_mul, one_mul, div_mul_cancel₀ _ hne]
      ring
    have hnonneg : 0 ≤ rest / (entry * entry + rest) := div_nonneg hrest hsum
    rw [if_pos hpos]
    dsimp only
    rw [hleft, if_neg (not_lt.mpr hnonneg)]
    split
    · exact hnew
    · change r.now * √(rest / (entry * entry + rest)) = √rest
      rw [hnow, Real.sqrt_div hrest, mul_div_cancel₀ _ (hnow ▸ hpos).ne']
  · have hzero : √(entry * entry + rest) = 0 :=
      le_antisymm (hnow ▸ not_lt.mp hpos) (Real.sqrt_nonneg _)
    have hrest0 : rest = 0 := by
      have := Real.sqrt_eq_zero'.mp hzero
      linarith [mul_self_nonneg entry]
    rw [if_neg hpos, hnow, hzero, hrest0, Real.sqrt_zero]

section Step

variable (s : State ℝ m n) (j : Fin (min m n))

/-- The position of step `j` among the columns. -/
def stepCol (j : Fin (min m n)) : Fin n := ⟨j, lt_of_lt_of_le j.isLt (min_le_right m n)⟩

/-- The position of step `j` among the rows. -/
def stepRow (j : Fin (min m n)) : Fin m := ⟨j, lt_of_lt_of_le j.isLt (min_le_left m n)⟩

/-- The column taken by step `j`. -/
noncomputable def taken : Fin n := firstLargest (stepCol j) (s.norms.map Remaining.now)

/-- The reduced matrix with the column taken in its place. -/
noncomputable def exchanged : Mat ℝ m n := s.work.swapCols (stepCol j) (taken s j)

/-- The reflection of step `j`. -/
noncomputable def reflector : Reflector ℝ m :=
  Reflector.clearing ((exchanged s j).col (stepCol j)) (stepRow j)

theorem reflector_clears :
    (reflector s j).Clears ((exchanged s j).col (stepCol j)) (stepRow j) :=
  Reflector.clearing_clears _ _

theorem applyCols_col (h : Reflector ℝ m) (A : Mat ℝ m n) (c : Fin n) :
    ((h.applyCols A).col c).get = h.toMatrix *ᵥ (A.col c).get := by
  have hcol : (A.col c).get = A.toMatrixᵀ c := funext fun i => Mat.get_col A i c
  funext i
  rw [Mat.get_col, hcol]
  exact congrFun (congrFun (h.toMatrix_applyCols A) i) c

/-- What a step writes below the diagonal is there already over the reals. -/
theorem step_work : (step s j).work = (reflector s j).applyCols (exchanged s j) := by
  have hc := reflector_clears s j
  have hcol := applyCols_col (reflector s j) (exchanged s j) (stepCol j)
  apply Mat.ext_get
  intro i c
  change finishCol ((reflector s j).applyCols (exchanged s j)) j
    (Reflector.image ((exchanged s j).col (stepCol j)) (stepRow j)) i c = _
  rw [finishCol, Mat.get_ofFn]
  split
  · rename_i hcj
    obtain rfl : c = stepCol j := Fin.ext hcj
    rw [← Mat.get_col, hcol]
    split
    · rename_i hij
      obtain rfl : i = stepRow j := Fin.ext hij
      exact hc.image_eq.symm
    · split
      · rename_i hij
        exact (hc.cleared i hij).symm
      · rfl
  · rfl

theorem exchanged_col (c : Fin n) :
    (exchanged s j).col c = s.work.col (Equiv.swap (stepCol j) (taken s j) c) := by
  apply Vec.ext_get
  intro i
  rw [Mat.get_col, Mat.get_col]
  exact congrFun (congrFun (Mat.toMatrix_swapCols s.work _ _) i) c

/-- Every column after a step is a column before it, reflected. -/
theorem step_work_col (c : Fin n) : ((step s j).work.col c).get = (reflector s j).toMatrix *ᵥ
    (s.work.col (Equiv.swap (stepCol j) (taken s j) c)).get := by
  rw [step_work, applyCols_col, exchanged_col]

end Step

/-- What holds after `t` steps. -/
structure Invariant (A : Mat ℝ m n) (t : ℕ) (s : State ℝ m n) : Prop where
  perm_injective : Function.Injective s.perm.get
  orthonormal : (product s.reflectors)ᵀ * product s.reflectors = 1
  product_eq : A.toMatrix.submatrix id s.perm.get = product s.reflectors * s.work.toMatrix
  cleared : ∀ (i : Fin m) (c : Fin n), c.val < t → c.val < i.val → s.work i c = 0
  norms : ∀ c : Fin n, t ≤ c.val → (s.norms c).now = √(tailSq (s.work.col c).get t)
  greedy : ∀ (i : Fin (min m n)) (c : Fin n), i.val < t → i.val ≤ c.val →
    tailSq (s.work.col c).get i ≤
      s.work (stepRow i) (stepCol i) * s.work (stepRow i) (stepCol i)

section Run

variable {A : Mat ℝ m n} {s : State ℝ m n} {j : Fin (min m n)}

theorem invariant_start (A : Mat ℝ m n) :
    Invariant A 0 ⟨A, Vec.ofFn id, Vec.ofFn fun c => ⟨norm (A.col c), norm (A.col c)⟩, []⟩ where
  perm_injective := by
    rw [Vec.coe_ofFn]
    exact Function.injective_id
  orthonormal := by
    change (1 : Matrix (Fin m) (Fin m) ℝ)ᵀ * 1 = 1
    rw [transpose_one, Matrix.one_mul]
  product_eq := by
    rw [Vec.coe_ofFn, submatrix_id_id]
    exact (Matrix.one_mul _).symm
  cleared i c hc := absurd hc (Nat.not_lt_zero _)
  norms c _ := by
    rw [Vec.get_ofFn, norm_eq_sqrt, tailSq_zero]
  greedy i c hi := absurd hi (Nat.not_lt_zero _)

/-- The column taken is the first longest of those that remain. -/
theorem Invariant.taken_isFirst (hs : Invariant A j s) :
    IsFirstLargest (fun c => tailSq (s.work.col c).get j) (stepCol j) (taken s j) := by
  obtain ⟨hle, hmax, hfirst⟩ := firstLargest_spec (stepCol j) (s.norms.map Remaining.now)
  have hnow : ∀ c, stepCol j ≤ c → (s.norms.map Remaining.now) c =
      √(tailSq (s.work.col c).get j) := fun c hc => by
    rw [Vec.get_map, hs.norms c hc]
  refine ⟨hle, fun c hc => ?_, fun c hc hlt => ?_⟩
  · have h := hmax c hc
    rwa [hnow c hc, hnow _ hle, Real.sqrt_le_sqrt_iff (tailSq_nonneg _ _)] at h
  · have h := hfirst c hc hlt
    rwa [hnow c hc, hnow _ hle, Real.sqrt_lt_sqrt_iff (tailSq_nonneg _ _)] at h

theorem swap_of_lt {p q c : Fin n} (hc : c < p) (hpq : p ≤ q) : Equiv.swap p q c = c :=
  Equiv.swap_apply_of_ne_of_ne hc.ne (hc.trans_le hpq).ne

/-- An exchange behind a position keeps what is behind it there. -/
theorem le_swap {p q c : Fin n} {i : ℕ} (hp : i ≤ p.val) (hpq : p ≤ q) (hc : i ≤ c.val) :
    i ≤ (Equiv.swap p q c).val := by
  rw [Equiv.swap_apply_def]
  split
  · exact hp.trans hpq
  · split
    · exact hp
    · exact hc

theorem Invariant.step_cleared (hs : Invariant A j s) (i : Fin m) (c : Fin n) (hc : c.val < j + 1)
    (hi : c.val < i.val) : (step s j).work i c = 0 := by
  have hclears := reflector_clears s j
  rw [← Mat.get_col, step_work_col]
  rcases Nat.lt_succ_iff_lt_or_eq.mp hc with hlt | heq
  · have hzero : ∀ k : Fin m, c.val < k.val → s.work.col c k = 0 := fun k hk => by
      rw [Mat.get_col, hs.cleared k c hlt hk]
    rw [swap_of_lt (p := stepCol j) hlt hs.taken_isFirst.le,
      hclears.mulVec_of_zero fun k hk => hzero k (hlt.trans_le hk)]
    exact hzero i hi
  · obtain rfl : c = stepCol j := Fin.ext heq
    rw [← exchanged_col]
    exact hclears.cleared i hi

/-- A step keeps the squares of a column from every position on up to its own. -/
theorem tailSq_step_work (s : State ℝ m n) (c : Fin n) {i : ℕ} (hi : i ≤ j.val) :
    tailSq ((step s j).work.col c).get i =
      tailSq (s.work.col (Equiv.swap (stepCol j) (taken s j) c)).get i := by
  rw [step_work_col]
  exact (reflector_clears s j).tailSq_mulVec _ hi

theorem Invariant.step_norms (hs : Invariant A j s) (c : Fin n) (hc : j + 1 ≤ c.val) :
    ((step s j).norms c).now = √(tailSq ((step s j).work.col c).get (j + 1)) := by
  have hbefore : ((s.norms.swap (stepCol j) (taken s j)) c).now =
      √((step s j).work (stepRow j) c * (step s j).work (stepRow j) c +
        tailSq ((step s j).work.col c).get (j + 1)) := by
    have hle := le_swap (p := stepCol j) (c := c) le_rfl hs.taken_isFirst.le (Nat.le_of_succ_le hc)
    have hsucc := tailSq_succ ((step s j).work.col c).get (stepRow j)
    rw [Mat.get_col] at hsucc
    rw [Vec.coe_swap, Function.comp_apply, hs.norms _ hle, ← tailSq_step_work s c le_rfl]
    exact congrArg Real.sqrt hsucc
  have hnorms : (step s j).norms c = ((s.norms.swap (stepCol j) (taken s j)) c).shrink
      ((step s j).work (stepRow j) c) fun _ => norm (tail ((step s j).work.col c) (j + 1)) := by
    apply (Vec.get_ofFn _ c).trans
    exact if_pos (Nat.lt_of_succ_le hc)
  rw [hnorms]
  exact Remaining.shrink_now (tailSq_nonneg _ _) hbefore (norm_tail _ _)

theorem Invariant.step_greedy (hs : Invariant A j s) (i : Fin (min m n)) (c : Fin n)
    (hi : i.val < j + 1) (hc : i.val ≤ c.val) :
    tailSq ((step s j).work.col c).get i ≤ (step s j).work (stepRow i) (stepCol i) *
      (step s j).work (stepRow i) (stepCol i) := by
  rcases hs.taken_isFirst with ⟨htaken, hlongest, -⟩
  have hclears := reflector_clears s j
  rw [tailSq_step_work s c (Nat.lt_succ_iff.mp hi), ← Mat.get_col _ (stepRow i), step_work_col]
  rcases Nat.lt_succ_iff_lt_or_eq.mp hi with hlt | heq
  · rw [hclears.mulVec_before _ (i := stepRow i) hlt, swap_of_lt (c := stepCol i) hlt htaken,
      Mat.get_col]
    exact hs.greedy i _ hlt (le_swap hlt.le htaken hc)
  · obtain rfl : i = j := Fin.ext heq
    have himage := Reflector.image_mul_self ((exchanged s i).col (stepCol i)) (stepRow i)
    rw [← exchanged_col s i (stepCol i), hclears.image_eq, himage, exchanged_col,
      Equiv.swap_apply_left]
    exact hlongest _ (le_swap le_rfl htaken hc)

/-- What holds before a step holds after it. -/
theorem Invariant.step (hs : Invariant A j s) : Invariant A (j + 1) (step s j) where
  perm_injective := by
    change Function.Injective (s.perm.swap (stepCol j) (taken s j)).get
    rw [Vec.coe_swap]
    exact hs.perm_injective.comp (Equiv.injective _)
  orthonormal := by
    have hself := (reflector_clears s j).toMatrix_mul_self
    change (product s.reflectors * (reflector s j).toMatrix)ᵀ *
      (product s.reflectors * (reflector s j).toMatrix) = 1
    rw [transpose_mul, Reflector.toMatrix_transpose, Matrix.mul_assoc,
      ← Matrix.mul_assoc (product s.reflectors)ᵀ, hs.orthonormal, Matrix.one_mul, hself]
  product_eq := by
    have hself := (reflector_clears s j).toMatrix_mul_self
    change A.toMatrix.submatrix id (s.perm.swap (stepCol j) (taken s j)).get =
      product s.reflectors * (reflector s j).toMatrix * (Reflection.step s j).work.toMatrix
    rw [step_work, Reflector.toMatrix_applyCols, exchanged, Mat.toMatrix_swapCols, Matrix.mul_assoc,
      ← Matrix.mul_assoc (reflector s j).toMatrix, hself, Matrix.one_mul, Vec.coe_swap]
    change (A.toMatrix.submatrix id s.perm.get).submatrix id _ = _
    rw [hs.product_eq]
    rfl
  cleared := hs.step_cleared
  norms := hs.step_norms
  greedy := hs.step_greedy

/-- What holds at the start holds after all steps. -/
theorem run_invariant (A : Mat ℝ m n) : Invariant A (min m n) (run A) :=
  foldl_invariant (Invariant A) (invariant_start A) fun _ _ hs => hs.step

end Run

section Factor

variable (A : Mat ℝ m n)

/-- No row is left below the triangle. -/
theorem run_work_eq_zero {i : Fin m} (hi : min m n ≤ i.val) (c : Fin n) :
    (run A).work i c = 0 := by
  have hn : min m n = n := by omega
  exact (run_invariant A).cleared i c (by omega) (by omega)

theorem stepRow_injective : Function.Injective (stepRow : Fin (min m n) → Fin m) :=
  fun _ _ h => Fin.ext (Fin.mk.inj h)

theorem factor_r (i : Fin (min m n)) (c : Fin n) :
    (factor A).r i c = (run A).work (stepRow i) c := by
  rw [factor, Mat.get_ofFn]
  rfl

theorem factor_q :
    (factor A).q.toMatrix = (product (run A).reflectors).submatrix id stepRow := by
  have hthin : (Mat.ofFn fun (i : Fin m) (c : Fin (min m n)) =>
      if i.val = c.val then 1 else 0 : Mat ℝ m (min m n)).toMatrix =
      (1 : Matrix (Fin m) (Fin m) ℝ).submatrix id stepRow := by
    ext i c
    rw [Mat.toMatrix_ofFn, of_apply, submatrix_apply, one_apply]
    refine if_congr ?_ rfl rfl
    rw [Fin.ext_iff]
    rfl
  rw [factor, toMatrix_foldl_applyCols, hthin]
  ext i c
  exact congrFun (congrFun (Matrix.mul_one (product (run A).reflectors)) i) (stepRow c)

/-- Rows behind those of the steps add nothing if they are zero. -/
theorem tailSq_comp_stepRow {x : Fin m → ℝ} (hx : ∀ i, min m n ≤ i.val → x i = 0) (t : ℕ) :
    tailSq (x ∘ (stepRow : Fin (min m n) → Fin m)) t = tailSq x t := by
  refine Finset.sum_of_injOn stepRow stepRow_injective.injOn
    (fun _ _ => Finset.mem_coe.mpr (Finset.mem_univ _)) ?_ fun _ _ => rfl
  intro i _ hi
  have hlow : min m n ≤ i.val := by
    by_contra hlt
    exact hi ⟨⟨i, not_le.mp hlt⟩, Finset.mem_coe.mpr (Finset.mem_univ _), rfl⟩
  rw [hx i hlow, mul_zero, ite_self]

/-- Every pivot belongs to a longest column. -/
theorem factor_greedy : (factor A).Greedy := by
  intro i c hc
  have hcol : ((factor A).r.col c).get = ((run A).work.col c).get ∘ stepRow := by
    funext l
    rw [Mat.get_col, factor_r, Function.comp_apply, Mat.get_col]
  have htail : tailSq ((factor A).r.col c).get i = tailSq ((run A).work.col c).get i := by
    rw [hcol]
    refine tailSq_comp_stepRow (fun k hk => ?_) i
    rw [Mat.get_col]
    exact run_work_eq_zero A hk c
  rw [PivotedQR.pivots_mul_self, factor_r, htail]
  exact (run_invariant A).greedy i c i.isLt hc

/-- The factorization by reflections is exact. -/
theorem factor_exact : (factor A).Exact A where
  perm_injective := (run_invariant A).perm_injective
  orthonormal := by
    rw [factor_q]
    change ((product (run A).reflectors)ᵀ * product (run A).reflectors).submatrix
      stepRow stepRow = 1
    rw [(run_invariant A).orthonormal, submatrix_one _ stepRow_injective]
  triangular i c hci := by
    rw [factor_r]
    exact (run_invariant A).cleared (stepRow i) c (hci.trans i.isLt) hci
  product := by
    apply (run_invariant A).product_eq.trans
    ext i c
    rw [factor_q]
    change ∑ k, product (run A).reflectors i k * (run A).work k c =
      ∑ l, product (run A).reflectors i (stepRow l) * (factor A).r l c
    symm
    refine Finset.sum_of_injOn stepRow stepRow_injective.injOn
      (fun _ _ => Finset.mem_coe.mpr (Finset.mem_univ _)) ?_ ?_
    · intro k _ hk
      have hlow : min m n ≤ k.val := by
        by_contra hlt
        exact hk ⟨⟨k, not_le.mp hlt⟩, Finset.mem_coe.mpr (Finset.mem_univ _), rfl⟩
      rw [run_work_eq_zero A hlow, mul_zero]
    · intro l _
      rw [factor_r]
  antitone := (factor_greedy A).antitone

end Factor

end Reflection

end QuadraticProgram
