import QuadraticProgram.Proofs.Factorization.Reflection

/-! # Reflections take the first longest column

The reflections of later steps turn what remains of the columns without changing its length, so the
column that a step takes is the first longest one in the coordinates of the finished factorization
as well.
-/

namespace QuadraticProgram
open Matrix

variable {m n : ℕ}

namespace Reflection

/-- The squared length of what remains of a column from position `i` on. -/
noncomputable def State.left (s : State ℝ m n) (A : Mat ℝ m n) (i : ℕ) (v : Fin n) : ℝ :=
  tailSq ((product s.reflectors)ᵀ *ᵥ (A.col v).get) i

/-- The order of the columns after every step made so far. -/
structure Ordered (A : Mat ℝ m n) (t : ℕ) (s : State ℝ m n) (order : ℕ → Fin n → Fin n) :
    Prop where
  start : order 0 = id
  current : order t = s.perm.get
  step : ∀ i : Fin (min m n), i.val < t → ∃ p,
    IsFirstLargest (s.left A i ∘ order i) (stepCol i) p ∧
      order (i + 1) = order i ∘ Equiv.swap (stepCol i) p

variable {A : Mat ℝ m n} {s : State ℝ m n} {j : Fin (min m n)} {order : ℕ → Fin n → Fin n}

/-- The reduced matrix holds the columns as the reflections leave them. -/
theorem Invariant.work_col {t : ℕ} (hs : Invariant A t s) (c : Fin n) :
    (s.work.col c).get = (product s.reflectors)ᵀ *ᵥ (A.col (s.perm c)).get := by
  have hcol : (A.col (s.perm c)).get = product s.reflectors *ᵥ (s.work.col c).get := by
    ext i
    rw [Mat.get_col]
    apply (congrFun (congrFun hs.product_eq i) c).trans
    change ∑ k, product s.reflectors i k * s.work k c =
      ∑ k, product s.reflectors i k * s.work.col c k
    simp
  rw [hcol, mulVec_mulVec, hs.orthonormal, one_mulVec]

/-- A step changes no length from its own position on or from one before it. -/
theorem left_step (s : State ℝ m n) (A : Mat ℝ m n) {i : ℕ} (hi : i ≤ j.val) (v : Fin n) :
    (step s j).left A i v = s.left A i v := by
  change tailSq ((product s.reflectors * (reflector s j).toMatrix)ᵀ *ᵥ (A.col v).get) i = _
  rw [transpose_mul, Reflector.toMatrix_transpose, ← mulVec_mulVec]
  exact (reflector_clears s j).tailSq_mulVec _ hi

theorem Ordered.step_ordered (ho : Ordered A j s order) (hs : Invariant A j s) :
    Ordered A (j + 1) (Reflection.step s j)
      (Function.update order (j + 1) (Reflection.step s j).perm.get) := by
  have hbefore : ∀ i : ℕ, i ≤ j → Function.update order (j + 1)
      (Reflection.step s j).perm.get i = order i := fun i hi =>
    Function.update_of_ne (by omega) _ _
  refine ⟨?_, Function.update_self _ _ _, fun i hi => ?_⟩
  · rw [hbefore 0 (Nat.zero_le _), ho.start]
  have hij : i.val ≤ j := Nat.lt_succ_iff.mp hi
  rw [hbefore i hij, funext (left_step s A hij)]
  rcases Nat.lt_succ_iff_lt_or_eq.mp hi with hlt | heq
  · rw [hbefore (i + 1) hlt]
    exact ho.step i hlt
  · obtain rfl : i = j := Fin.ext heq
    refine ⟨taken s i, ?_, ?_⟩
    · have htaken := hs.taken_isFirst
      simp only [hs.work_col] at htaken
      rw [ho.current]
      exact htaken
    · rw [Function.update_self, ho.current]
      exact Vec.coe_swap _ _ _

theorem run_ordered (A : Mat ℝ m n) : ∃ order, Ordered A (min m n) (run A) order := by
  refine (foldl_invariant (fun t s => Invariant A t s ∧ ∃ order, Ordered A t s order)
    ⟨invariant_start A, fun _ => id, rfl, ?_, fun i hi => absurd hi (Nat.not_lt_zero _)⟩ ?_).2
  · exact (Vec.coe_ofFn id).symm
  · rintro j s ⟨hs, order, ho⟩
    exact ⟨hs.step, _, ho.step_ordered hs⟩

/-- What the finished factorization leaves of a column is what the last reflections leave of it. -/
theorem factor_remaining (A : Mat ℝ m n) (t : ℕ) (v : Fin n) :
    (factor A).remaining A t v = (run A).left A t v := by
  obtain ⟨c, rfl⟩ := Finite.surjective_of_injective (run_invariant A).perm_injective v
  have hcoords : (factor A).coords A ((run A).perm c) =
      ((product (run A).reflectors)ᵀ *ᵥ (A.col ((run A).perm c)).get) ∘ stepRow := by
    rw [PivotedQR.coords, factor_q]
    rfl
  rw [PivotedQR.remaining, hcoords]
  apply tailSq_comp_stepRow
  intro i hi
  rw [← (run_invariant A).work_col, Mat.get_col]
  exact run_work_eq_zero A hi c

/-- The factorization by reflections takes the first longest column at every step. -/
theorem factor_takesFirstLongest (A : Mat ℝ m n) : (factor A).TakesFirstLongest A := by
  obtain ⟨order, ho⟩ := run_ordered A
  refine ⟨order, ho.start, fun t => ?_, ho.current.symm⟩
  rw [funext (factor_remaining A t)]
  exact ho.step t t.isLt

end Reflection

end QuadraticProgram
