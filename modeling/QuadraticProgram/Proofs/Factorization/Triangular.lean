import Mathlib.Order.Interval.Finset.Fin
import QuadraticProgram.Factorization.Triangular
import QuadraticProgram.Proofs.Exact.Linear

/-! # Substitution solves triangular systems

Only one triangle of a matrix takes part in a substitution. With a nonzero diagonal the result
solves the system of that triangle exactly.
-/

namespace QuadraticProgram
open Matrix

variable {n : ℕ}

/-- The lower triangle of a matrix, with zeros above it. -/
def Mat.lower (A : Mat ℝ n n) : Matrix (Fin n) (Fin n) ℝ :=
  Matrix.of fun i j => if j ≤ i then A i j else 0

/-- The upper triangle of a matrix, with zeros below it. -/
def Mat.upper (A : Mat ℝ n n) : Matrix (Fin n) (Fin n) ℝ :=
  Matrix.of fun i j => if i ≤ j then A i j else 0

theorem Mat.upper_transpose (A : Mat ℝ n n) : A.transpose.upper = A.lowerᵀ := by
  ext i j
  simp [upper, lower]

namespace Triangular

theorem sum_before (i : Fin n) (f : Fin n → ℝ) :
    ∑ j : Fin i, f (before j) = ∑ j ∈ Finset.Iio i, f j := by
  refine Finset.sum_nbij before ?_ ?_ ?_ fun _ _ => rfl
  · intro j _
    exact Finset.mem_Iio.mpr j.isLt
  · intro j _ k _ h
    exact Fin.ext (Fin.mk.inj h)
  · intro j hj
    have hji : j < i := Finset.mem_Iio.mp (Finset.mem_coe.mp hj)
    exact ⟨⟨j, hji⟩, Finset.mem_univ _, rfl⟩

theorem sum_after {i : Fin n} {g : Fin (n - 1 - i) → Fin n} (hg : ∀ j, (g j).val = i + 1 + j)
    (f : Fin n → ℝ) : ∑ j, f (g j) = ∑ j ∈ Finset.Ioi i, f j := by
  refine Finset.sum_nbij g ?_ ?_ ?_ fun _ _ => rfl
  · intro j _
    have hj := hg j
    rw [Finset.mem_Ioi, Fin.lt_def]
    omega
  · intro j _ k _ h
    have hj := hg j
    have hk := hg k
    rw [h] at hj
    exact Fin.ext (by omega)
  · intro j hj
    have hij : i < j := Finset.mem_Ioi.mp (Finset.mem_coe.mp hj)
    refine ⟨⟨j - (i + 1), by omega⟩, Finset.mem_univ _, Fin.ext ?_⟩
    rw [hg]
    dsimp only
    omega

theorem leftSum_eq (L : Mat ℝ n n) (x : Vec ℝ n) (i : Fin n) :
    leftSum L x i = ∑ j ∈ Finset.Iio i, L i j * x j :=
  (Scalar.sum_eq _).trans (sum_before i fun j => L i j * x j)

theorem rightSum_eq (U : Mat ℝ n n) (x : Vec ℝ n) (i : Fin n) :
    rightSum U x i = ∑ j ∈ Finset.Ioi i, U i j * x j :=
  (Scalar.sum_eq _).trans (sum_after (fun _ => rfl) fun j => U i j * x j)

theorem lower_mulVec_apply (L : Mat ℝ n n) (x : Fin n → ℝ) (i : Fin n) :
    (L.lower *ᵥ x) i = (∑ j ∈ Finset.Iio i, L i j * x j) + L i i * x i := by
  have hsplit : Finset.univ.filter (· ≤ i) = Finset.Iic i := by
    ext j
    simp
  simp only [mulVec, dotProduct, Mat.lower, of_apply, ite_mul, zero_mul]
  rw [← Finset.sum_filter, hsplit, ← Finset.Iio_insert, Finset.sum_insert Finset.notMem_Iio_self,
    add_comm]

theorem upper_mulVec_apply (U : Mat ℝ n n) (x : Fin n → ℝ) (i : Fin n) :
    (U.upper *ᵥ x) i = (∑ j ∈ Finset.Ioi i, U i j * x j) + U i i * x i := by
  have hsplit : Finset.univ.filter (i ≤ ·) = Finset.Ici i := by
    ext j
    simp
  simp only [mulVec, dotProduct, Mat.upper, of_apply, ite_mul, zero_mul]
  rw [← Finset.sum_filter, hsplit, ← Finset.Ioi_insert, Finset.sum_insert Finset.notMem_Ioi_self,
    add_comm]

/-- One step of the substitution makes row `i` hold and leaves the rows before it alone. -/
theorem lower_mulVec_set {L : Mat ℝ n n} (b x : Vec ℝ n) (i : Fin n) (hi : L i i ≠ 0) (j : Fin n) :
    j ≤ i → (j < i → (L.lower *ᵥ x.get) j = b j) →
      (L.lower *ᵥ (x.set i ((b i - leftSum L x i) / L i i)).get) j = b j := by
  intro hji hj
  have hbefore : ∑ l ∈ Finset.Iio j, L j l * x.set i ((b i - leftSum L x i) / L i i) l =
      ∑ l ∈ Finset.Iio j, L j l * x l := by
    apply Finset.sum_congr rfl
    intro l hl
    rw [Vec.get_set, if_neg]
    exact ne_of_lt (lt_of_lt_of_le (Finset.mem_Iio.mp hl) hji)
  rw [lower_mulVec_apply, hbefore, Vec.get_set]
  by_cases h : j = i
  · subst h
    rw [if_pos rfl, mul_div_cancel₀ _ hi, leftSum_eq]
    exact add_sub_cancel _ _
  · rw [if_neg h, ← lower_mulVec_apply]
    exact hj (lt_of_le_of_ne hji h)

theorem upper_mulVec_set {U : Mat ℝ n n} (b x : Vec ℝ n) (i : Fin n) (hi : U i i ≠ 0) (j : Fin n) :
    i ≤ j → (i < j → (U.upper *ᵥ x.get) j = b j) →
      (U.upper *ᵥ (x.set i ((b i - rightSum U x i) / U i i)).get) j = b j := by
  intro hij hj
  have hafter : ∑ l ∈ Finset.Ioi j, U j l * x.set i ((b i - rightSum U x i) / U i i) l =
      ∑ l ∈ Finset.Ioi j, U j l * x l := by
    apply Finset.sum_congr rfl
    intro l hl
    rw [Vec.get_set, if_neg]
    exact ne_of_gt (lt_of_le_of_lt hij (Finset.mem_Ioi.mp hl))
  rw [upper_mulVec_apply, hafter, Vec.get_set]
  by_cases h : j = i
  · subst h
    rw [if_pos rfl, mul_div_cancel₀ _ hi, rightSum_eq]
    exact add_sub_cancel _ _
  · rw [if_neg h, ← upper_mulVec_apply]
    exact hj (lt_of_le_of_ne hij (Ne.symm h))

theorem lower_mulVec_solveLower {L : Mat ℝ n n} (hL : ∀ i, L i i ≠ 0) (b : Vec ℝ n) :
    L.lower *ᵥ (solveLower L b).get = b.get := by
  have h := foldl_invariant
    (fun t (x : Vec ℝ n) => ∀ j : Fin n, j.val < t → (L.lower *ᵥ x.get) j = b j)
    (f := fun x i => x.set i ((b i - leftSum L x i) / L i i)) (b := Vec.zero)
    (fun j hj => absurd hj (Nat.not_lt_zero _))
    (fun i x hx j hj => lower_mulVec_set b x i (hL i) j (Nat.lt_succ_iff.mp hj) fun h => hx j h)
  exact funext fun j => h j j.isLt

theorem upper_mulVec_solveUpper {U : Mat ℝ n n} (hU : ∀ i, U i i ≠ 0) (b : Vec ℝ n) :
    U.upper *ᵥ (solveUpper U b).get = b.get := by
  have h := foldr_invariant
    (fun t (x : Vec ℝ n) => ∀ j : Fin n, t ≤ j.val → (U.upper *ᵥ x.get) j = b j)
    (f := fun i x => x.set i ((b i - rightSum U x i) / U i i)) (b := Vec.zero)
    (fun j hj => absurd j.isLt (Nat.not_lt.mpr hj))
    (fun i x hx j hj => upper_mulVec_set b x i (hU i) j hj fun h => hx j h)
  exact funext fun j => h j (Nat.zero_le _)

theorem isLinearMap_leftSum (L : Mat ℝ n n) (i : Fin n) :
    IsLinearMap ℝ fun x : Vec ℝ n => leftSum L x i where
  map_add x y := by
    simp only [leftSum_eq, Vec.add_apply, mul_add, Finset.sum_add_distrib]
  map_smul a x := by
    simp only [leftSum_eq, Vec.smul_apply, smul_eq_mul, Finset.mul_sum, mul_left_comm a]

theorem isLinearMap_rightSum (U : Mat ℝ n n) (i : Fin n) :
    IsLinearMap ℝ fun x : Vec ℝ n => rightSum U x i where
  map_add x y := by
    simp only [rightSum_eq, Vec.add_apply, mul_add, Finset.sum_add_distrib]
  map_smul a x := by
    simp only [rightSum_eq, Vec.smul_apply, smul_eq_mul, Finset.mul_sum, mul_left_comm a]

/-- What a substitution writes for one unknown is linear in the right-hand side and the unknowns
written before. -/
theorem isLinearMap_unknown {f : Vec ℝ n → ℝ} (hf : IsLinearMap ℝ f) (d : ℝ) (i : Fin n) :
    IsLinearMap ℝ fun p : Vec ℝ n × Vec ℝ n => (p.1 i - f p.2) / d where
  map_add p q := by
    rw [Prod.fst_add, Prod.snd_add, hf.map_add, Vec.add_apply]
    ring
  map_smul a p := by
    rw [Prod.smul_fst, Prod.smul_snd, hf.map_smul, Vec.smul_apply, smul_eq_mul, smul_eq_mul]
    ring

/-- Substitution is linear in the right-hand side, whatever the diagonal. -/
theorem isLinearMap_solveLower (L : Mat ℝ n n) : IsLinearMap ℝ (solveLower L) :=
  isLinearMap_foldl fun i => Vec.isLinearMap_set isLinearMap_snd
    (isLinearMap_unknown (isLinearMap_leftSum L i) (L i i) i) i

theorem isLinearMap_solveUpper (U : Mat ℝ n n) : IsLinearMap ℝ (solveUpper U) :=
  isLinearMap_foldr fun i => Vec.isLinearMap_set isLinearMap_snd
    (isLinearMap_unknown (isLinearMap_rightSum U i) (U i i) i) i

theorem hasZeroDiagonal_eq_false {U : Mat ℝ n n} (hU : ∀ i, U i i ≠ 0) :
    hasZeroDiagonal U = false := by
  rw [hasZeroDiagonal, Vector.any_eq_false]
  intro i hi
  simp only [Scalar.same_iff]
  have h := Vec.get_ofFn (fun i => U i i) ⟨i, hi⟩
  exact fun h0 => hU ⟨i, hi⟩ (h.symm.trans h0)

end Triangular

end QuadraticProgram
