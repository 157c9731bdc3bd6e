import Mathlib.Algebra.Order.Star.Real
import Mathlib.LinearAlgebra.Matrix.PosDef
import QuadraticProgram.Proofs.Exact.Scalar

/-! # Vectors and matrices of real numbers

A real vector is read as a function and a real matrix as a matrix of the linear algebra library.
Each operation has one equation under this reading; nothing after this module looks at entries to
find out what an operation does.
-/

namespace QuadraticProgram
open Matrix

theorem dotProduct_self_nonneg {n : ℕ} (x : Fin n → ℝ) : 0 ≤ x ⬝ᵥ x := dotProduct_star_self_nonneg x

theorem dotProduct_self_pos {n : ℕ} {x : Fin n → ℝ} (hx : x ≠ 0) : 0 < x ⬝ᵥ x :=
  lt_of_le_of_ne (dotProduct_self_nonneg x) fun h => hx (dotProduct_self_eq_zero.mp h.symm)

/-- The inequality of Cauchy and Schwarz. -/
theorem sq_dotProduct_le {n : ℕ} (v w : Fin n → ℝ) : (v ⬝ᵥ w) ^ 2 ≤ (v ⬝ᵥ v) * (w ⬝ᵥ w) := by
  have h := Finset.sum_mul_sq_le_sq_mul_sq Finset.univ v w
  simpa only [sq, dotProduct] using h

/-- A matrix that shortens no vector too much sends none to zero. -/
theorem eq_zero_of_mulVec_of_le {m n : ℕ} {B : Matrix (Fin m) (Fin n) ℝ} {lower : ℝ}
    (hl : 0 < lower) (hB : ∀ v, lower * (v ⬝ᵥ v) ≤ (B *ᵥ v) ⬝ᵥ (B *ᵥ v)) {v : Fin n → ℝ}
    (hv : B *ᵥ v = 0) : v = 0 := by
  by_contra hne
  have hle := hB v
  rw [hv, zero_dotProduct] at hle
  exact (mul_pos hl (dotProduct_self_pos hne)).not_ge hle

/-- Orthonormal columns keep inner products. -/
theorem dotProduct_mulVec_mulVec {m n : ℕ} {B : Matrix (Fin m) (Fin n) ℝ} (hB : Bᵀ * B = 1)
    (v w : Fin n → ℝ) : (B *ᵥ v) ⬝ᵥ (B *ᵥ w) = v ⬝ᵥ w := by
  rw [dotProduct_mulVec, ← mulVec_transpose, mulVec_mulVec, hB, one_mulVec]

theorem diagonal_mulVec_eq {n : ℕ} (s v : Fin n → ℝ) : diagonal s *ᵥ v = s * v := by
  ext i
  rw [mulVec_diagonal, Pi.mul_apply]

section Weights

variable {n : ℕ} {d : Fin n → ℝ} {lo hi : ℝ}

/-- Weights move from one factor to the other. -/
theorem dotProduct_mul_right (d v w : Fin n → ℝ) : v ⬝ᵥ (d * w) = (d * v) ⬝ᵥ w := by
  apply Finset.sum_congr rfl
  intro i _
  rw [Pi.mul_apply, Pi.mul_apply, mul_left_comm, mul_assoc]

theorem dotProduct_mul_le (hd : ∀ i, d i ≤ hi) (v : Fin n → ℝ) :
    v ⬝ᵥ (d * v) ≤ hi * (v ⬝ᵥ v) := by
  rw [dotProduct_mul_right, dotProduct, dotProduct, Finset.mul_sum]
  apply Finset.sum_le_sum
  intro i _
  rw [Pi.mul_apply, mul_assoc]
  exact mul_le_mul_of_nonneg_right (hd i) (mul_self_nonneg _)

theorem le_dotProduct_mul (hd : ∀ i, lo ≤ d i) (v : Fin n → ℝ) :
    lo * (v ⬝ᵥ v) ≤ v ⬝ᵥ (d * v) := by
  rw [dotProduct_mul_right, dotProduct, dotProduct, Finset.mul_sum]
  apply Finset.sum_le_sum
  intro i _
  rw [Pi.mul_apply, mul_assoc]
  exact mul_le_mul_of_nonneg_right (hd i) (mul_self_nonneg _)

/-- What weights make of a vector is as long as their squares say. -/
theorem dotProduct_mul_self (d v : Fin n → ℝ) : (d * v) ⬝ᵥ (d * v) = v ⬝ᵥ ((d * d) * v) := by
  rw [← dotProduct_mul_right, mul_assoc]

end Weights

section Tail

variable {m : ℕ}

/-- The sum of the squares of the entries from a position on. -/
noncomputable def tailSq (x : Fin m → ℝ) (j : ℕ) : ℝ := ∑ i, if i.val < j then 0 else x i * x i

theorem tailSq_nonneg (x : Fin m → ℝ) (j : ℕ) : 0 ≤ tailSq x j := by
  apply Finset.sum_nonneg
  intro i _
  split
  · exact le_refl 0
  · exact mul_self_nonneg _

theorem tailSq_zero (x : Fin m → ℝ) : tailSq x 0 = x ⬝ᵥ x := by
  simp [tailSq, dotProduct]

theorem tailSq_succ (x : Fin m → ℝ) (j : Fin m) :
    tailSq x j = x j * x j + tailSq x (j + 1) := by
  rw [tailSq, tailSq, ← Finset.add_sum_erase _ _ (Finset.mem_univ j),
    ← Finset.add_sum_erase _ (fun i : Fin m => if i.val < j + 1 then 0 else x i * x i)
      (Finset.mem_univ j), if_neg (lt_irrefl _), if_pos (Nat.lt_succ_self _), zero_add]
  congr 1
  apply Finset.sum_congr rfl
  intro i hi
  have hne : i.val ≠ j.val := fun h => Finset.ne_of_mem_erase hi (Fin.ext h)
  refine if_congr ?_ rfl rfl
  omega

/-- The squares in front and from a position on make up all squares. -/
theorem dotProduct_self_eq_add_tailSq (x : Fin m → ℝ) (j : ℕ) :
    x ⬝ᵥ x = (∑ i, if i.val < j then x i * x i else 0) + tailSq x j := by
  rw [dotProduct, tailSq, ← Finset.sum_add_distrib]
  apply Finset.sum_congr rfl
  intro i _
  split
  · rw [add_zero]
  · rw [zero_add]

theorem mul_self_le_tailSq (x : Fin m → ℝ) {i : Fin m} {j : ℕ} (h : j ≤ i) :
    x i * x i ≤ tailSq x j := by
  have hi : (if i.val < j then 0 else x i * x i) = x i * x i := if_neg (not_lt.mpr h)
  rw [← hi]
  refine Finset.single_le_sum (f := fun i : Fin m => if i.val < j then 0 else x i * x i)
    (fun k _ => ?_) (Finset.mem_univ i)
  split
  · exact le_refl 0
  · exact mul_self_nonneg _

theorem eq_zero_of_tailSq {x : Fin m → ℝ} {j : ℕ} (h : tailSq x j ≤ 0) {i : Fin m}
    (hi : j ≤ i) : x i = 0 := by
  have hle := (mul_self_le_tailSq x hi).trans h
  exact mul_self_eq_zero.mp (le_antisymm hle (mul_self_nonneg _))

end Tail

section Append

variable {n k : ℕ}

/-- Stacked vectors are compared part by part. -/
theorem append_ext {v w : Fin (n + k) → ℝ} (hfirst : ∀ i, v (Fin.castAdd k i) = w (Fin.castAdd k i))
    (hsecond : ∀ j, v (Fin.natAdd n j) = w (Fin.natAdd n j)) : v = w := by
  funext i
  exact Fin.addCases hfirst hsecond i

theorem append_eq_append_iff (x x' : Fin n → ℝ) (y y' : Fin k → ℝ) :
    Fin.append x y = Fin.append x' y' ↔ x = x' ∧ y = y' := by
  constructor
  · intro h
    constructor
    · funext i
      simpa only [Fin.append_left] using congrFun h (i.castAdd k)
    · funext i
      simpa only [Fin.append_right] using congrFun h (i.natAdd n)
  · rintro ⟨rfl, rfl⟩
    rfl

theorem append_dotProduct (x x' : Fin n → ℝ) (y y' : Fin k → ℝ) :
    Fin.append x y ⬝ᵥ Fin.append x' y' = x ⬝ᵥ x' + y ⬝ᵥ y' := by
  simp only [dotProduct, Fin.sum_univ_add, Fin.append_left, Fin.append_right]

end Append

namespace Vec

variable {m n k : ℕ}

theorem coe_injective : Function.Injective (get : Vec ℝ n → Fin n → ℝ) :=
  fun _ _ h => ext_get (congrFun h)

@[simp] theorem coe_ofFn {α : Type} (f : Fin n → α) : (ofFn f).get = f := funext (get_ofFn f)

@[simp] theorem coe_zero : (zero : Vec ℝ n).get = 0 := funext get_zero

@[simp] theorem coe_add (x y : Vec ℝ n) : (x.add y).get = x.get + y.get := funext (get_add x y)

@[simp] theorem coe_sub (x y : Vec ℝ n) : (x.sub y).get = x.get - y.get := funext (get_sub x y)

@[simp] theorem coe_neg (x : Vec ℝ n) : x.neg.get = -x.get := funext (get_neg x)

@[simp] theorem coe_mul (x y : Vec ℝ n) : (x.mul y).get = x.get * y.get := funext (get_mul x y)

@[simp] theorem coe_div (x y : Vec ℝ n) : (x.div y).get = x.get / y.get := funext (get_div x y)

@[simp] theorem coe_select (x : Vec ℝ n) (positions : Vec (Fin n) k) :
    (x.select positions).get = x.get ∘ positions.get := funext (get_select x positions)

@[simp] theorem coe_append (x : Vec ℝ m) (y : Vec ℝ n) :
    (x.append y).get = Fin.append x.get y.get := by
  funext i
  refine Fin.addCases (fun i => ?_) (fun i => ?_) i
  · rw [get_append_castAdd, Fin.append_left]
  · rw [get_append_natAdd, Fin.append_right]

theorem dot_eq (x y : Vec ℝ n) : dot x y = x.get ⬝ᵥ y.get := Scalar.sum_eq _

theorem norm_eq (x : Vec ℝ n) : x.norm = √(x.get ⬝ᵥ x.get) :=
  congrArg Real.sqrt (Scalar.sum_eq _)

theorem norm_lt_norm_iff (x y : Vec ℝ n) : x.norm < y.norm ↔ x.get ⬝ᵥ x.get < y.get ⬝ᵥ y.get := by
  rw [norm_eq, norm_eq]
  exact Real.sqrt_lt_sqrt_iff (dotProduct_self_nonneg x.get)

@[simp] theorem isFinite_eq_true (x : Vec ℝ n) : x.isFinite = true := by
  rw [isFinite, Vector.all_eq_true]
  exact fun _ _ => rfl

theorem maxAbs_le_iff (x : Vec ℝ n) {t : ℝ} (ht : 0 ≤ t) : x.maxAbs ≤ t ↔ ∀ i, |x i| ≤ t :=
  Scalar.maxAbs_le_iff x.get ht

/-- Positions that are all different receive their values. -/
theorem scatter_apply {p : Vec (Fin n) k} (hp : Function.Injective p.get) (v : Vec ℝ k)
    (i : Fin k) : scatter p v (p i) = v i := by
  -- after `t` steps the first `t` positions hold their values, and later steps go elsewhere
  have h := foldl_invariant (fun t (x : Vec ℝ n) => ∀ i : Fin k, i < t → x (p i) = v i)
    (f := fun x i => x.set (p i) (v i)) (b := Vec.zero) (fun i hi => absurd hi (Nat.not_lt_zero _))
    (fun t x hx i hi => by
      rw [get_set]
      by_cases h : i = t
      · rw [h, if_pos rfl]
      · rw [if_neg fun e => h (hp e)]
        exact hx i (by omega))
  exact h i i.isLt

/-- All other positions are zero. -/
theorem scatter_apply_of_notMem {p : Vec (Fin n) k} {j : Fin n} (hj : j ∉ Set.range p.get)
    (v : Vec ℝ k) : scatter p v j = 0 := by
  refine foldl_invariant (fun _ (x : Vec ℝ n) => x j = 0) (congrFun coe_zero j) ?_
  intro t x hx
  rw [get_set, if_neg fun h => hj ⟨t, h.symm⟩]
  exact hx

/-- A vector that is zero elsewhere is given by its values at the positions. -/
theorem scatter_select {p : Vec (Fin n) k} (hp : Function.Injective p.get) {x : Vec ℝ n}
    (hx : ∀ j, j ∉ Set.range p.get → x j = 0) : scatter p (x.select p) = x := by
  apply ext_get
  intro j
  by_cases hj : j ∈ Set.range p.get
  · rcases hj with ⟨i, rfl⟩
    rw [scatter_apply hp, get_select]
  · rw [scatter_apply_of_notMem hj, hx j hj]

/-- A matrix sees only the columns at the positions written. -/
theorem mulVec_scatter (A : Matrix (Fin m) (Fin n) ℝ) {p : Vec (Fin n) k}
    (hp : Function.Injective p.get) (v : Vec ℝ k) :
    A *ᵥ (scatter p v).get = A.submatrix id p.get *ᵥ v.get := by
  funext i
  change ∑ j, A i j * scatter p v j = ∑ l, A i (p l) * v l
  symm
  refine Finset.sum_of_injOn p.get hp.injOn (fun _ _ => Finset.mem_coe.mpr (Finset.mem_univ _))
    ?_ ?_
  · intro j _ hj
    rw [scatter_apply_of_notMem fun ⟨l, hl⟩ => hj ⟨l, Finset.mem_coe.mpr (Finset.mem_univ l), hl⟩,
      mul_zero]
  · intro l _
    rw [scatter_apply hp]

end Vec

namespace Mat

variable {m n k : ℕ}

/-- The matrix of the linear algebra library with the same entries. -/
def toMatrix (A : Mat ℝ m n) : Matrix (Fin m) (Fin n) ℝ := Matrix.of A.get

@[simp] theorem toMatrix_apply (A : Mat ℝ m n) (i : Fin m) (j : Fin n) :
    A.toMatrix i j = A i j := rfl

theorem toMatrix_injective : Function.Injective (toMatrix : Mat ℝ m n → _) :=
  fun _ _ h => ext_get fun i j => congrFun (congrFun h i) j

@[simp] theorem toMatrix_ofFn (f : Fin m → Fin n → ℝ) : (ofFn f).toMatrix = Matrix.of f := by
  ext i j
  exact get_ofFn f i j

/-- A matrix of the linear algebra library as a stored one. -/
def ofMatrix (B : Matrix (Fin m) (Fin n) ℝ) : Mat ℝ m n := ofFn fun i j => B i j

@[simp] theorem get_ofMatrix (B : Matrix (Fin m) (Fin n) ℝ) (i : Fin m) (j : Fin n) :
    ofMatrix B i j = B i j := get_ofFn _ i j

@[simp] theorem toMatrix_ofMatrix (B : Matrix (Fin m) (Fin n) ℝ) : (ofMatrix B).toMatrix = B :=
  toMatrix_ofFn _

@[simp] theorem toMatrix_zero : (zero : Mat ℝ m n).toMatrix = 0 := by
  ext i j
  exact get_zero i j

@[simp] theorem toMatrix_transpose (A : Mat ℝ m n) : A.transpose.toMatrix = A.toMatrixᵀ := by
  ext i j
  exact get_transpose A i j

@[simp] theorem toMatrix_selectRows (A : Mat ℝ m n) (rows : Vec (Fin m) k) :
    (A.selectRows rows).toMatrix = A.toMatrix.submatrix rows.get id := by
  ext i j
  exact get_selectRows A rows i j

@[simp] theorem coe_row (A : Mat ℝ m n) (i : Fin m) : (A.row i).get = A.toMatrix i := rfl

@[simp] theorem coe_mulVec (A : Mat ℝ m n) (x : Vec ℝ n) :
    (A.mulVec x).get = A.toMatrix *ᵥ x.get := by
  funext i
  rw [get_mulVec, Scalar.sum_eq]
  rfl

@[simp] theorem coe_transposeMulVec (A : Mat ℝ m n) (y : Vec ℝ m) :
    (A.transposeMulVec y).get = A.toMatrixᵀ *ᵥ y.get := by
  funext j
  rw [get_transposeMulVec, Scalar.sum_eq]
  rfl

theorem mulVec_eq_iff (A : Mat ℝ m n) (x : Vec ℝ n) (b : Vec ℝ m) :
    A.mulVec x = b ↔ A.toMatrix *ᵥ x.get = b.get := by
  rw [← Vec.coe_injective.eq_iff, coe_mulVec]

@[simp] theorem isFinite_eq_true (A : Mat ℝ m n) : A.isFinite = true := by
  rw [isFinite, Vector.all_eq_true]
  exact fun i hi => Vec.isFinite_eq_true _

end Mat

end QuadraticProgram
