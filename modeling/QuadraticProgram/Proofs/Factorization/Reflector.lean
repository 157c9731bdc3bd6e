import QuadraticProgram.Factorization.Reflection
import QuadraticProgram.Proofs.Exact.Matrix

/-! # One reflection

Over the reals the scaled norms are the Euclidean ones. The reflection that clears a vector is an
orthogonal matrix: it leaves the entries in front alone, keeps the norm of the others and moves it
all to one entry.
-/

namespace QuadraticProgram.Reflection
open Matrix

variable {m n : ℕ}

theorem dotProduct_map_div (x : Vec ℝ m) (s : ℝ) :
    Vec.dot (x.map (· / s)) (x.map (· / s)) = x.get ⬝ᵥ x.get / (s * s) := by
  have hmap : (x.map (· / s)).get = s⁻¹ • x.get := by
    funext i
    rw [Vec.get_map, Pi.smul_apply, smul_eq_mul]
    exact div_eq_inv_mul _ _
  rw [Vec.dot_eq, hmap, smul_dotProduct, dotProduct_smul, smul_eq_mul, smul_eq_mul,
    div_eq_inv_mul, mul_inv, mul_assoc]

/-- However the norm is computed, it is the Euclidean one. -/
theorem norm_eq_sqrt (x : Vec ℝ m) : norm x = √(x.get ⬝ᵥ x.get) := by
  unfold norm
  dsimp only
  split
  · rw [Vec.dot_eq]
    rfl
  · split
    · rename_i h
      have hs : 0 < x.maxAbs := by simpa using (Bool.and_eq_true_iff.mp h).1
      rw [dotProduct_map_div]
      change x.maxAbs * √(x.get ⬝ᵥ x.get / (x.maxAbs * x.maxAbs)) = _
      rw [Real.sqrt_div (dotProduct_self_nonneg _), Real.sqrt_mul_self hs.le,
        mul_div_cancel₀ _ hs.ne']
    · rename_i h
      have hs : x.maxAbs ≤ 0 := by
        by_contra hpos
        exact h (Bool.and_eq_true_iff.mpr ⟨decide_eq_true (not_le.mp hpos), rfl⟩)
      have hx : x.get = 0 := by
        funext i
        exact abs_nonpos_iff.mp ((x.maxAbs_le_iff le_rfl).mp hs i)
      rw [hx, dotProduct_zero, Real.sqrt_zero]
      exact le_antisymm hs (Scalar.maxAbs_nonneg _)

theorem hypotenuse_eq_sqrt (a b : ℝ) : hypotenuse a b = √(a * a + b * b) := by
  have key : ∀ large small : ℝ, 0 ≤ small → small ≤ large →
      (if 0 < small then large * √(1 + small / large * (small / large)) else large) =
        √(large * large + small * small) := by
    intro large small hs hl
    by_cases hpos : 0 < small
    · have hlarge : 0 < large := hpos.trans_le hl
      have hfactor : large * large + small * small =
          large * large * (1 + small / large * (small / large)) := by
        field_simp
      rw [if_pos hpos, hfactor, Real.sqrt_mul (mul_self_nonneg _), Real.sqrt_mul_self hlarge.le]
    · have hzero : small = 0 := le_antisymm (not_lt.mp hpos) hs
      rw [if_neg hpos, hzero, mul_zero, add_zero, Real.sqrt_mul_self (hs.trans hl)]
  unfold hypotenuse
  dsimp only
  rw [Scalar.larger_eq_max]
  change (if 0 < (if |a| < |b| then |a| else |b|) then max |a| |b| *
    √(1 + (if |a| < |b| then |a| else |b|) / max |a| |b| *
      ((if |a| < |b| then |a| else |b|) / max |a| |b|)) else max |a| |b|) = _
  rw [← abs_mul_abs_self a, ← abs_mul_abs_self b]
  by_cases h : |a| < |b|
  · rw [if_pos h, max_eq_right h.le, key _ _ (abs_nonneg a) h.le, add_comm]
  · have h := not_lt.mp h
    rw [if_neg (not_lt.mpr h), max_eq_left h, key _ _ (abs_nonneg b) h]

theorem norm_tail (x : Vec ℝ m) (j : ℕ) : norm (tail x j) = √(tailSq x.get j) := by
  rw [norm_eq_sqrt, tailSq, dotProduct]
  congr 1
  apply Finset.sum_congr rfl
  intro i _
  rw [tail, Vec.get_ofFn]
  split
  · exact mul_zero _
  · rfl

namespace Reflector

/-- The matrix of a reflection. -/
noncomputable def toMatrix (h : Reflector ℝ m) : Matrix (Fin m) (Fin m) ℝ :=
  1 - h.weight • vecMulVec h.normal.get h.normal.get

theorem toMatrix_mulVec (h : Reflector ℝ m) (x : Fin m → ℝ) :
    h.toMatrix *ᵥ x = x - (h.weight * (h.normal.get ⬝ᵥ x)) • h.normal.get := by
  rw [toMatrix, sub_mulVec, one_mulVec, smul_mulVec, vecMulVec_mulVec, op_smul_eq_smul, smul_smul]

theorem toMatrix_applyCols (h : Reflector ℝ m) (A : Mat ℝ m n) :
    (h.applyCols A).toMatrix = h.toMatrix * A.toMatrix := by
  ext i c
  have hcol := congrFun (h.toMatrix_mulVec (A.toMatrixᵀ c)) i
  refine Eq.trans ?_ hcol.symm
  rw [Mat.toMatrix_apply, applyCols, Mat.get_ofFn, Vec.get_ofFn, Scalar.sum_eq]
  change A i c + h.normal i * (-h.weight * (h.normal.get ⬝ᵥ A.toMatrixᵀ c)) =
    A i c - h.weight * (h.normal.get ⬝ᵥ A.toMatrixᵀ c) * h.normal i
  ring

/-- A reflection that clears a vector behind a position. -/
structure Clears (h : Reflector ℝ m) (x : Vec ℝ m) (j : Fin m) : Prop where
  weight : h.weight * (h.weight * (h.normal.get ⬝ᵥ h.normal.get) - 2) = 0
  normal_before : ∀ i < j, h.normal i = 0
  image_eq : (h.toMatrix *ᵥ x.get) j = image x j
  cleared : ∀ i, j < i → (h.toMatrix *ᵥ x.get) i = 0

variable {x : Vec ℝ m} {j : Fin m} {h : Reflector ℝ m}

theorem Clears.toMatrix_mul_self (hc : h.Clears x j) : h.toMatrix * h.toMatrix = 1 := by
  have hsq : vecMulVec h.normal.get h.normal.get * vecMulVec h.normal.get h.normal.get =
      (h.normal.get ⬝ᵥ h.normal.get) • vecMulVec h.normal.get h.normal.get := by
    rw [vecMulVec_mul_vecMulVec, vecMulVec_smul]
  have hexpand : h.toMatrix * h.toMatrix = 1 + (h.weight * (h.weight *
      (h.normal.get ⬝ᵥ h.normal.get) - 2)) • vecMulVec h.normal.get h.normal.get := by
    rw [toMatrix, Matrix.sub_mul, Matrix.one_mul, Matrix.mul_sub, Matrix.mul_one, smul_mul_smul,
      hsq]
    module
  rw [hexpand, hc.weight, zero_smul, add_zero]

theorem toMatrix_transpose (h : Reflector ℝ m) : h.toMatrixᵀ = h.toMatrix := by
  rw [toMatrix, transpose_sub, transpose_one, transpose_smul, transpose_vecMulVec]

/-- A reflection keeps the entries in front of the position. -/
theorem Clears.mulVec_before (hc : h.Clears x j) (y : Fin m → ℝ) {i : Fin m} (hi : i < j) :
    (h.toMatrix *ᵥ y) i = y i := by
  rw [toMatrix_mulVec, Pi.sub_apply, Pi.smul_apply, hc.normal_before i hi, smul_zero, sub_zero]

/-- It moves no vector that ends before the position. -/
theorem Clears.mulVec_of_zero (hc : h.Clears x j) {y : Fin m → ℝ} (hy : ∀ i, j ≤ i → y i = 0) :
    h.toMatrix *ᵥ y = y := by
  have hdot : h.normal.get ⬝ᵥ y = 0 := by
    apply Finset.sum_eq_zero
    intro i _
    rcases lt_or_ge i j with hi | hi
    · rw [hc.normal_before i hi, zero_mul]
    · rw [hy i hi, mul_zero]
  rw [toMatrix_mulVec, hdot, mul_zero, zero_smul, sub_zero]

theorem Clears.dotProduct_self (hc : h.Clears x j) (y : Fin m → ℝ) :
    (h.toMatrix *ᵥ y) ⬝ᵥ (h.toMatrix *ᵥ y) = y ⬝ᵥ y := by
  rw [dotProduct_mulVec, ← mulVec_transpose, toMatrix_transpose, mulVec_mulVec,
    hc.toMatrix_mul_self, one_mulVec]

/-- It keeps the squares from every position on up to its own. -/
theorem Clears.tailSq_mulVec (hc : h.Clears x j) (y : Fin m → ℝ) {k : ℕ} (hk : k ≤ j) :
    tailSq (h.toMatrix *ᵥ y) k = tailSq y k := by
  have hfront : (∑ i : Fin m, if i.val < k then
      (h.toMatrix *ᵥ y) i * (h.toMatrix *ᵥ y) i else 0) =
      ∑ i : Fin m, if i.val < k then y i * y i else 0 := by
    apply Finset.sum_congr rfl
    intro i _
    by_cases hi : i.val < k
    · rw [hc.mulVec_before y (Fin.lt_def.mpr (hi.trans_le hk))]
    · rw [if_neg hi, if_neg hi]
  have hboth := hc.dotProduct_self y
  rw [dotProduct_self_eq_add_tailSq _ k, dotProduct_self_eq_add_tailSq y k, hfront] at hboth
  exact add_left_cancel hboth

theorem image_of_pos {below : ℝ} (hb : norm (tail x (j + 1)) = below) (h : 0 < below) :
    image x j = if x j < 0 then hypotenuse (x j) below else -hypotenuse (x j) below := by
  unfold image
  dsimp only
  rw [hb, if_pos h]

theorem image_of_tailSq (h : tailSq x.get (j + 1) = 0) : image x j = x j := by
  unfold image
  dsimp only
  rw [norm_tail, h, Real.sqrt_zero]
  exact if_neg (lt_irrefl _)

/-- The image has all of the norm. -/
theorem image_mul_self (x : Vec ℝ m) (j : Fin m) : image x j * image x j = tailSq x.get j := by
  have hb := norm_tail x (j + 1)
  have hsq : √(tailSq x.get (j + 1)) * √(tailSq x.get (j + 1)) = tailSq x.get (j + 1) :=
    Real.mul_self_sqrt (tailSq_nonneg _ _)
  rcases (tailSq_nonneg x.get (j + 1)).eq_or_lt with h | h
  · rw [image_of_tailSq h.symm, tailSq_succ, ← h, add_zero]
  · rw [image_of_pos hb (Real.sqrt_pos.mpr h), hypotenuse_eq_sqrt, hsq, ← tailSq_succ]
    have hs := Real.mul_self_sqrt (tailSq_nonneg x.get j)
    split
    · exact hs
    · exact (neg_mul_neg _ _).trans hs

/-- The image has the opposite sign, so nothing is lost by taking the difference. -/
theorem image_ne {x : Vec ℝ m} (h : 0 < tailSq x.get (j + 1)) : image x j ≠ x j := by
  have hlarge : 0 < √(tailSq x.get j) := by
    rw [Real.sqrt_pos, tailSq_succ]
    exact add_pos_of_nonneg_of_pos (mul_self_nonneg _) h
  have hsq : √(tailSq x.get (j + 1)) * √(tailSq x.get (j + 1)) = tailSq x.get (j + 1) :=
    Real.mul_self_sqrt (tailSq_nonneg _ _)
  rw [image_of_pos (norm_tail x (j + 1)) (Real.sqrt_pos.mpr h), hypotenuse_eq_sqrt, hsq,
    ← tailSq_succ]
  by_cases hneg : x j < 0
  · rw [if_pos hneg]
    exact (lt_trans hneg hlarge).ne'
  · rw [if_neg hneg]
    exact (lt_of_lt_of_le (neg_neg_of_pos hlarge) (not_lt.mp hneg)).ne

theorem tailSq_map_mul (x : Vec ℝ m) (k : ℝ) (j : ℕ) :
    tailSq (x.map (· * k)).get j = k * k * tailSq x.get j := by
  rw [tailSq, tailSq, Finset.mul_sum]
  apply Finset.sum_congr rfl
  intro i _
  rw [Vec.get_map]
  split
  · rw [mul_zero]
  · exact mul_mul_mul_comm _ _ _ _ |>.trans (mul_comm _ _)

theorem image_map_mul (x : Vec ℝ m) (j : Fin m) {k : ℝ} (hk : 0 < k) :
    image (x.map (· * k)) j = k * image x j := by
  have hscaled := tailSq_map_mul x k
  have hroot : √(k * k * tailSq x.get j) = k * √(tailSq x.get j) := by
    rw [Real.sqrt_mul (mul_self_nonneg k), Real.sqrt_mul_self hk.le]
  rcases (tailSq_nonneg x.get (j + 1)).eq_or_lt with h | h
  · rw [image_of_tailSq h.symm, image_of_tailSq (by rw [hscaled, ← h, mul_zero]), Vec.get_map]
    exact mul_comm _ _
  · have h' : 0 < tailSq (x.map (· * k)).get (j + 1) := by
      rw [hscaled]
      exact mul_pos (mul_pos hk hk) h
    rw [image_of_pos (norm_tail x _) (Real.sqrt_pos.mpr h),
      image_of_pos (norm_tail _ _) (Real.sqrt_pos.mpr h'), hypotenuse_eq_sqrt, hypotenuse_eq_sqrt,
      Real.mul_self_sqrt h.le, Real.mul_self_sqrt h'.le, ← tailSq_succ, ← tailSq_succ, hscaled,
      hroot, Vec.get_map]
    change (if x j * k < 0 then k * √(tailSq x.get j) else -(k * √(tailSq x.get j))) =
      k * if x j < 0 then √(tailSq x.get j) else -√(tailSq x.get j)
    by_cases hneg : x j < 0
    · rw [if_pos hneg, if_pos (mul_neg_of_neg_of_pos hneg hk)]
    · rw [if_neg hneg, if_neg (not_lt.mpr (mul_nonneg (not_lt.mp hneg) hk.le)), mul_neg]

theorem lift_pos : (0 : ℝ) < lift := by
  rw [lift]
  generalize 969 = e
  exact Nat.cast_pos.mpr (Nat.pow_pos Nat.zero_lt_two)

/-- The reflection that clears a vector, without a change of its length. -/
noncomputable def direct (x : Vec ℝ m) (j : Fin m) : Reflector ℝ m :=
  if Scalar.same (image x j) (x j) then
    { normal := Vec.ofFn fun i => if i = j then 1 else 0, weight := 0 }
  else
    { normal := Vec.ofFn fun i =>
        if i = j then 1 else if i < j then 0 else 1 / (x j - image x j) * x i
      weight := (image x j - x j) / image x j }

theorem clearing_eq_direct (x : Vec ℝ m) (j : Fin m) :
    ∃ k, 0 < k ∧ clearing x j = direct (x.map (· * k)) j := by
  by_cases h : Scalar.abs (image x j) * lift < 1
  · refine ⟨lift, lift_pos, ?_⟩
    unfold clearing
    rw [if_pos h]
    rfl
  · refine ⟨1, one_pos, ?_⟩
    have hone : x.map (· * 1) = x := Vec.ext_get fun i => by
      rw [Vec.get_map]
      exact mul_one _
    unfold clearing
    rw [if_neg h, hone]
    rfl

theorem sum_at_and_behind (j : Fin m) (a b : Fin m → ℝ) :
    (∑ i, if i = j then a i else if i < j then 0 else b i) =
      a j + ∑ i : Fin m, if i.val < j + 1 then 0 else b i := by
  have hj : a j = ∑ i, if i = j then a i else 0 := by
    rw [Finset.sum_ite_eq' Finset.univ j a, if_pos (Finset.mem_univ j)]
  rw [hj, ← Finset.sum_add_distrib]
  apply Finset.sum_congr rfl
  intro i _
  by_cases hi : i = j
  · rw [if_pos hi, if_pos hi, hi, if_pos (Nat.lt_succ_self _), add_zero]
  · rw [if_neg hi, if_neg hi, zero_add]
    refine if_congr ?_ rfl rfl
    rw [Fin.lt_def]
    have := fun h : i.val = j.val => hi (Fin.ext h)
    omega

/-- The product of the normal with a vector is its image with the opposite sign. -/
theorem direct_dotProduct (x : Vec ℝ m) (j : Fin m) {v : Vec ℝ m} (hne : image x j ≠ x j)
    (hv : v = Vec.ofFn fun i =>
      if i = j then 1 else if i < j then 0 else 1 / (x j - image x j) * x i) :
    v.get ⬝ᵥ x.get = -image x j ∧
      (x j - image x j) * (v.get ⬝ᵥ v.get) = -2 * image x j := by
  have hd : x j - image x j ≠ 0 := sub_ne_zero.mpr hne.symm
  have hsq := image_mul_self x j
  rw [tailSq_succ] at hsq
  have hvx : v.get ⬝ᵥ x.get = x j + 1 / (x j - image x j) * tailSq x.get (j + 1) := by
    rw [tailSq, Finset.mul_sum, dotProduct]
    simp only [hv, Vec.get_ofFn, ite_mul, one_mul, zero_mul, mul_ite, mul_zero]
    rw [sum_at_and_behind]
    simp only [mul_assoc]
  have hvv : v.get ⬝ᵥ v.get = 1 + 1 / (x j - image x j) * (1 / (x j - image x j)) *
      tailSq x.get (j + 1) := by
    have hterm : ∀ i, v i * v i = if i = j then 1 else if i < j then 0 else
        1 / (x j - image x j) * (1 / (x j - image x j)) * (x i * x i) := by
      intro i
      rw [hv, Vec.get_ofFn]
      split
      · exact one_mul 1
      · split
        · exact zero_mul 0
        · exact mul_mul_mul_comm _ _ _ _
    rw [tailSq, Finset.mul_sum, dotProduct, Finset.sum_congr rfl fun i _ => hterm i,
      sum_at_and_behind]
    simp only [mul_ite, mul_zero]
  have htail : tailSq x.get (j + 1) = -(x j - image x j) * (x j + image x j) := by
    linear_combination -hsq
  rw [hvx, hvv, htail]
  constructor
  · field_simp
    ring
  · field_simp
    ring

theorem direct_of_eq {x : Vec ℝ m} {j : Fin m} (h : image x j = x j) :
    direct x j = { normal := Vec.ofFn fun i => if i = j then 1 else 0, weight := 0 } :=
  if_pos ((Scalar.same_iff _ _).mpr h)

theorem direct_of_ne {x : Vec ℝ m} {j : Fin m} (h : image x j ≠ x j) :
    direct x j =
      { normal := Vec.ofFn fun i =>
          if i = j then 1 else if i < j then 0 else 1 / (x j - image x j) * x i
        weight := (image x j - x j) / image x j } :=
  if_neg fun h' => h ((Scalar.same_iff _ _).mp h')

/-- A vector that is its own image has nothing to clear. -/
theorem direct_clears_of_eq {x : Vec ℝ m} {j : Fin m} (h : image x j = x j) :
    (direct x j).Clears x j := by
  have hzero : tailSq x.get (j + 1) = 0 := by
    by_contra hne
    exact image_ne (lt_of_le_of_ne (tailSq_nonneg _ _) (Ne.symm hne)) h
  have hid : (direct x j).toMatrix *ᵥ x.get = x.get := by
    rw [toMatrix_mulVec, direct_of_eq h]
    simp
  refine ⟨?_, fun i hi => ?_, ?_, fun i hi => ?_⟩
  · rw [direct_of_eq h]
    exact zero_mul _
  · rw [direct_of_eq h, Vec.get_ofFn, if_neg hi.ne]
  · rw [hid, h]
  · rw [hid]
    exact eq_zero_of_tailSq hzero.le (Nat.succ_le_of_lt hi)

theorem image_ne_zero {x : Vec ℝ m} {j : Fin m} (h : image x j ≠ x j) : image x j ≠ 0 := by
  intro h0
  have hsq := image_mul_self x j
  rw [h0, mul_zero] at hsq
  exact h (h0.trans (eq_zero_of_tailSq hsq.ge le_rfl).symm)

theorem direct_clears_of_ne {x : Vec ℝ m} {j : Fin m} (h : image x j ≠ x j) :
    (direct x j).Clears x j := by
  have hd : x j - image x j ≠ 0 := sub_ne_zero.mpr h.symm
  have hi0 := image_ne_zero h
  obtain ⟨hvx, hvv⟩ := direct_dotProduct x j h (v := (direct x j).normal) (by rw [direct_of_ne h])
  have hweight : (direct x j).weight = (image x j - x j) / image x j := by rw [direct_of_ne h]
  have hstep : (direct x j).weight * ((direct x j).normal.get ⬝ᵥ x.get) = x j - image x j := by
    rw [hweight, hvx, mul_neg, div_mul_cancel₀ _ hi0, neg_sub]
  refine ⟨?_, fun i hi => ?_, ?_, fun i hi => ?_⟩
  · have htwo : (direct x j).weight *
        ((direct x j).normal.get ⬝ᵥ (direct x j).normal.get) = 2 := by
      rw [hweight]
      field_simp
      linear_combination -hvv
    rw [htwo, sub_self, mul_zero]
  · rw [direct_of_ne h, Vec.get_ofFn, if_neg hi.ne, if_pos hi]
  · rw [toMatrix_mulVec, hstep, direct_of_ne h, Pi.sub_apply, Pi.smul_apply, Vec.get_ofFn,
      if_pos rfl]
    exact (congrArg (x j - ·) (mul_one _)).trans (sub_sub_cancel _ _)
  · rw [toMatrix_mulVec, hstep, direct_of_ne h, Pi.sub_apply, Pi.smul_apply, Vec.get_ofFn,
      if_neg hi.ne', if_neg (not_lt.mpr hi.le), smul_eq_mul, ← mul_assoc, mul_one_div_cancel hd,
      one_mul, sub_self]

theorem direct_clears (x : Vec ℝ m) (j : Fin m) : (direct x j).Clears x j := by
  by_cases h : image x j = x j
  · exact direct_clears_of_eq h
  · exact direct_clears_of_ne h

/-- The reflection of a longer vector clears the vector itself. -/
theorem Clears.of_map_mul {h : Reflector ℝ m} {k : ℝ} (hk : 0 < k)
    (hc : h.Clears (x.map (· * k)) j) : h.Clears x j := by
  have hmap : (x.map (· * k)).get = k • x.get := by
    funext i
    rw [Vec.get_map]
    exact mul_comm _ _
  have himage := hc.image_eq
  rw [hmap, mulVec_smul, image_map_mul x j hk] at himage
  refine ⟨hc.weight, hc.normal_before, mul_left_cancel₀ hk.ne' himage, fun i hi => ?_⟩
  have hzero := hc.cleared i hi
  rw [hmap, mulVec_smul] at hzero
  exact (mul_eq_zero.mp hzero).resolve_left hk.ne'

theorem clearing_clears (x : Vec ℝ m) (j : Fin m) : (clearing x j).Clears x j := by
  obtain ⟨k, hk, hclearing⟩ := clearing_eq_direct x j
  rw [hclearing]
  exact (direct_clears _ j).of_map_mul hk

end Reflector

end QuadraticProgram.Reflection
