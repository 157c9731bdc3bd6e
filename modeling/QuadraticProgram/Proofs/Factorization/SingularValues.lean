import Mathlib.Analysis.InnerProductSpace.SingularValues
import QuadraticProgram.Proofs.Factorization.Exact

/-! # Every real matrix has an exact singular value decomposition

The right singular vectors are the eigenvectors of the product of the map with its adjoint. Their
images are orthogonal, and those that do not vanish are extended to a basis.
-/

namespace QuadraticProgram
open Matrix Module
open scoped InnerProductSpace

section Bases

variable {E H : Type} [NormedAddCommGroup E] [InnerProductSpace ℝ E] [FiniteDimensional ℝ E]
  [NormedAddCommGroup H] [InnerProductSpace ℝ H] [FiniteDimensional ℝ H] {m n : ℕ}

/-- The right singular vectors of a map. -/
noncomputable def rightVectors (T : E →ₗ[ℝ] H) (hn : finrank ℝ E = n) :
    OrthonormalBasis (Fin n) ℝ E :=
  T.isSymmetric_adjoint_comp_self.eigenvectorBasis hn

theorem inner_map_rightVectors (T : E →ₗ[ℝ] H) (hn : finrank ℝ E = n) (i j : Fin n) :
    ⟪T (rightVectors T hn i), T (rightVectors T hn j)⟫_ℝ =
      if i = j then T.singularValues j ^ 2 else 0 := by
  have heigen := T.isSymmetric_adjoint_comp_self.apply_eigenvectorBasis hn j
  rw [← T.sq_singularValues_fin hn] at heigen
  change LinearMap.adjoint T (T (rightVectors T hn j)) = _ at heigen
  rw [← LinearMap.adjoint_inner_right, heigen, inner_smul_right]
  change _ * ⟪rightVectors T hn i, rightVectors T hn j⟫_ℝ = _
  rw [OrthonormalBasis.inner_eq_ite, mul_ite, mul_one, mul_zero]
  rfl

theorem map_rightVectors_eq_zero (T : E →ₗ[ℝ] H) (hn : finrank ℝ E = n) {j : Fin n}
    (hj : T.singularValues j = 0) : T (rightVectors T hn j) = 0 := by
  have h := inner_map_rightVectors T hn j j
  rw [if_pos rfl, hj, zero_pow two_ne_zero] at h
  exact inner_self_eq_zero.mp h

theorem singularValues_eq_zero_of_le (T : E →ₗ[ℝ] H) (hm : finrank ℝ H = m) {j : ℕ} (hj : m ≤ j) :
    T.singularValues j = 0 := by
  rw [T.singularValues_eq_zero_iff_le_finrank_range]
  exact (hm ▸ Submodule.finrank_le T.range).trans hj

/-- The images of the right singular vectors, scaled; zero beyond the last of them. -/
noncomputable def scaledImage (T : E →ₗ[ℝ] H) (hn : finrank ℝ E = n) (i : Fin m) : H :=
  if h : i.val < n then (T.singularValues i)⁻¹ • T (rightVectors T hn ⟨i, h⟩) else 0

theorem scaledImage_eq (T : E →ₗ[ℝ] H) (hn : finrank ℝ E = n) {i : Fin m} {j : Fin n}
    (hij : i.val = j.val) :
    scaledImage T hn i = (T.singularValues j)⁻¹ • T (rightVectors T hn j) := by
  rcases j with ⟨j, hj⟩
  subst hij
  exact dif_pos hj

/-- The scaled images that do not vanish are orthonormal. -/
theorem orthonormal_scaledImage (T : E →ₗ[ℝ] H) (hn : finrank ℝ E = n) :
    Orthonormal ℝ ({i : Fin m | T.singularValues i ≠ 0}.domRestrict (scaledImage T hn)) := by
  have hbefore : ∀ i : Fin m, T.singularValues i ≠ 0 → i.val < n := fun i hi =>
    not_le.mp fun hle => hi (T.singularValues_of_finrank_le (hn ▸ hle))
  rw [orthonormal_iff_ite]
  rintro ⟨i, hi⟩ ⟨j, hj⟩
  change ⟪scaledImage T hn i, scaledImage T hn j⟫_ℝ = _
  change T.singularValues i ≠ 0 at hi
  rw [scaledImage_eq T hn (i := i) (j := ⟨i, hbefore i hi⟩) rfl,
    scaledImage_eq T hn (i := j) (j := ⟨j, hbefore j hj⟩) rfl, inner_smul_left, inner_smul_right,
    inner_map_rightVectors]
  by_cases hij : i = j
  · subst hij
    rw [if_pos rfl, if_pos rfl]
    change (T.singularValues i)⁻¹ * ((T.singularValues i)⁻¹ * T.singularValues i ^ 2) = 1
    field_simp
  · rw [if_neg fun h => hij (Fin.ext (Fin.mk.inj h)), if_neg fun h => hij (Subtype.mk.inj h),
      mul_zero, mul_zero]

/-- Left singular vectors: the scaled images and a basis around them. -/
theorem exists_leftVectors (T : E →ₗ[ℝ] H) (hn : finrank ℝ E = n) (hm : finrank ℝ H = m) :
    ∃ b : OrthonormalBasis (Fin m) ℝ H, ∀ (i : Fin m) (j : Fin n), i.val = j.val →
      T (rightVectors T hn j) = T.singularValues j • b i := by
  obtain ⟨b, hb⟩ := (orthonormal_scaledImage T hn).exists_orthonormalBasis_extension_of_card_eq
    (ι := Fin m) (by rw [hm, Fintype.card_fin])
  refine ⟨b, fun i j hij => ?_⟩
  by_cases hj : T.singularValues j = 0
  · rw [map_rightVectors_eq_zero T hn hj, hj, zero_smul]
  · rw [hb i (by rwa [← hij] at hj), scaledImage_eq T hn hij, smul_inv_smul₀ hj]

/-- A map is the sum over its singular triples. -/
theorem map_eq_sum_triples (T : E →ₗ[ℝ] H) (hn : finrank ℝ E = n) (hm : finrank ℝ H = m)
    {b : OrthonormalBasis (Fin m) ℝ H} (hb : ∀ (i : Fin m) (j : Fin n), i.val = j.val →
      T (rightVectors T hn j) = T.singularValues j • b i) (x : E) :
    T x = ∑ k : Fin (min m n), (⟪rightVectors T hn (k.castLE (min_le_right m n)), x⟫_ℝ *
      T.singularValues k) • b (k.castLE (min_le_left m n)) := by
  have hexpand := congrArg T ((rightVectors T hn).sum_repr' x)
  rw [map_sum] at hexpand
  rw [← hexpand]
  symm
  refine Finset.sum_of_injOn (fun k : Fin (min m n) => k.castLE (min_le_right m n))
    (Fin.castLE_injective _).injOn (fun _ _ => Finset.mem_coe.mpr (Finset.mem_univ _)) ?_ ?_
  · -- behind the last left vector every singular value is zero
    intro j _ hj
    have hmj : m ≤ j.val := by
      by_contra h
      exact hj ⟨⟨j, lt_min (not_le.mp h) j.isLt⟩, Finset.mem_coe.mpr (Finset.mem_univ _), rfl⟩
    rw [map_smul, map_rightVectors_eq_zero T hn (singularValues_eq_zero_of_le T hm hmj), smul_zero]
  · intro k _
    rw [map_smul, hb (k.castLE (min_le_left m n)) (k.castLE (min_le_right m n)) rfl, smul_smul]
    rfl

end Bases

variable {m n : ℕ}

theorem sum_basis_mul {p k : ℕ} (f : OrthonormalBasis (Fin p) ℝ (EuclideanSpace ℝ (Fin p)))
    (h : k ≤ p) (i j : Fin k) :
    ∑ a, f (i.castLE h) a * f (j.castLE h) a = (1 : Matrix (Fin k) (Fin k) ℝ) i j := by
  have hinner := f.inner_eq_ite (j.castLE h) (i.castLE h)
  rw [PiLp.inner_apply] at hinner
  rw [one_apply]
  refine hinner.trans (if_congr ?_ rfl rfl)
  rw [Fin.castLE_inj]
  exact eq_comm

theorem ThinSVD.exists_exact (M : Mat ℝ m n) : ∃ d : ThinSVD ℝ m n, d.Exact M := by
  let T := toEuclideanLin M.toMatrix
  have hn : finrank ℝ (EuclideanSpace ℝ (Fin n)) = n := finrank_euclideanSpace_fin
  have hm : finrank ℝ (EuclideanSpace ℝ (Fin m)) = m := finrank_euclideanSpace_fin
  obtain ⟨b, hb⟩ := exists_leftVectors T hn hm
  refine ⟨⟨Mat.ofFn fun i k => b (k.castLE (min_le_left m n)) i,
    Vec.ofFn fun k => T.singularValues k,
    Mat.ofFn fun k j => rightVectors T hn (k.castLE (min_le_right m n)) j⟩, ?_, ?_, ?_, ?_, ?_⟩
  · ext i j
    rw [Mat.toMatrix_ofFn]
    exact sum_basis_mul b (min_le_left m n) i j
  · ext i j
    rw [Mat.toMatrix_ofFn]
    exact sum_basis_mul (rightVectors T hn) (min_le_right m n) i j
  · ext i j
    have h := congrArg (fun y => y i) (map_eq_sum_triples T hn hm hb (EuclideanSpace.single j 1))
    simp only [WithLp.ofLp_sum, Finset.sum_apply, WithLp.ofLp_smul, Pi.smul_apply, smul_eq_mul,
      EuclideanSpace.inner_single_right, conj_trivial, one_mul] at h
    rw [Mat.toMatrix_ofFn, Mat.toMatrix_ofFn, Vec.coe_ofFn, mul_apply]
    simp only [mul_diagonal, of_apply]
    refine Eq.trans ?_ (h.trans (Finset.sum_congr rfl fun k _ => by ring))
    rw [ofLp_toLpLin, toLin'_apply, PiLp.ofLp_single, mulVec_single_one]
    rfl
  · intro i
    rw [Vec.get_ofFn]
    exact T.singularValues_nonneg i
  · rw [Vec.coe_ofFn]
    exact fun i j hij => T.singularValues_antitone hij

end QuadraticProgram
