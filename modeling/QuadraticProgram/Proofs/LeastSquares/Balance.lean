import QuadraticProgram.Proofs.LeastSquares.Coordinates

/-! # Rank decisions on balanced matrices

Balancing multiplies the rows and the columns of a square matrix by the same factors. Nonzero
singular values come closer to each other or move apart by no more than the squares of the factors
differ. So a rank decision that has that much to spare discards nothing after balancing either.
-/

namespace QuadraticProgram
open Matrix

variable {m n : ℕ} {cutoff : ℝ}

/-- Factors whose squares exceed a bound, unless they are zero, lengthen a vector by more than the
bound, as seen from any vector that they reach. -/
theorem sq_dotProduct_mul_lt {s a v : Fin n → ℝ} {bound : ℝ} (hbound : 0 ≤ bound)
    (hs : ∀ i, s i ≠ 0 → bound < s i ^ 2) (hne : (s * a) ⬝ᵥ v ≠ 0) :
    bound * ((s * a) ⬝ᵥ v) ^ 2 < ((s * a) ⬝ᵥ (s * a)) * ((s * v) ⬝ᵥ (s * v)) := by
  -- where a factor is zero, nothing is reached
  let w : Fin n → ℝ := fun i => if s i = 0 then 0 else v i
  have hreach : (s * a) ⬝ᵥ v = (s * a) ⬝ᵥ w := by
    apply Finset.sum_congr rfl
    intro i _
    by_cases hi : s i = 0 <;> simp [w, hi]
  have hfactor : ∀ i, s i ≠ 0 → w i = v i := fun i hi => if_neg hi
  have hterm : ∀ i, bound * (w i * w i) ≤ (s * v) i * (s * v) i := by
    intro i
    rw [Pi.mul_apply, mul_mul_mul_comm, ← sq (s i)]
    by_cases hi : s i = 0
    · simp [w, hi]
    · rw [hfactor i hi]
      exact mul_le_mul_of_nonneg_right (hs i hi).le (mul_self_nonneg _)
  obtain ⟨i, hi⟩ : ∃ i, w i ≠ 0 := by
    by_contra hall
    have hzero : w = 0 := funext fun i => not_not.mp (not_exists.mp hall i)
    exact hne (by rw [hreach, hzero, dotProduct_zero])
  have hsi : s i ≠ 0 := fun h => hi (if_pos h)
  have hlonger : bound * (w ⬝ᵥ w) < (s * v) ⬝ᵥ (s * v) := by
    rw [dotProduct, Finset.mul_sum]
    refine Finset.sum_lt_sum (fun i _ => hterm i) ⟨i, Finset.mem_univ i, ?_⟩
    rw [Pi.mul_apply, mul_mul_mul_comm, ← sq (s i), ← hfactor i hsi]
    exact mul_lt_mul_of_pos_right (hs i hsi) (mul_self_pos.mpr hi)
  have hpos := dotProduct_self_pos (x := s * a) fun h => hne (by rw [h, zero_dotProduct])
  calc bound * ((s * a) ⬝ᵥ v) ^ 2 ≤ bound * (((s * a) ⬝ᵥ (s * a)) * (w ⬝ᵥ w)) := by
        rw [hreach]
        exact mul_le_mul_of_nonneg_left (sq_dotProduct_le _ _) hbound
    _ = ((s * a) ⬝ᵥ (s * a)) * (bound * (w ⬝ᵥ w)) := mul_left_comm _ _ _
    _ < _ := mul_lt_mul_of_pos_left hlonger hpos

namespace ThinSVD

/-- If no nonzero singular value is discarded, the matrix stretches every vector by more than the
cutoff, as seen from any vector of its row space. -/
theorem Exact.sq_dotProduct_lt {d : ThinSVD ℝ m n} {M : Mat ℝ m n} (hd : d.Exact M)
    (hk : d.KeepsNonzero cutoff) (hc : 0 ≤ cutoff) (h : 0 < min m n) {u : Fin m → ℝ}
    {v : Fin n → ℝ} (hne : (M.toMatrixᵀ *ᵥ u) ⬝ᵥ v ≠ 0) :
    (d.sing ⟨0, h⟩ * cutoff) ^ 2 * ((M.toMatrixᵀ *ᵥ u) ⬝ᵥ v) ^ 2 <
      ((M.toMatrixᵀ *ᵥ u) ⬝ᵥ (M.toMatrixᵀ *ᵥ u)) * ((M.toMatrix *ᵥ v) ⬝ᵥ (M.toMatrix *ᵥ v)) := by
  have hcounts : ∀ i, d.sing i ≠ 0 → (d.sing ⟨0, h⟩ * cutoff) ^ 2 < d.sing i ^ 2 := fun i hi =>
    pow_lt_pow_left₀ ((exceeds_iff _ _ _).mp (hk i hi)) (mul_nonneg (hd.nonneg _) hc) two_ne_zero
  have hdot : (M.toMatrixᵀ *ᵥ u) ⬝ᵥ v =
      (d.sing.get * (d.u.toMatrixᵀ *ᵥ u)) ⬝ᵥ (d.vt.toMatrix *ᵥ v) := by
    rw [hd.transpose_mulVec_eq, dotProduct_comm, dotProduct_mulVec, vecMul_transpose,
      dotProduct_comm]
  rw [hdot] at hne ⊢
  rw [hd.transpose_mulVec_eq, hd.mulVec_eq, dotProduct_mulVec_mulVec hd.transpose_orthonormal,
    dotProduct_mulVec_mulVec hd.left_orthonormal]
  exact sq_dotProduct_mul_lt (sq_nonneg _) hcounts hne

variable {d d' : ThinSVD ℝ n n} {M M' : Mat ℝ n n} {e : Fin n → ℝ} {lo hi : ℝ}

/-- Balancing does not enlarge the first singular value by more than the largest square. -/
theorem Exact.first_le_of_balanced (hd : d.Exact M) (hd' : d'.Exact M')
    (hM : ∀ v, M'.toMatrix *ᵥ v = e * (M.toMatrix *ᵥ (e * v))) (hhi : 0 ≤ hi)
    (he : ∀ i, e i * e i ≤ hi) (h : 0 < min n n) :
    d'.sing ⟨0, h⟩ ≤ hi * d.sing ⟨0, h⟩ := by
  rw [← sq_le_sq₀ (hd'.nonneg _) (mul_nonneg hhi (hd.nonneg _)), mul_pow]
  refine hd'.sing_sq_le (fun v => ?_) _
  have hsquares : ∀ w, (e * w) ⬝ᵥ (e * w) ≤ hi * (w ⬝ᵥ w) := fun w =>
    (dotProduct_mul_self e w).trans_le (dotProduct_mul_le he w)
  rw [hM]
  calc _ ≤ hi * ((M.toMatrix *ᵥ (e * v)) ⬝ᵥ (M.toMatrix *ᵥ (e * v))) := hsquares _
    _ ≤ hi * (d.sing ⟨0, h⟩ ^ 2 * ((e * v) ⬝ᵥ (e * v))) := by
        gcongr
        exact hd.mulVec_le h _
    _ ≤ hi * (d.sing ⟨0, h⟩ ^ 2 * (hi * (v ⬝ᵥ v))) := by
        gcongr
        exact hsquares v
    _ = _ := by ring

/-- A rank decision that has the ratio of the squares to spare discards nothing after balancing. -/
theorem Exact.keepsNonzero_of_balanced (hd : d.Exact M) (hd' : d'.Exact M')
    (hM : M'.toMatrix = diagonal e * M.toMatrix * diagonal e) (hlo : 0 < lo)
    (he : ∀ i, lo ≤ e i * e i) (he' : ∀ i, e i * e i ≤ hi) (hc : 0 ≤ cutoff)
    (hk : d.KeepsNonzero (hi / lo * cutoff)) : d'.KeepsNonzero cutoff := by
  have hmul : ∀ v, M'.toMatrix *ᵥ v = e * (M.toMatrix *ᵥ (e * v)) := fun v => by
    rw [hM, ← mulVec_mulVec, ← mulVec_mulVec, diagonal_mulVec_eq, diagonal_mulVec_eq]
  have htranspose : ∀ v, M'.toMatrixᵀ *ᵥ v = e * (M.toMatrixᵀ *ᵥ (e * v)) := fun v => by
    rw [hM, transpose_mul, transpose_mul, diagonal_transpose, ← mulVec_mulVec, ← mulVec_mulVec,
      diagonal_mulVec_eq, diagonal_mulVec_eq]
  apply hd'.keepsNonzero_of_lt
  intro i v hne
  have hhi : 0 < hi := by
    have k : Fin n := ⟨i, i.isLt.trans_le (min_le_left n n)⟩
    exact hlo.trans_le ((he k).trans (he' k))
  let p := M.toMatrixᵀ *ᵥ (e * v)
  let w := e * p
  have hw : M'.toMatrixᵀ *ᵥ v = w := htranspose v
  rw [hw] at hne ⊢
  have hpos : 0 < w ⬝ᵥ w := dotProduct_self_pos hne
  have hreach : p ⬝ᵥ (e * w) = w ⬝ᵥ w := dotProduct_mul_right e p w
  have hspare := hd.sq_dotProduct_lt hk (by positivity) i.pos (u := e * v) (v := e * w)
    (hreach.trans_ne hpos.ne')
  rw [hreach] at hspare
  have hfirst : (d'.sing ⟨0, i.pos⟩ * cutoff) ^ 2 ≤
      lo ^ 2 * (d.sing ⟨0, i.pos⟩ * (hi / lo * cutoff)) ^ 2 := by
    rw [← mul_pow]
    refine pow_le_pow_left₀ (mul_nonneg (hd'.nonneg _) hc) ?_ 2
    calc _ ≤ hi * d.sing ⟨0, i.pos⟩ * cutoff :=
          mul_le_mul_of_nonneg_right (hd.first_le_of_balanced hd' hmul hhi.le he' _) hc
      _ = _ := by field_simp
  have hsquares : ∀ x, lo * (x ⬝ᵥ x) ≤ (e * x) ⬝ᵥ (e * x) := fun x =>
    (le_dotProduct_mul he x).trans_eq (dotProduct_mul_self e x).symm
  rw [hmul]
  refine lt_of_mul_lt_mul_left ?_ hpos.le
  calc (w ⬝ᵥ w) * ((d'.sing ⟨0, i.pos⟩ * cutoff) ^ 2 * (w ⬝ᵥ w))
      ≤ (w ⬝ᵥ w) * (lo ^ 2 * (d.sing ⟨0, i.pos⟩ * (hi / lo * cutoff)) ^ 2 * (w ⬝ᵥ w)) := by gcongr
    _ = lo ^ 2 * ((d.sing ⟨0, i.pos⟩ * (hi / lo * cutoff)) ^ 2 * (w ⬝ᵥ w) ^ 2) := by ring
    _ < lo ^ 2 * ((p ⬝ᵥ p) * ((M.toMatrix *ᵥ (e * w)) ⬝ᵥ (M.toMatrix *ᵥ (e * w)))) :=
        mul_lt_mul_of_pos_left hspare (by positivity)
    _ = (lo * (p ⬝ᵥ p)) * (lo * ((M.toMatrix *ᵥ (e * w)) ⬝ᵥ (M.toMatrix *ᵥ (e * w)))) := by ring
    _ ≤ _ := mul_le_mul (hsquares p) (hsquares _)
        (mul_nonneg hlo.le (dotProduct_self_nonneg _)) hpos.le

end ThinSVD

end QuadraticProgram
