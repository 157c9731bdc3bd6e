import QuadraticProgram.Factorization.Cholesky
import QuadraticProgram.Proofs.Factorization.Exact

/-! # Cholesky factors by rows are exact

The rows finished so far multiply to the entries of the matrix. The pivot of the next row is the
value of the quadratic form at a vector that the finished rows cannot see, so it is positive for a
positive definite matrix.
-/

namespace QuadraticProgram
open Matrix

variable {n : ℕ}

theorem Mat.lower_apply (L : Mat ℝ n n) (i k : Fin n) :
    L.lower i k = if k ≤ i then L i k else 0 := rfl

/-- What one step of a loop that can stop keeps, the whole loop keeps. -/
theorem foldlM_invariant {β : Type} {f : β → Fin n → Option β} {b b' : β} (P : ℕ → β → Prop)
    (start : P 0 b) (step : ∀ (i : Fin n) b b', P i b → f b i = some b' → P (i + 1) b')
    (h : Fin.foldlM n f b = some b') : P n b' := by
  induction n generalizing b' with
  | zero =>
    rw [Fin.foldlM_zero] at h
    cases h
    exact start
  | succ n ih =>
    rw [Fin.foldlM_succ_last] at h
    obtain ⟨c, hc, hb'⟩ := Option.bind_eq_some_iff.mp h
    exact step (Fin.last n) c b' (ih (fun i b b' hb => step i.castSucc b b' hb) hc) hb'

/-- A loop that cannot stop where the invariant holds does not stop. -/
theorem foldlM_isSome {β : Type} {f : β → Fin n → Option β} {b : β} (P : ℕ → β → Prop)
    (start : P 0 b) (step : ∀ (i : Fin n) b b', P i b → f b i = some b' → P (i + 1) b')
    (go : ∀ (i : Fin n) b, P i b → (f b i).isSome) : (Fin.foldlM n f b).isSome := by
  induction n with
  | zero =>
    rw [Fin.foldlM_zero]
    rfl
  | succ n ih =>
    have hs : ∀ (i : Fin n) b b', P i b → f b i.castSucc = some b' → P (i + 1) b' :=
      fun i b b' hb => step i.castSucc b b' hb
    obtain ⟨c, hc⟩ := Option.isSome_iff_exists.mp (ih hs fun i b hb => go i.castSucc b hb)
    rw [Fin.foldlM_succ_last]
    dsimp only
    rw [hc]
    exact go (Fin.last n) c (foldlM_invariant P start hs hc)

namespace Cholesky

variable {G L : Mat ℝ n n}

/-- The first `t` rows are finished: their products are the entries of the matrix. -/
structure Finished (G : Mat ℝ n n) (t : ℕ) (L : Mat ℝ n n) : Prop where
  diag_pos : ∀ i : Fin n, i.val < t → 0 < L i i
  product : ∀ i c : Fin n, i.val < t → c ≤ i → L.lower i ⬝ᵥ L.lower c = G i c

/-- The part of the next row before the diagonal solves the triangular system of the finished
rows. -/
theorem rowBefore_spec {i : Fin n} (hd : ∀ c < i, L c c ≠ 0) :
    (∀ c < i, L.lower c ⬝ᵥ (rowBefore G L i).get = G i c) ∧
      ∀ c, i ≤ c → rowBefore G L i c = 0 := by
  have h := foldl_invariant (n := i.val)
    (fun t (r : Vec ℝ n) => (∀ c : Fin n, c.val < t → (L.lower *ᵥ r.get) c = G.row i c) ∧
      ∀ c : Fin n, t ≤ c.val → r c = 0)
    (f := fun r j => r.set (Triangular.before j)
      ((G i (Triangular.before j) - Triangular.leftSum L r (Triangular.before j)) /
        L (Triangular.before j) (Triangular.before j)))
    (b := Vec.zero) ⟨fun c hc => absurd hc (Nat.not_lt_zero _), fun c _ => Vec.get_zero c⟩
    (by
      rintro j r ⟨hsolved, hzero⟩
      constructor
      · intro c hc
        exact Triangular.lower_mulVec_set (G.row i) r (Triangular.before j)
          (hd _ (Fin.lt_def.mpr j.isLt)) c (Nat.lt_succ_iff.mp hc) fun hlt => hsolved c hlt
      · intro c hc
        have hne : c ≠ Triangular.before j := by
          rintro rfl
          exact absurd hc (Nat.not_succ_le_self _)
        rw [Vec.get_set, if_neg hne]
        exact hzero c (Nat.le_of_succ_le hc))
  exact ⟨fun c hc => h.1 c hc, fun c hc => h.2 c hc⟩

/-- The pivot of the next row. -/
theorem pivot_eq {i : Fin n} (hzero : ∀ c, i ≤ c → rowBefore G L i c = 0) :
    G i i - Scalar.sum (fun j : Fin i => rowBefore G L i (Triangular.before j) *
      rowBefore G L i (Triangular.before j)) =
      G i i - (rowBefore G L i).get ⬝ᵥ (rowBefore G L i).get := by
  have hsum : ∑ j ∈ Finset.Iio i, rowBefore G L i j * rowBefore G L i j =
      (rowBefore G L i).get ⬝ᵥ (rowBefore G L i).get := by
    apply Finset.sum_subset (Finset.subset_univ _)
    intro c _ hc
    rw [hzero c (not_lt.mp fun h => hc (Finset.mem_Iio.mpr h)), mul_zero]
  rw [Scalar.sum_eq, Triangular.sum_before i fun c => rowBefore G L i c * rowBefore G L i c, hsum]

/-- A row that is set is the new row of the triangle if it has no entries behind the diagonal. -/
theorem lower_setRow {i : Fin n} {r : Vec ℝ n} (hr : ∀ c, i < c → r c = 0) :
    (L.setRow i r).lower i = r.get := by
  funext k
  rw [Mat.lower_apply, Mat.get_setRow, if_pos rfl]
  by_cases hk : k ≤ i
  · rw [if_pos hk]
  · rw [if_neg hk, hr k (not_le.mp hk)]

theorem lower_setRow_of_ne {i c : Fin n} (hc : c ≠ i) (r : Vec ℝ n) :
    (L.setRow i r).lower c = L.lower c := by
  funext k
  rw [Mat.lower_apply, Mat.lower_apply, Mat.get_setRow, if_neg hc]

/-- To set an entry that is zero is to add to it. -/
theorem coe_set_eq_add {i : Fin n} {r : Vec ℝ n} (hr : r i = 0) (a : ℝ) :
    (r.set i a).get = r.get + Pi.single i a := by
  ext k
  rw [Vec.get_set, Pi.add_apply, Pi.single_apply]
  by_cases hk : k = i
  · rw [if_pos hk, if_pos hk, hk, hr, zero_add]
  · rw [if_neg hk, if_neg hk, add_zero]

/-- A row that has the right products with the finished rows and with itself finishes its step. -/
theorem Finished.setRow {i : Fin n} {r : Vec ℝ n} (h : Finished G i L)
    (hbehind : ∀ c, i < c → r c = 0) (hpos : 0 < r i)
    (hbefore : ∀ c < i, L.lower c ⬝ᵥ r.get = G i c) (hself : r.get ⬝ᵥ r.get = G i i) :
    Finished G (i + 1) (L.setRow i r) := by
  constructor
  · intro k hk
    rw [Mat.get_setRow]
    by_cases hki : k = i
    · rw [if_pos hki, hki]
      exact hpos
    · rw [if_neg hki]
      exact h.diag_pos k (lt_of_le_of_ne (Nat.lt_succ_iff.mp hk) fun e => hki (Fin.ext e))
  · intro k c hk hck
    rcases Nat.lt_succ_iff_lt_or_eq.mp hk with hlt | heq
    · have hki : k ≠ i := (Fin.lt_def.mpr hlt).ne
      have hci : c ≠ i := (hck.trans_lt (Fin.lt_def.mpr hlt)).ne
      rw [lower_setRow_of_ne hki, lower_setRow_of_ne hci]
      exact h.product k c hlt hck
    · obtain rfl : k = i := Fin.ext heq
      rw [lower_setRow hbehind]
      rcases hck.eq_or_lt with rfl | hlt
      · rw [lower_setRow hbehind]
        exact hself
      · rw [lower_setRow_of_ne hlt.ne, dotProduct_comm]
        exact hbefore c hlt

/-- One more row is finished. -/
theorem Finished.addRow {i : Fin n} {L' : Mat ℝ n n} (h : Finished G i L)
    (hadd : addRow G L i = some L') : Finished G (i + 1) L' := by
  obtain ⟨hsolved, hzero⟩ := rowBefore_spec (G := G) fun c hc => (h.diag_pos c hc).ne'
  unfold Cholesky.addRow at hadd
  dsimp only at hadd
  rw [pivot_eq hzero] at hadd
  split at hadd
  · cases hadd
  · rename_i hpos
    have hpos := not_le.mp hpos
    cases hadd
    have hroot := Real.mul_self_sqrt hpos.le
    have hroot_pos := Real.sqrt_pos.mpr hpos
    change Finished G (i + 1) (L.setRow i ((rowBefore G L i).set i
      (√(G i i - (rowBefore G L i).get ⬝ᵥ (rowBefore G L i).get))))
    generalize √(G i i - (rowBefore G L i).get ⬝ᵥ (rowBefore G L i).get) = root at hroot hroot_pos ⊢
    have hrow := coe_set_eq_add (hzero i le_rfl) root
    apply h.setRow
    · intro c hc
      rw [Vec.get_set, if_neg hc.ne', hzero c hc.le]
    · rw [Vec.get_set, if_pos rfl]
      exact hroot_pos
    · intro c hc
      have hlower : L.lower c i = 0 := if_neg (not_le.mpr hc)
      rw [hrow, dotProduct_add, dotProduct_single, hlower, zero_mul, add_zero]
      exact hsolved c hc
    · rw [hrow, add_dotProduct, dotProduct_add, dotProduct_add, dotProduct_single,
        single_dotProduct, single_dotProduct, Pi.single_eq_same, hzero i le_rfl]
      linarith

theorem Finished.symmetrized_apply {i : ℕ} (h : Finished G i L) {a c : Fin n} (ha : a.val < i)
    (hc : c.val < i) : G.symmetrized a c = L.lower a ⬝ᵥ L.lower c := by
  rw [Mat.symmetrized, Mat.get_ofFn]
  by_cases hca : c ≤ a
  · rw [if_pos hca, h.product a c ha hca]
  · rw [if_neg hca, dotProduct_comm, h.product c a hc (not_le.mp hca).le]

/-- The rows in front of a position, with rows of the unit matrix from there on. -/
noncomputable def completed (L : Mat ℝ n n) (i : Fin n) : Mat ℝ n n :=
  Mat.ofFn fun a k => if a < i then L a k else if a = k then 1 else 0

theorem completed_lower_of_lt {i a : Fin n} (ha : a < i) :
    (completed L i).lower a = L.lower a := by
  ext k
  rw [Mat.lower_apply, Mat.lower_apply, completed, Mat.get_ofFn, if_pos ha]

theorem completed_lower_of_le {i a : Fin n} (ha : i ≤ a) (c : Fin n) :
    (completed L i).lower a c = if a = c then 1 else 0 := by
  rw [Mat.lower_apply, completed, Mat.get_ofFn, if_neg (not_lt.mpr ha)]
  by_cases hca : c ≤ a
  · rw [if_pos hca]
  · rw [if_neg hca, if_neg fun e => hca e.ge]

theorem Finished.completed_diag_ne_zero {i : Fin n} (h : Finished G i L) (a : Fin n) :
    (completed L i).transpose a a ≠ 0 := by
  rw [Mat.get_transpose, completed, Mat.get_ofFn]
  by_cases ha : a < i
  · rw [if_pos ha]
    exact (h.diag_pos a ha).ne'
  · rw [if_neg ha, if_pos rfl]
    exact one_ne_zero

/-- Behind the rows in front, a combination of the completed rows shows its coefficients. -/
theorem completed_transpose_mulVec {i c : Fin n} (hc : i ≤ c) (w : Fin n → ℝ) :
    ((completed L i).lowerᵀ *ᵥ w) c = w c := by
  have hterm : ∀ a, (completed L i).lower a c * w a = if a = c then w a else 0 := by
    intro a
    rcases lt_or_ge a i with ha | ha
    · rw [completed_lower_of_lt ha, Mat.lower_apply, if_neg (not_le.mpr (ha.trans_le hc)),
        if_neg (ha.trans_le hc).ne, zero_mul]
    · rw [completed_lower_of_le ha, ite_mul, one_mul, zero_mul]
  change ∑ a, (completed L i).lower a c * w a = w c
  simp only [hterm, Finset.sum_ite_eq', Finset.mem_univ, if_true]

/-- Whatever ends before the next row is a combination of the finished rows. -/
theorem Finished.exists_combination {i : Fin n} (h : Finished G i L) {r : Fin n → ℝ}
    (hr : ∀ c, i ≤ c → r c = 0) :
    ∃ w : Fin n → ℝ, (∀ c, i ≤ c → w c = 0) ∧ L.lowerᵀ *ᵥ w = r := by
  have hsolved := Triangular.upper_mulVec_solveUpper h.completed_diag_ne_zero (Vec.ofFn r)
  rw [Mat.upper_transpose, Vec.coe_ofFn] at hsolved
  generalize (Triangular.solveUpper (completed L i).transpose (Vec.ofFn r)).get = w at hsolved
  have hbehind : ∀ c, i ≤ c → w c = 0 := by
    intro c hc
    rw [← completed_transpose_mulVec (L := L) hc w, hsolved, hr c hc]
  refine ⟨w, hbehind, ?_⟩
  rw [← hsolved]
  ext c
  change ∑ a, L.lower a c * w a = ∑ a, (completed L i).lower a c * w a
  apply Finset.sum_congr rfl
  intro a _
  rcases lt_or_ge a i with ha | ha
  · rw [completed_lower_of_lt ha]
  · rw [hbehind a ha, mul_zero, mul_zero]

/-- Products with the rows in front carry over to their combinations. -/
theorem dotProduct_combination {i : Fin n} {q v w r : Fin n → ℝ} (hw : ∀ c, i ≤ c → w c = 0)
    (hwr : L.lowerᵀ *ᵥ w = r) (hq : ∀ c < i, q c = L.lower c ⬝ᵥ v) : q ⬝ᵥ w = v ⬝ᵥ r := by
  have hsum : q ⬝ᵥ w = (L.lower *ᵥ v) ⬝ᵥ w := by
    apply Finset.sum_congr rfl
    intro c _
    rcases lt_or_ge c i with hc | hc
    · rw [hq c hc]
      rfl
    · rw [hw c hc, mul_zero, mul_zero]
  rw [hsum, dotProduct_comm, dotProduct_mulVec, ← mulVec_transpose, hwr, dotProduct_comm]

/-- The pivot of the next row is a value of the quadratic form. The vector is one at the row. -/
theorem Finished.exists_pivot_eq {i : Fin n} (h : Finished G i L) :
    ∃ v : Fin n → ℝ, v i = 1 ∧ v ⬝ᵥ G.symmetrized.toMatrix *ᵥ v =
      G i i - (rowBefore G L i).get ⬝ᵥ (rowBefore G L i).get := by
  obtain ⟨hsolved, hzero⟩ := rowBefore_spec (G := G) fun c hc => (h.diag_pos c hc).ne'
  generalize (rowBefore G L i).get = r at *
  obtain ⟨w, hw, hwr⟩ := h.exists_combination hzero
  have hcol : ∀ c < i, G.symmetrized c i = L.lower c ⬝ᵥ r := by
    intro c hc
    rw [Mat.symmetrized, Mat.get_ofFn, if_neg (not_le.mpr hc), hsolved c hc]
  have hrow : ∀ c < i, G.symmetrized i c = L.lower c ⬝ᵥ r := by
    intro c hc
    rw [Mat.symmetrized, Mat.get_ofFn, if_pos hc.le, hsolved c hc]
  have hbefore : ∀ c < i, (G.symmetrized.toMatrix *ᵥ w) c = L.lower c ⬝ᵥ r := by
    intro c hc
    apply dotProduct_combination hw hwr
    intro a ha
    rw [dotProduct_comm]
    exact h.symmetrized_apply hc ha
  have hat : (G.symmetrized.toMatrix *ᵥ w) i = r ⬝ᵥ r := dotProduct_combination hw hwr hrow
  have hvalue : ∀ c, (G.symmetrized.toMatrix *ᵥ (Pi.single i 1 - w)) c =
      G.symmetrized c i - (G.symmetrized.toMatrix *ᵥ w) c := by
    intro c
    rw [mulVec_sub, mulVec_single_one]
    rfl
  refine ⟨Pi.single i 1 - w, ?_, ?_⟩
  · rw [Pi.sub_apply, Pi.single_eq_same, hw i le_rfl, sub_zero]
  · -- the form vanishes in front of the row, and the vector behind it
    refine (Finset.sum_eq_single i ?_ fun hi => absurd (Finset.mem_univ i) hi).trans ?_
    · intro c _ hc
      rcases hc.lt_or_gt with hlt | hgt
      · rw [hvalue, hcol c hlt, hbefore c hlt, sub_self, mul_zero]
      · rw [Pi.sub_apply, Pi.single_eq_of_ne hc, hw c hgt.le, sub_zero, zero_mul]
    · rw [hvalue, hat, Pi.sub_apply, Pi.single_eq_same, hw i le_rfl, sub_zero, one_mul,
        Mat.symmetrized, Mat.get_ofFn, if_pos le_rfl]

theorem Finished.pivot_pos {i : Fin n} (h : Finished G i L)
    (hG : G.symmetrized.toMatrix.PosDef) :
    0 < G i i - (rowBefore G L i).get ⬝ᵥ (rowBefore G L i).get := by
  rcases h.exists_pivot_eq with ⟨v, hv, hvalue⟩
  rw [← hvalue]
  have hpos := hG.dotProduct_mulVec_pos (x := v) fun h0 => by
    rw [h0] at hv
    exact zero_ne_one hv
  rwa [star_trivial] at hpos

theorem finished_zero (G : Mat ℝ n n) : Finished G 0 Mat.zero :=
  ⟨fun _ hi => absurd hi (Nat.not_lt_zero _), fun _ _ hi => absurd hi (Nat.not_lt_zero _)⟩

theorem factor_finished (h : factor G = some L) : Finished G n L :=
  foldlM_invariant (Finished G) (finished_zero G) (fun _ _ _ hb => hb.addRow) h

/-- A positive definite matrix has a factor. -/
theorem factor_isSome (hG : G.symmetrized.toMatrix.PosDef) : (factor G).isSome := by
  refine foldlM_isSome (Finished G) (finished_zero G) (fun _ _ _ hb => hb.addRow) ?_
  intro i L h
  obtain ⟨-, hzero⟩ := rowBefore_spec (G := G) fun c hc => (h.diag_pos c hc).ne'
  unfold Cholesky.addRow
  dsimp only
  rw [pivot_eq hzero, if_neg (not_le.mpr (h.pivot_pos hG))]
  rfl

theorem factor_product (h : factor G = some L) : L.lower * L.lowerᵀ = G.symmetrized.toMatrix := by
  ext i c
  exact ((factor_finished h).symmetrized_apply i.isLt c.isLt).symm

end Cholesky

end QuadraticProgram
