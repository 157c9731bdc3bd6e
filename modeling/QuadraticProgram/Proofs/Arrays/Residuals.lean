import QuadraticProgram.Arrays.Residuals
import QuadraticProgram.Proofs.Arrays.Blocks

/-! # Residuals of vectors and matrices as arrays

Sums, products and largest magnitudes of arrays are those of the vectors and matrices that the
arrays hold. So both residuals are the same whether they are taken of parts of known size or with
the rules of arrays, also if there are no variables or no rows.
-/

namespace QuadraticProgram

namespace Shape

theorem alignReversed_self (s : Shape) : alignReversed s s = some s := by
  induction s with
  | nil => rfl
  | cons a s ih => rw [alignReversed, if_pos (.inl rfl), ih, Option.map_some]

/-- In an array of the same shape every position stands at its own place. -/
theorem sourceReversed_self {s : Shape} {p : ℕ} (hp : p < size s) : sourceReversed s s p = p := by
  induction s generalizing p with
  | nil => exact (Nat.lt_one_iff.mp hp).symm
  | cons a s ih =>
    have hremainder : (if a = 1 then 0 else p % a) = p % a := by
      split
      · rename_i ha
        rw [ha, Nat.mod_one]
      · rfl
    rw [sourceReversed, hremainder, ih (Nat.div_lt_of_lt_mul hp), Nat.mod_add_div]

end Shape

namespace NDArray

variable {α : Type} {m n : ℕ}

/-- Arrays of the same shape are combined entry by entry, whatever its extents. -/
theorem zipWith?_tabulate {β γ : Type} (f : α → β → γ) (s : Shape) (g : Fin s.size → α)
    (h : Fin s.size → β) :
    zipWith? f (tabulate s g) (tabulate s h) = some (tabulate s fun p => f (g p) (h p)) := by
  have halign : Shape.alignReversed (tabulate s g).shape.reverse (tabulate s h).shape.reverse =
      some s.reverse := Shape.alignReversed_self s.reverse
  unfold zipWith?
  split
  · rename_i hnone
    rw [halign] at hnone
    cases hnone
  · -- the common shape is that of both, so every entry is taken from its own place
    rename_i reversed hsome
    obtain rfl : s.reverse = reversed := Option.some.inj (halign.symm.trans hsome)
    apply congrArg some
    apply ext_entries (List.reverse_reverse s)
    intro p hp hp'
    have hplace : Shape.sourceReversed s.reverse s.reverse.reverse.reverse p = p := by
      rw [List.reverse_reverse]
      exact Shape.sourceReversed_self (by simpa [tabulate] using hp')
    simp only [tabulate, repeatedAt, Array.getElem_ofFn, hplace]

theorem ofVec_eq_tabulate (x : Vec α n) :
    ofVec x = tabulate [n] fun p => x (p.cast (Nat.mul_one n)) :=
  (tabulate_eq_ofVec fun _ _ hp => congrArg x (Fin.ext hp)).symm

/-- The only matrix of a stack without axes. -/
theorem ofMats_single (M : Mat α m n) : ofMats (tabulate [] fun _ => M) = ofMat M := by
  refine ext_entries rfl fun p hp hp' => ?_
  have hline : p / n < m := Nat.div_lt_of_lt_mul (by simpa [ofMat, Nat.mul_comm] using hp')
  simp only [ofMats, ofVecs, expand, tabulate, ofMat, Array.getElem_ofFn, Nat.mod_eq_of_lt hline]
  rfl

theorem zipWith_ofVec (f : α → α → α) (x y : Vec α n) :
    zipWith f (ofVec x) (ofVec y) = .ok (ofVec (Vec.ofFn fun i => f (x i) (y i))) := by
  rw [zipWith, ofVec_eq_tabulate x, ofVec_eq_tabulate y, zipWith?_tabulate]
  apply congrArg Except.ok
  apply tabulate_eq_ofVec
  intro i p hp
  have hi : p.cast (Nat.mul_one n) = i := Fin.ext hp
  rw [hi, Vec.get_ofFn]

section Products

variable [Scalar α]

theorem rowStack?_ofMat (A : Mat α m n) :
    (ofMat A).rowStack? = some ⟨m, n, tabulate [] fun _ => A⟩ := by
  apply congrArg fun M => some (MatStack.mk m n (tabulate [] M))
  funext p
  apply Mat.ext_get
  intro i j
  rw [Mat.get_ofFn, Nat.lt_one_iff.mp p.isLt, Nat.zero_mul, Nat.zero_add, entry_ofMat]

theorem columnStack?_ofVec (x : Vec α n) :
    (ofVec x).columnStack? = some ⟨n, 1, tabulate [] fun _ => Mat.ofFn fun i _ => x i⟩ := by
  apply congrArg fun M => some (MatStack.mk n 1 (tabulate [] M))
  funext p
  apply Mat.ext_get
  intro i j
  rw [Mat.get_ofFn, Mat.get_ofFn, entry_ofVec]

/-- A stack of one column is a vector once the axis of its columns is left out. -/
theorem ofStack_column (M : Mat α m 1) :
    ofStack ⟨m, 1, tabulate [] fun _ => M⟩ true false = ofVec (M.col 0) := by
  apply tabulate_eq_ofVec
  intro i p hp
  have hplace : p.val = i * 1 + (0 : Fin 1) := by rw [hp, Nat.mul_one]; rfl
  rw [ofMats_single, hplace, entry_ofMat, Mat.get_col]

theorem dot_ofMat_ofVec (A : Mat α m n) (x : Vec α n) :
    dot (ofMat A) (ofVec x) = .ok (ofVec (A.mulVec x)) := by
  rw [dot, rowStack?_ofMat, columnStack?_ofVec]
  change (if h : n = n then _ else _) = _
  rw [dif_pos rfl, zipWith?_tabulate]
  have hcol : (A.mul (Mat.ofFn fun i (_ : Fin 1) => x i)).col 0 = A.mulVec x := by
    apply Vec.ext_get
    intro i
    simp
  rw [← hcol]
  exact congrArg Except.ok (ofStack_column _)

theorem supNorm_ofVec (x : Vec α n) : supNorm (ofVec x) = .ok x.maxAbs := by
  change Except.ok (Scalar.maxAbs fun i : Fin n => (ofVec x).entry i) = _
  rw [funext (entry_ofVec x)]
  rfl

/-- Without entries the largest magnitude is zero, so it makes no difference to ask for entries
first. -/
theorem supNorm_or_zero (x : Vec α n) :
    (if (ofVec x).data.isEmpty then .ok 0 else supNorm (ofVec x)) = .ok x.maxAbs := by
  split
  · rename_i hempty
    obtain rfl : n = 0 := by simpa [ofVec, Vec.toArray] using hempty
    rfl
  · exact supNorm_ofVec x

theorem dot_transpose_ofVec (A : Mat α m n) (y : Vec α m) :
    dot (ofMat A).transpose (ofVec y) = .ok (ofVec (A.transposeMulVec y)) := by
  rw [transpose_ofMat, dot_ofMat_ofVec]
  have hswap : A.transpose.mulVec y = A.transposeMulVec y := by
    apply Vec.ext_get
    intro j
    simp
  rw [hswap]

/-- Without rows the rules of arrays leave out the multipliers too. -/
theorem stationarity_ofMat (G : Mat α n n) (c : Vec α n) (A : Mat α m n) (x : Vec α n)
    (y : Vec α m) :
    stationarity (ofMat G) (ofVec c) (ofMat A) (ofVec x) (ofVec y) =
      .ok (ofVec (if m = 0 then (G.mulVec x).add c
        else ((G.mulVec x).add c).sub (A.transposeMulVec y))) := by
  rw [stationarity, dot_ofMat_ofVec, dot_transpose_ofVec]
  change (zipWith _ _ _ >>= _) = _
  rw [zipWith_ofVec]
  cases m with
  | zero => rfl
  | succ m =>
    change (zipWith _ _ _ >>= _) = _
    rw [zipWith_ofVec]
    exact if_pos (.inr rfl)

theorem stationarityResidual_ofMat (G : Mat α n n) (c : Vec α n) (A : Mat α m n) (x : Vec α n)
    (y : Vec α m) :
    stationarityResidual (ofMat G) (ofVec c) (ofMat A) (ofVec x) (ofVec y) =
      .ok (QuadraticProgram.stationarityResidual G c A x y) := by
  rw [stationarityResidual, stationarity_ofMat]
  exact supNorm_or_zero _

theorem kktResiduals?_ofMat (G : Mat α n n) (c : Vec α n) (A : Mat α m n) (b : Vec α m)
    (x : Vec α n) (y : Vec α m) :
    kktResiduals? (ofMat G) (ofVec c) (ofMat A) (ofVec b) (ofVec x) (some (ofVec y)) =
      some (QuadraticProgram.kktResiduals G c A b x (some y)) := by
  change (do
    let G ← (ofMat G).asMatOf? n n
    let c ← (ofVec c).asVec? n
    let A ← (ofMat A).asMatOf? m n
    let b ← (ofVec b).asVec? m
    let x ← (ofVec x).flatVec? n
    ((ofVec y).flatVec? m).map fun y => QuadraticProgram.kktResiduals G c A b x (some y)) = _
  rw [asMatOf?_ofMat, asVec?_ofVec, asMatOf?_ofMat, asVec?_ofVec, flatVec?_ofVec, flatVec?_ofVec]
  rfl

/-- Where the shapes fit, the residuals are those of the parts of known size. -/
theorem kktResiduals_ofMat (G : Mat α n n) (c : Vec α n) (A : Mat α m n) (b : Vec α m)
    (x : Vec α n) (y : Vec α m) :
    kktResiduals (ofMat G) (ofVec c) (ofMat A) (ofVec b) (ofVec x) (some (ofVec y)) =
      .ok (QuadraticProgram.kktResiduals G c A b x (some y)) := by
  rw [kktResiduals, kktResiduals?_ofMat]

/-- It makes no difference to the residuals that shapes that fit are told apart first. -/
theorem kktResiduals_eq_supNorm (G : Mat α n n) (c : Vec α n) (A : Mat α m n) (b : Vec α m)
    (x : Vec α n) (y : Vec α m) :
    kktResiduals (ofMat G) (ofVec c) (ofMat A) (ofVec b) (ofVec x) (some (ofVec y)) = (do
      let primal ← supNorm (← zipWith (· - ·) (← dot (ofMat A) (ofVec x)) (ofVec b))
      let dual ← stationarityResidual (ofMat G) (ofVec c) (ofMat A) (ofVec x) (ofVec y)
      .ok ⟨primal, some dual⟩) := by
  rw [kktResiduals_ofMat, stationarityResidual_ofMat, dot_ofMat_ofVec]
  simp only [bind, Except.bind, zipWith_ofVec, supNorm_ofVec]
  rfl

end Products

end NDArray

end QuadraticProgram
