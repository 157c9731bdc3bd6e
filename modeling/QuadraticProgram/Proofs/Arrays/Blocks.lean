import QuadraticProgram.Arrays.Kkt
import QuadraticProgram.Program.Assembly
import QuadraticProgram.Proofs.Evaluator.Read

/-! # Vectors and matrices joined as arrays

What is joined from the arrays of vectors and matrices along an axis is the array of a vector or
matrix again, also where a part is empty. So the system of the optimality conditions is the same
whether it is made of parts of known size or of four blocks with the rules of arrays.
-/

namespace QuadraticProgram

variable {α : Type} {m n k : ℕ}

/-- The columns of one matrix beside those of another. -/
def Mat.beside (A : Mat α m n) (B : Mat α m k) : Mat α m (n + k) :=
  Mat.ofFn fun i => Fin.addCases (A i) (B i)

/-- The matrix of the optimality conditions as four blocks. -/
theorem kktMatrix_eq_above [Scalar α] (G : Mat α n n) (A : Mat α m n) :
    kktMatrix G A =
      (G.beside (Mat.ofFn fun i j => -A.transpose i j)).above (A.beside Mat.zero) := by
  apply Mat.ext_get
  intro i j
  induction i using Fin.addCases with
  | left i =>
    induction j using Fin.addCases with
    | left j => simp [kktMatrix, Mat.above, Mat.beside]
    | right j => simp [kktMatrix, Mat.above, Mat.beside]
  | right i =>
    induction j using Fin.addCases with
    | left j => simp [kktMatrix, Mat.above, Mat.beside]
    | right j => simp [kktMatrix, Mat.above, Mat.beside]

namespace NDArray

/-- Arrays of the same shape with the same entries are equal. -/
theorem ext_entries {a b : NDArray α} (hshape : a.shape = b.shape)
    (h : ∀ p (ha : p < a.data.size) (hb : p < b.data.size), a.data[p] = b.data[p]) : a = b := by
  obtain ⟨s, xs, ha⟩ := a
  obtain ⟨t, ys, hb⟩ := b
  obtain rfl : s = t := hshape
  obtain rfl : xs = ys := Array.ext (ha.trans hb.symm) h
  rfl

theorem asMat?_ofMat (A : Mat α m n) : (ofMat A).asMat? = some ⟨m, n, A⟩ :=
  congrArg (fun A => some (AnyMat.mk m n A)) (matOf_ofMat A)

theorem asMatOf?_ofMat (A : Mat α m n) : (ofMat A).asMatOf? m n = some A :=
  (dif_pos rfl).trans (congrArg some (matOf_ofMat A))

theorem asVec?_ofVec (x : Vec α n) : (ofVec x).asVec? n = some x :=
  (dif_pos rfl).trans (congrArg some (vecOf_ofVec x))

theorem flatVec?_ofVec (x : Vec α n) : (ofVec x).flatVec? n = some x := by
  have hsize : (ofVec x).flatten.size = n := Nat.mul_one n
  apply (dif_pos hsize).trans
  apply congrArg some
  apply Vec.ext_get
  intro i
  rw [Vec.get_cast]
  exact Vec.get_ofFn _ _

/-- An array of rank one is the vector with the same entries. -/
theorem tabulate_eq_ofVec {f : Fin (Shape.size [n]) → α} {x : Vec α n}
    (h : ∀ (i : Fin n) (p : Fin (Shape.size [n])), p.val = i → f p = x i) :
    tabulate [n] f = ofVec x := by
  refine ext_entries rfl fun p hp hp' => ?_
  have hn : p < n := by simpa [ofVec, Vec.toArray] using hp'
  exact (Array.getElem_ofFn _).trans (h ⟨p, hn⟩ _ rfl)

/-- An array of rank two is the matrix with the same entries, row by row. -/
theorem tabulate_eq_ofMat {f : Fin (Shape.size [m, n]) → α} {A : Mat α m n}
    (h : ∀ (i : Fin m) (j : Fin n) (p : Fin (Shape.size [m, n])), p.val = i * n + j →
      f p = A i j) : tabulate [m, n] f = ofMat A := by
  refine ext_entries rfl fun p hp hp' => ?_
  simp only [tabulate, ofMat, Array.getElem_ofFn]
  exact h _ _ _ (Nat.div_add_mod' p n).symm

theorem map_ofVec {β : Type} (f : α → β) (x : Vec α n) : (ofVec x).map f = ofVec (x.map f) := by
  refine ext_entries rfl fun p hp hp' => ?_
  simp [map, ofVec, Vec.toArray, Vec.map, Vec.ofFn, Vec.get]

theorem map_ofMat {β : Type} (f : α → β) (A : Mat α m n) :
    (ofMat A).map f = ofMat (Mat.ofFn fun i j => f (A i j)) := by
  refine ext_entries rfl fun p hp hp' => ?_
  simp [map, ofMat]

section Entries

variable [Scalar α]

theorem entry_ofVec (x : Vec α n) (i : Fin n) : (ofVec x).entry i = x i := by
  simp [entry, ofVec, Vec.toArray, Vec.get]

theorem entry_ofMat (A : Mat α m n) (i : Fin m) (j : Fin n) :
    (ofMat A).entry (i * n + j) = A i j := by
  have hp : i.val * n + j.val < (ofMat A).data.size := by
    rw [size_data_of_shape_two rfl]
    exact mul_add_lt i.isLt j.isLt
  have hget : matOf (ofMat A) rfl i j = (ofMat A).data[i.val * n + j.val] := Mat.get_ofFn _ i j
  rw [entry, ← Array.getElem_eq_getD (h := hp), ← hget, matOf_ofMat]

theorem transpose_ofMat (A : Mat α m n) : (ofMat A).transpose = ofMat A.transpose := by
  apply tabulate_eq_ofMat
  intro i j p hp
  change (ofMat A).entry ((0 * m + p % m) * n + p / m % n) = _
  rw [hp, line_of_place j.isLt, Nat.mul_add_mod_of_lt j.isLt, Nat.zero_mul, Nat.zero_add,
    Nat.mod_eq_of_lt i.isLt, entry_ofMat, Mat.get_transpose]

theorem join_ofVec (x : Vec α m) (y : Vec α n) :
    join 0 (ofVec x) (ofVec y) = .ok (ofVec (x.append y)) := by
  apply congrArg Except.ok
  apply tabulate_eq_ofVec
  intro i p hp
  simp only [Shape.size_nil, Nat.mul_one, hp, Nat.div_eq_of_lt i.isLt, Nat.mod_eq_of_lt i.isLt,
    Nat.zero_mul, Nat.zero_add]
  induction i using Fin.addCases with
  | left i => simp [entry_ofVec]
  | right i => simp [entry_ofVec]

theorem join_columns (A : Mat α m n) (B : Mat α m k) :
    join 1 (ofMat A) (ofMat B) = .ok (ofMat (A.beside B)) := by
  have hfits : [m] = [m] ∧ ([] : Shape) = [] := ⟨rfl, rfl⟩
  apply (if_pos hfits).trans
  apply congrArg Except.ok
  apply tabulate_eq_ofMat
  intro i j p hp
  simp only [Shape.size_nil, Nat.mul_one, hp, line_of_place j.isLt, Nat.mul_add_mod_of_lt j.isLt]
  induction j using Fin.addCases with
  | left j => simp [Mat.beside, entry_ofMat]
  | right j => simp [Mat.beside, entry_ofMat]

theorem join_rows (A : Mat α m n) (B : Mat α k n) :
    join 0 (ofMat A) (ofMat B) = .ok (ofMat (A.above B)) := by
  have hfits : ([] : Shape) = [] ∧ [n] = [n] := ⟨rfl, rfl⟩
  apply (if_pos hfits).trans
  apply congrArg Except.ok
  apply tabulate_eq_ofMat
  intro i j p hp
  -- nothing comes before the first axis, so every place is in the first and only part
  have hplace : i.val * n + j.val < m * n + k * n := by
    rw [← Nat.add_mul]
    exact mul_add_lt i.isLt j.isLt
  simp only [Shape.size_cons, Shape.size_nil, Nat.mul_one, hp, Nat.div_eq_of_lt hplace,
    Nat.mod_eq_of_lt hplace, Nat.zero_mul, Nat.zero_add]
  induction i using Fin.addCases with
  | left i => simp [Mat.above, entry_ofMat, mul_add_lt i.isLt j.isLt]
  | right i =>
    have hbelow : (m + i.val) * n + j.val = m * n + (i * n + j) := by
      rw [Nat.add_mul, Nat.add_assoc]
    simp [Mat.above, entry_ofMat, hbelow]

/-- Four blocks are joined to a matrix, whichever of them are empty. -/
theorem block_ofMat {l : ℕ} (A : Mat α m n) (B : Mat α m k) (C : Mat α l n) (D : Mat α l k) :
    block (ofMat A) (ofMat B) (ofMat C) (ofMat D) =
      .ok (ofMat ((A.beside B).above (C.beside D))) := by
  -- matrices have the rank of the result already
  have hlift : ∀ {p q : ℕ} (M : Mat α p q), (ofMat M).lift 2 = ofMat M := fun _ => rfl
  change (do
    let top ← join 1 ((ofMat A).lift 2) ((ofMat B).lift 2)
    let bottom ← join 1 ((ofMat C).lift 2) ((ofMat D).lift 2)
    join 0 top bottom) = _
  rw [hlift, hlift, hlift, hlift, join_columns, join_columns]
  exact join_rows _ _

theorem kktMatrix_ofMat (G : Mat α n n) (A : Mat α m n) :
    kktMatrix (ofMat G) (ofMat A) = .ok (ofMat (QuadraticProgram.kktMatrix G A)) := by
  rw [kktMatrix, asMat?_ofMat, Option.bind_some, asMatOf?_ofMat]
  rfl

/-- It makes no difference to the matrix that shapes that fit are told apart first. -/
theorem kktMatrix_eq_block (G : Mat α n n) (A : Mat α m n) :
    kktMatrix (ofMat G) (ofMat A) =
      block (ofMat G) ((ofMat A).transpose.map (-·)) (ofMat A) (ofMat (Mat.zero : Mat α m m)) := by
  rw [kktMatrix_ofMat, transpose_ofMat, map_ofMat, block_ofMat, kktMatrix_eq_above]

/-- Where the shapes fit, the system is that of the parts of known size. -/
theorem kktSystem_ofMat (G : Mat α n n) (c : Vec α n) (A : Mat α m n) (b : Vec α m) :
    kktSystem (ofMat G) (ofVec c) (ofMat A) (ofVec b) =
      .ok ⟨ofMat (QuadraticProgram.kktMatrix G A), ofVec (kktTarget c b)⟩ := by
  rw [kktSystem, kktMatrix_ofMat, map_ofVec, join_ofVec]
  rfl

end Entries

end NDArray

end QuadraticProgram
