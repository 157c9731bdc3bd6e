import QuadraticProgram.Proofs.Program.Accumulation

/-! # Equalities are stacked in the order in which they were added

The rows of the assembled constraints are the rows of the first equality, then those of the second
one and so on. A block starts at the sum of the heights of the blocks above it, so every row belongs
to one equality and to one of its rows. An equality without rows takes no place.
-/

namespace QuadraticProgram

section Blocks

variable {β γ : Type*} (height : β → ℕ) (xs : List β)

/-- Where the block of an element starts if blocks stand one below the other. -/
def blockStart (i : ℕ) : ℕ := ((xs.take i).map height).sum

theorem blockStart_succ (i : Fin xs.length) :
    blockStart height xs (i + 1) = blockStart height xs i + height (xs.get i) := by
  rw [blockStart, blockStart, List.take_succ_eq_append_getElem i.isLt, List.map_append,
    List.sum_append, List.map_singleton, List.sum_singleton, List.get_eq_getElem]

theorem blockStart_mono : Monotone (blockStart height xs) := by
  intro i j hij
  obtain ⟨k, rfl⟩ := Nat.exists_eq_add_of_le hij
  rw [blockStart, blockStart, List.take_add, List.map_append, List.sum_append]
  exact Nat.le_add_right _ _

theorem blockStart_length : blockStart height xs xs.length = (xs.map height).sum := by
  rw [blockStart, List.take_length]

theorem blockStart_cons_succ (x : β) (i : ℕ) :
    blockStart height (x :: xs) (i + 1) = height x + blockStart height xs i := by
  rw [blockStart, List.take_succ_cons, List.map_cons, List.sum_cons, blockStart]

variable {height xs}

theorem blockStart_add_lt (i : Fin xs.length) (r : Fin (height (xs.get i))) :
    blockStart height xs i + r < (xs.map height).sum := by
  have hend : blockStart height xs (i + 1) ≤ blockStart height xs xs.length :=
    blockStart_mono height xs i.isLt
  rw [blockStart_succ, blockStart_length] at hend
  omega

/-- Blocks that stand one below the other do not overlap. -/
theorem blockStart_add_inj {i j : Fin xs.length} {r : Fin (height (xs.get i))}
    {s : Fin (height (xs.get j))}
    (h : blockStart height xs i + r = blockStart height xs j + s) : i = j ∧ r.val = s.val := by
  have hr := r.isLt
  have hs := s.isLt
  have hi := blockStart_succ height xs i
  have hj := blockStart_succ height xs j
  rcases lt_trichotomy i.val j.val with hlt | heq | hlt
  · have hle : blockStart height xs (i + 1) ≤ blockStart height xs j :=
      blockStart_mono height xs hlt
    omega
  · rw [heq] at h
    exact ⟨Fin.ext heq, Nat.add_left_cancel h⟩
  · have hle : blockStart height xs (j + 1) ≤ blockStart height xs i :=
      blockStart_mono height xs hlt
    omega

/-- Blocks that stand one below the other leave no gap. -/
theorem exists_blockStart_add {row : ℕ} (h : row < (xs.map height).sum) :
    ∃ i : Fin xs.length, ∃ r : Fin (height (xs.get i)), blockStart height xs i + r = row := by
  induction xs generalizing row with
  | nil => exact absurd h (Nat.not_lt_zero row)
  | cons x xs ih =>
    rw [List.map_cons, List.sum_cons] at h
    by_cases hrow : row < height x
    · exact ⟨⟨0, Nat.succ_pos _⟩, ⟨row, hrow⟩, Nat.zero_add row⟩
    · have hbelow : row - height x < (xs.map height).sum := by omega
      obtain ⟨i, r, hr⟩ := ih hbelow
      refine ⟨i.succ, r, ?_⟩
      have hstart := blockStart_cons_succ height xs x i
      change blockStart height (x :: xs) (i + 1) + r = row
      omega

/-- Every row below the end belongs to one block and to one row of it. -/
theorem existsUnique_blockStart_add {row : ℕ} (h : row < (xs.map height).sum) :
    ∃! place : (i : Fin xs.length) × Fin (height (xs.get i)),
      blockStart height xs place.1 + place.2 = row := by
  obtain ⟨i, r, hr⟩ := exists_blockStart_add h
  refine ⟨⟨i, r⟩, hr, ?_⟩
  rintro ⟨j, s⟩ hs
  obtain ⟨rfl, hrs⟩ := blockStart_add_inj (hs.trans hr.symm)
  obtain rfl : s = r := Fin.ext hrs
  rfl

/-- An element of one of several lists, found in all of them one after the other. -/
theorem getElem?_flatMap (f : β → List γ) (hf : ∀ x, (f x).length = height x) (i : Fin xs.length)
    (r : Fin (height (xs.get i))) :
    (xs.flatMap f)[blockStart height xs i + r]? = (f (xs.get i))[r.val]? := by
  have hsplit : xs.flatMap f =
      (xs.take i).flatMap f ++ (f (xs.get i) ++ (xs.drop (i + 1)).flatMap f) := by
    rw [← List.flatMap_cons, ← List.flatMap_append, List.get_eq_getElem, List.getElem_cons_drop,
      List.take_append_drop]
  have hstart : blockStart height xs i = ((xs.take i).flatMap f).length := by
    rw [blockStart, List.length_flatMap, funext hf]
  rw [hsplit, hstart, List.getElem?_append_right (Nat.le_add_right _ _), Nat.add_sub_cancel_left,
    List.getElem?_append_left ((hf _).symm ▸ r.isLt)]

/-- Lines that are those of blocks, one block after the other, stand where their blocks start. -/
theorem exists_line_of_flatMap {block : β → List γ} (hblock : ∀ x, (block x).length = height x)
    {m : ℕ} {line : Fin m → γ} (h : List.ofFn line = xs.flatMap block) :
    m = (xs.map height).sum ∧ ∀ (i : Fin xs.length) (r : Fin (height (xs.get i))),
      ∃ row : Fin m, row.val = blockStart height xs i + r ∧
        (block (xs.get i))[r.val]? = some (line row) := by
  have hm : m = (xs.map height).sum := by
    rw [← List.length_ofFn (f := line), h, List.length_flatMap, funext hblock]
  refine ⟨hm, fun i r => ⟨⟨blockStart height xs i + r, hm ▸ blockStart_add_lt i r⟩, rfl, ?_⟩⟩
  rw [← getElem?_flatMap block hblock i r, ← h, List.getElem?_ofFn, dif_pos]

end Blocks

section Equations

variable {n : ℕ}

/-- The rows of a stack together with their targets. -/
noncomputable def Stack.equations (s : Stack ℝ n) : List ((Fin n → ℝ) × ℝ) :=
  List.ofFn fun i => (s.matrix.toMatrix i, s.target i)

/-- The rows of an equality over all variables together with their targets. -/
noncomputable def PlacedEquality.equations (e : PlacedEquality ℝ n) : List ((Fin n → ℝ) × ℝ) :=
  List.ofFn fun r => (e.rows.toMatrix r, e.equality.target r)

theorem Stack.equations_push (s : Stack ℝ n) (e : PlacedEquality ℝ n) :
    (s.push e).equations = s.equations ++ e.equations := by
  refine List.ofFn_add.trans ?_
  congr 1
  · refine congrArg List.ofFn (funext fun i => Prod.ext ?_ ?_)
    · exact Mat.above_castAdd s.matrix e.rows i
    · exact Vec.get_append_castAdd s.target e.equality.target i
  · refine congrArg List.ofFn (funext fun i => Prod.ext ?_ ?_)
    · exact Mat.above_natAdd s.matrix e.rows i
    · exact Vec.get_append_natAdd s.target e.equality.target i

/-- A stack grows by the equations of one equality after the other. -/
theorem Stack.equations_foldl_push (s : Stack ℝ n) (equalities : List (PlacedEquality ℝ n)) :
    (equalities.foldl push s).equations =
      s.equations ++ equalities.flatMap PlacedEquality.equations := by
  induction equalities generalizing s with
  | nil => exact (List.append_nil _).symm
  | cons e es ih =>
    rw [List.foldl_cons, ih, equations_push, List.flatMap_cons, List.append_assoc]

theorem placedProblem_equations (costs : List (PlacedCost ℝ n))
    (equalities : List (PlacedEquality ℝ n)) :
    (List.ofFn fun i => ((placedProblem costs equalities).matrix.toMatrix i,
      (placedProblem costs equalities).target i)) =
      equalities.flatMap PlacedEquality.equations :=
  Stack.equations_foldl_push Stack.empty equalities

/-- By how much a row misses its target at a point. -/
def gapOf (z : Vec ℝ n) (q : (Fin n → ℝ) × ℝ) : ℝ := q.1 ⬝ᵥ z.get - q.2

theorem PlacedEquality.map_gapOf_equations (e : PlacedEquality ℝ n) (z : Vec ℝ n) :
    e.equations.map (gapOf z) = List.ofFn fun r =>
      e.equality.eval (z.select e.place) r - e.equality.target r := by
  rw [equations, List.map_ofFn]
  refine congrArg List.ofFn (funext fun r => ?_)
  exact congrArg (· - e.equality.target r) (congrFun (e.rows_mulVec z) r)

/-- The rows miss their targets by what the equalities miss theirs. -/
theorem placedProblem_gaps (costs : List (PlacedCost ℝ n)) (equalities : List (PlacedEquality ℝ n))
    (z : Vec ℝ n) :
    (List.ofFn fun i => (placedProblem costs equalities).matrix.mulVec z i -
      (placedProblem costs equalities).target i) =
      equalities.flatMap fun e => List.ofFn fun r =>
        e.equality.eval (z.select e.place) r - e.equality.target r := by
  have hrows : (fun i => (placedProblem costs equalities).matrix.mulVec z i -
      (placedProblem costs equalities).target i) =
      gapOf z ∘ fun i => ((placedProblem costs equalities).matrix.toMatrix i,
        (placedProblem costs equalities).target i) := by
    funext i
    rw [Mat.coe_mulVec]
    rfl
  rw [hrows, ← List.map_ofFn, placedProblem_equations, List.map_flatMap]
  simp only [PlacedEquality.map_gapOf_equations]

end Equations

namespace Program

section Terms

variable (p : Program ℝ)

/-- The rows of an equality over all variables together with their targets. The coefficients of a
variable that is named more than once add up. -/
noncomputable def equations (e : LinearEquality ℝ × List Variable) :
    List ((Fin p.numVars → ℝ) × ℝ) :=
  List.ofFn fun r => (fun j => ∑ q : Fin e.1.numVars,
    if p.positionAt e.2 q = some j then e.1.matrix r q else 0, e.1.target r)

/-- By how much the value of an equality misses its target, row by row. -/
noncomputable def gapAt (b : Binding ℝ) (z : Vec ℝ p.numVars) : Except (Fault ℝ) (List ℝ) := do
  match b.evaluator, ← p.evalAt b z with
  | .linearEquality e, .vector v => do
    let value ← v.ofSize e.numRows
    .ok (List.ofFn fun r => value r - e.target r)
  | _, _ => .error .shapesDiffer

/-- By how much the values of all equalities miss their targets, in the order in which the
equalities were added. -/
noncomputable def gaps (z : Vec ℝ p.numVars) : Except (Fault ℝ) (List ℝ) :=
  ((p.bindings.toList.filter fun b => b.kind = .linearEquality).mapM fun b =>
    p.gapAt b z).map List.flatten

theorem gapAt_linearEquality {b : Binding ℝ} {e : LinearEquality ℝ}
    (h : b.evaluator = .linearEquality e) (z : Vec ℝ p.numVars) :
    p.gapAt b z = (p.locate b.vars e.numVars).map fun place =>
      List.ofFn fun r => e.eval (z.select place) r - e.target r := by
  rw [gapAt, h, p.evalAt_linearEquality h]
  cases p.locate b.vars e.numVars with
  | error f => rfl
  | ok place =>
    change (AnyVec.ofSize ⟨e.numRows, e.eval (z.select place)⟩ e.numRows >>= _) = _
    rw [AnyVec.ofSize_mk]
    rfl

/-- The equalities one by one miss their targets by what the located equalities do. -/
theorem gaps_eq (z : Vec ℝ p.numVars) :
    p.gaps z = p.placedEqualities.map fun es => es.flatMap fun e =>
      List.ofFn fun r => e.equality.eval (z.select e.place) r - e.equality.target r := by
  have hplaced : p.placedEqualities = p.linearEqualities.mapM fun x =>
      (p.locate x.2 x.1.numVars).map fun place => (⟨x.1, place⟩ : PlacedEquality ℝ p.numVars) := rfl
  have hgaps : p.gaps z = (p.linearEqualities.mapM fun x =>
      ((p.locate x.2 x.1.numVars).map fun place => (⟨x.1, place⟩ : PlacedEquality ℝ p.numVars)).map
        fun e => List.ofFn fun r =>
          e.equality.eval (z.select e.place) r - e.equality.target r).map List.flatten := by
    refine congrArg (Except.map List.flatten) (mapM_filter_eq (fun b => ?_) (fun b c hb => ?_) _)
    · rw [Binding.kind]
      cases b.evaluator with
      | _ => rfl
    · split at hb
      · rename_i e he
        cases hb
        rw [p.gapAt_linearEquality he]
        cases p.locate b.vars e.numVars with
        | error f => rfl
        | ok place => rfl
      · cases hb
  rw [hgaps, ← map_mapM, ← hplaced]
  cases p.placedEqualities with
  | error f => rfl
  | ok es => exact congrArg Except.ok List.flatMap_def.symm

variable {p} {es : List (PlacedEquality ℝ p.numVars)}

theorem equations_placed (hes : p.placedEqualities = .ok es) :
    es.flatMap PlacedEquality.equations = p.linearEqualities.flatMap p.equations := by
  rw [List.flatMap_def, List.flatMap_def]
  refine congrArg List.flatten (map_eq_of_forall₂ ?_ (mapM_eq_ok_iff.mp hes)).symm
  intro x y hy
  obtain ⟨place, hplace, hy⟩ := bind_eq_ok hy
  cases hy
  refine congrArg List.ofFn (funext fun r => Prod.ext (funext fun j => ?_) rfl)
  refine (Finset.sum_congr rfl fun q _ => ?_).trans
    (PlacedEquality.rows_apply ⟨x.1, place⟩ r j).symm
  simp only [p.positionAt_of_locate hplace, Option.some.injEq]

end Terms

section Stacked

variable {p : Program ℝ}

theorem length_equations (e : LinearEquality ℝ × List Variable) :
    (p.equations e).length = e.1.numRows := List.length_ofFn

/-- Every program that operations can build is assembled. The rows of each equality stand one below
the other, in the order in which the equalities were added and without a gap, and the constraints
miss their targets by what the equalities miss theirs. -/
theorem assemble_stacks {δ : Type} [ArraySource δ ℝ] {F : Factorizations ℝ} {k : ℕ}
    (hp : Reachable δ F p k) :
    ∃ m, ∃ P : Problem ℝ p.numVars m, p.assemble.result = .ok ⟨p.numVars, m, P⟩ ∧
      m = (p.linearEqualities.map fun e => e.1.numRows).sum ∧
      (∀ i : Fin p.linearEqualities.length, ∀ r : Fin (p.linearEqualities.get i).1.numRows,
        ∃ row : Fin m, row.val = blockStart (fun e => e.1.numRows) p.linearEqualities i + r ∧
          (∀ j, P.matrix row j = ∑ q : Fin (p.linearEqualities.get i).1.numVars,
            if p.positionAt (p.linearEqualities.get i).2 q = some j
              then (p.linearEqualities.get i).1.matrix r q else 0) ∧
          P.target row = (p.linearEqualities.get i).1.target r) ∧
      (∀ row : Fin m, ∃! place : (i : Fin p.linearEqualities.length) ×
          Fin (p.linearEqualities.get i).1.numRows,
        blockStart (fun e => e.1.numRows) p.linearEqualities place.1 + place.2 = row) ∧
      ∀ z, p.gaps z = .ok (List.ofFn fun row => P.matrix.mulVec z row - P.target row) := by
  rcases hp.closed.exists_placed with ⟨⟨cs, hcs⟩, es, hes⟩
  have hrows := (placedProblem_equations cs es).trans (equations_placed hes)
  obtain ⟨hm, hline⟩ := exists_line_of_flatMap length_equations hrows
  refine ⟨_, placedProblem cs es, assemble_eq hcs hes, hm, fun i r => ?_, fun row => ?_,
    fun z => ?_⟩
  · obtain ⟨row, hrow, hequation⟩ := hline i r
    rw [equations, List.getElem?_ofFn, dif_pos r.isLt, Option.some_inj] at hequation
    refine ⟨row, hrow, fun j => ?_, ?_⟩
    · exact (congrFun (congrArg Prod.fst hequation) j).symm
    · exact (congrArg Prod.snd hequation).symm
  · exact existsUnique_blockStart_add (row.isLt.trans_eq hm)
  · rw [gaps_eq, hes, placedProblem_gaps]
    rfl

/-- The rows `[1, 2]` and `[3, 4]` with the targets `5` and `6`. -/
noncomputable def twoRows : LinearEquality ℝ := ⟨2, 2, slanted.quadratic, slanted.linear⟩

/-- No row over one variable. -/
noncomputable def noRow : LinearEquality ℝ := ⟨0, 1, Mat.zero, Vec.zero⟩

/-- The row `[7, 8]` with the target `9`. -/
noncomputable def oneRow : LinearEquality ℝ :=
  ⟨1, 2, Mat.ofFn fun _ j => ((j + 7 : ℕ) : ℝ), Vec.ofFn fun _ => ((9 : ℕ) : ℝ)⟩

theorem twoRows_apply (r q : Fin 2) : twoRows.matrix.get r q = ((2 * r + q + 1 : ℕ) : ℝ) :=
  Mat.get_ofFn _ r q

theorem oneRow_apply (q : Fin 2) : oneRow.matrix.get (0 : Fin 1) q = ((q + 7 : ℕ) : ℝ) :=
  Mat.get_ofFn _ (0 : Fin 1) q

/-- Two rows over both variables in reverse order, an equality without rows and a row that names the
first variable twice, with a cost between. -/
noncomputable def layered : Program ℝ where
  vars := #[firstVar, secondVar]
  bindings := #[⟨.linearEquality twoRows, [secondVar, firstVar], length_pair secondVar firstVar⟩,
    slantedOn firstVar secondVar, ⟨.linearEquality noRow, [firstVar], length_single firstVar⟩,
    ⟨.linearEquality oneRow, [firstVar, firstVar], length_pair firstVar firstVar⟩]
  values := #[none, none]
  optimalCost := none
  solverResult := none

theorem layered_reachable : Reachable (NDArray ℝ) Factorizations.standard layered 2 := by
  have htwo := (twoVars_reachable Factorizations.standard).add
    ⟨.linearEquality twoRows, [secondVar, firstVar], rfl⟩
    (Evaluator.read_linearEquality twoRows) (by simp)
  have hcost := htwo.add (slantedOn firstVar secondVar)
    (Evaluator.read_quadraticCost slanted) (by simp [slantedOn])
  have hnone := hcost.add ⟨.linearEquality noRow, [firstVar], rfl⟩
    (Evaluator.read_linearEquality noRow) (by simp)
  exact hnone.add ⟨.linearEquality oneRow, [firstVar, firstVar], rfl⟩
    (Evaluator.read_linearEquality oneRow) (by simp)

theorem layered_positionAt :
    layered.positionAt [secondVar, firstVar] 0 = some (1 : Fin 2) ∧
      layered.positionAt [secondVar, firstVar] 1 = some (0 : Fin 2) ∧
      layered.positionAt [firstVar, firstVar] 0 = some (0 : Fin 2) ∧
      layered.positionAt [firstVar, firstVar] 1 = some (0 : Fin 2) := by
  with_unfolding_all exact ⟨rfl, rfl, rfl, rfl⟩

/-- A row over two variables, from its coefficients for the variables at two places. -/
theorem sum_two_places {place : ℕ → Option (Fin 2)} {a b : Fin 2} (ha : place 0 = some a)
    (hb : place 1 = some b) (row : Fin 2 → ℝ) {combined : Fin 2 → ℝ}
    (hcombined : ∀ j, (if a = j then row 0 else 0) + (if b = j then row 1 else 0) = combined j)
    (j : Fin 2) : (∑ q : Fin 2, if place q = some j then row q else 0) = combined j := by
  rw [Fin.sum_univ_two, ← hcombined]
  change (if place 0 = some j then row 0 else 0) + (if place 1 = some j then row 1 else 0) = _
  simp only [ha, hb, Option.some.injEq]

/-- The rows of the equalities one below the other, with coefficients of one variable added up. -/
theorem layered_assemble : Reachable (NDArray ℝ) Factorizations.standard layered 2 ∧
    ∃ P : Problem ℝ layered.numVars 3, layered.assemble.result = .ok ⟨2, 3, P⟩ ∧
      (∀ i j, P.matrix i j = ![![2, 1], ![4, 3], ![15, 0]] i j) ∧
      (∀ i, P.target i = ![5, 6, 9] i) ∧
      ∀ z, layered.gaps z = .ok (List.ofFn fun row => P.matrix.mulVec z row - P.target row) := by
  obtain ⟨m, P, hP, hm, hrows, -, hgaps⟩ := assemble_stacks layered_reachable
  obtain rfl : m = 3 := hm
  obtain ⟨row₀, h₀, hmatrix₀, htarget₀⟩ := hrows (0 : Fin 3) (0 : Fin 2)
  obtain ⟨row₁, h₁, hmatrix₁, htarget₁⟩ := hrows (0 : Fin 3) (1 : Fin 2)
  obtain ⟨row₂, h₂, hmatrix₂, htarget₂⟩ := hrows (2 : Fin 3) (0 : Fin 1)
  obtain rfl : row₀ = 0 := Fin.ext h₀
  obtain rfl : row₁ = 1 := Fin.ext h₁
  obtain rfl : row₂ = 2 := Fin.ext h₂
  obtain ⟨hsecond, hfirst, htwice, htwice'⟩ := layered_positionAt
  refine ⟨layered_reachable, P, hP, fun i => ?_, fun i => ?_, hgaps⟩
  · fin_cases i
    · exact fun j => (hmatrix₀ j).trans
        (sum_two_places hsecond hfirst (twoRows.matrix.get (0 : Fin 2))
        (Fin.forall_fin_two.mpr (by norm_num [twoRows_apply])) j)
    · exact fun j => (hmatrix₁ j).trans
        (sum_two_places hsecond hfirst (twoRows.matrix.get (1 : Fin 2))
        (Fin.forall_fin_two.mpr (by norm_num [twoRows_apply])) j)
    · exact fun j => (hmatrix₂ j).trans
        (sum_two_places htwice htwice' (oneRow.matrix.get (0 : Fin 1))
        (Fin.forall_fin_two.mpr (by norm_num [oneRow_apply])) j)
  · fin_cases i
    · exact htarget₀
    · exact htarget₁
    · exact htarget₂

end Stacked

end Program

end QuadraticProgram
