import QuadraticProgram.Proofs.Program.History
import QuadraticProgram.Proofs.Program.Renumbering

/-! # Reading a solution back

A variable reads as what the latest write stored for it, and as missing if it was created since or
nothing was written. What is refused and what creates variables changes no value that could be read.
Every variable has a place for its value, except those that a request for a truth value's worth of
variables has created since the latest write.
-/

namespace QuadraticProgram

variable {δ α : Type} [Scalar α] [ArraySource δ α]

/-- How many variables an operation creates without places for their values. -/
def ProgramOp.unplaced : ProgramOp δ α → ℕ
  | .newVariables (.truth b) _ => b.toNat
  | _ => 0

namespace Program

variable {F : Factorizations α} {p : Program α} {op : ProgramOp δ α} {k : ℕ}

/-- The values that an operation writes to a program, if it succeeds in writing any. -/
def valuesWritten (F : Factorizations α) (p : Program α) : ProgramOp δ α → Option (AnyVec α)
  | .setValues values =>
    match readVec values with
    | .ok v => if v.size = p.numVars then some v else none
    | .error _ => none
  | .solve checks =>
    match (p.solveOutcome F checks).result with
    | .ok o => some ⟨o.numVars, o.outcome.x⟩
    | .error _ => none
  | _ => none

/-- A write succeeds and replaces the values of all variables. -/
theorem perform_of_valuesWritten {v : AnyVec α} (h : p.valuesWritten F op = some v) (k : ℕ) :
    v.size = p.numVars ∧ (∃ a, (p.perform F k op).answer = .ok a) ∧
      (p.perform F k op).program.vars = p.vars ∧
      (p.perform F k op).program.values = v.entries.toArray.map some := by
  cases op with
  | setValues values =>
    rw [valuesWritten] at h
    cases hread : readVec values with
    | error e =>
      rw [hread] at h
      cases h
    | ok w =>
      rw [hread] at h
      obtain ⟨hsize, hv⟩ := Option.ite_none_right_eq_some.mp h
      cases hv
      rw [perform_setValues_of_read hread, if_pos hsize]
      exact ⟨hsize, ⟨_, rfl⟩, rfl, rfl⟩
  | solve checks =>
    rw [valuesWritten] at h
    cases ho : (p.solveOutcome F checks).result with
    | error e =>
      rw [ho] at h
      cases h
    | ok o =>
      rw [ho] at h
      cases h
      rw [perform_solve_of_outcome ho]
      exact ⟨solveOutcome_numVars ho, ⟨_, rfl⟩, rfl, rfl⟩
  | _ => cases h

/-- An operation that writes no values leaves those that are there, and adds places for the values
of the variables that it creates. -/
theorem perform_of_not_valuesWritten (h : p.valuesWritten F op = none) (k : ℕ) :
    ∃ places, (p.perform F k op).program.values = p.values ++ Array.replicate places none ∧
      (p.perform F k op).program.numVars = p.numVars + places + op.unplaced := by
  have hsame : p.values = p.values ++ Array.replicate 0 none ∧
      p.numVars = p.numVars + 0 + 0 := ⟨Array.append_empty.symm, rfl⟩
  cases op with
  | newVariables count name =>
    cases count with
    | number count =>
      by_cases hneg : count < 0
      · rw [perform_newVariables_of_neg hneg]
        exact ⟨0, hsame⟩
      · rw [perform_newVariables_of_not_neg hneg]
        exact ⟨_, rfl, Array.size_append⟩
    | truth b =>
      refine ⟨0, hsame.1, ?_⟩
      rw [perform_newVariables_truth, numVars, appendVars, Array.size_append, freshVariables,
        Array.size_ofFn]
      rfl
  | add spec vars =>
    cases haccept : p.acceptSpec spec vars with
    | error e =>
      rw [perform_add_of_error haccept]
      exact ⟨0, hsame⟩
    | ok b =>
      rw [perform_add_of_ok haccept]
      exact ⟨0, hsame⟩
  | setValues values =>
    rw [valuesWritten] at h
    cases hread : readVec values with
    | error e =>
      rw [perform_setValues_of_error hread]
      exact ⟨0, hsame⟩
    | ok v =>
      rw [hread] at h
      have hsize : v.size ≠ p.numVars :=
        fun hsize => Option.some_ne_none v ((if_pos hsize).symm.trans h)
      rw [perform_setValues_of_read hread, if_neg hsize]
      exact ⟨0, hsame⟩
  | setOptimalCost cost => exact ⟨0, hsame⟩
  | setSolverResult result => exact ⟨0, hsame⟩
  | solve checks =>
    rw [valuesWritten] at h
    cases ho : (p.solveOutcome F checks).result with
    | error e =>
      rw [perform_solve_of_error ho]
      exact ⟨0, hsame⟩
    | ok o =>
      rw [ho] at h
      cases h

/-- A refused operation has written nothing, and only two kinds of operations write values. -/
theorem valuesWritten_eq_none (h : (∃ e, (p.perform F k op).answer = .error e) ∨
    ((∀ values, op ≠ .setValues values) ∧ ∀ checks, op ≠ .solve checks)) :
    p.valuesWritten F op = none := by
  rcases h with ⟨e, he⟩ | ⟨hset, hsolve⟩
  · refine Option.eq_none_iff_forall_ne_some.mpr fun v hv => ?_
    obtain ⟨-, ⟨a, ha⟩, -⟩ := perform_of_valuesWritten hv k
    cases he.symm.trans ha
  · cases op with
    | setValues values => exact absurd rfl (hset values)
    | solve checks => exact absurd rfl (hsolve checks)
    | _ => rfl

theorem Consistent.solution_eq_valueAt (h : p.Consistent k) {i : ℕ} {v : Variable}
    (hv : p.vars[i]? = some v) : p.solution v = p.valueAt i := by
  obtain ⟨j, hj, rfl⟩ := h.index_of_id hv rfl
  rw [solution, hj]
  rfl

theorem solution_eq_ok_iff {v : Variable} {x : Option α} :
    p.solution v = .ok x ↔ ∃ i, p.index v = .ok i ∧ p.values[i.val]? = some x := by
  rw [solution]
  cases hi : p.index v with
  | error e =>
    constructor
    · intro h
      cases h
    · rintro ⟨i, h, -⟩
      cases h
  | ok i =>
    change p.valueAt i = .ok x ↔ _
    rw [valueAt]
    cases hx : p.values[i.val]? with
    | none =>
      constructor
      · intro h
        cases h
      · rintro ⟨j, hj, hx'⟩
        cases hj
        cases hx.symm.trans hx'
    | some y =>
      constructor
      · intro h
        cases h
        exact ⟨i, rfl, hx⟩
      · rintro ⟨j, hj, hx'⟩
        cases hj
        exact congrArg Except.ok (Option.some.inj (hx.symm.trans hx'))

/-- A value that can be read stays as it is until values are written. -/
theorem Consistent.solution_perform (h : p.Consistent k) (hop : p.valuesWritten F op = none)
    {v : Variable} {x : Option α} (hx : p.solution v = .ok x) :
    (p.perform F k op).program.solution v = .ok x := by
  obtain ⟨i, hi, hx⟩ := solution_eq_ok_iff.mp hx
  obtain ⟨count, name, hvars, -⟩ := p.exists_perform_vars F k op
  obtain ⟨places, hvalues, -⟩ := perform_of_not_valuesWritten hop k
  have hold : (p.perform F k op).program.vars[i.val]? = some p.vars[i] := by
    rw [hvars, Array.getElem?_append_left i.isLt]
    exact Array.getElem?_eq_getElem i.isLt
  obtain ⟨j, hj, hji⟩ := (h.perform F op).index_of_id hold (id_of_index hi)
  refine solution_eq_ok_iff.mpr ⟨j, hj, ?_⟩
  obtain ⟨hlt, -⟩ := Array.getElem?_eq_some_iff.mp hx
  rw [hji, hvalues, Array.getElem?_append_left hlt, hx]

theorem mapM_valueAt {vs : List Variable} {is : List (Fin p.numVars)}
    (h : List.Forall₂ (fun v i => p.index v = .ok i) vs is) :
    (is.mapM fun i => p.valueAt i.val) = vs.mapM p.solution := by
  induction h with
  | nil => rfl
  | @cons v i vs is hi _ ih =>
    have hread : p.solution v = p.valueAt i.val := by
      rw [solution, hi]
      rfl
    rw [List.mapM_cons, List.mapM_cons, hread, ih]

/-- Variables of the program are read together as they are read one by one. -/
theorem solutions_eq_mapM {vs : List Variable} (hvs : ∀ v ∈ vs, v ∈ p.vars) :
    p.solutions vs = vs.mapM p.solution := by
  obtain ⟨is, his⟩ := exists_mapM_eq_ok fun v hv =>
    (p.index_eq_ok_iff v).mpr ⟨v, hvs v hv, rfl⟩
  rw [solutions, his]
  exact mapM_valueAt (mapM_eq_ok_iff.mp his)

/-- The values that are stored are those of the variables, in the order of their creation. -/
theorem Consistent.solutions_take (h : p.Consistent k) (hsize : p.values.size ≤ p.vars.size) :
    p.solutions (p.vars.toList.take p.values.size) = .ok p.values.toList := by
  have hlength : (p.vars.toList.take p.values.size).length = p.values.size := by
    rw [List.length_take, Array.length_toList, Nat.min_eq_left hsize]
  rw [solutions_eq_mapM fun v hv => Array.mem_toList_iff.mp (List.mem_of_mem_take hv),
    mapM_eq_ok_iff, List.forall₂_iff_get]
  refine ⟨hlength.trans Array.length_toList.symm, fun i hi hi' => ?_⟩
  rw [List.get_eq_getElem, List.get_eq_getElem, List.getElem_take, Array.getElem_toList,
    Array.getElem_toList]
  have hplace : i < p.values.size := hlength ▸ hi
  rw [h.solution_eq_valueAt (Array.getElem?_eq_getElem (hplace.trans_le hsize)), valueAt,
    Array.getElem?_eq_getElem hplace]

/-- The variables of an earlier program are those in front. -/
theorem Consistent.mem_vars_iff (h : p.Consistent k) {q : Program α} {fresh : Array Variable}
    (hvars : p.vars = q.vars ++ fresh) {i : ℕ} {v : Variable} (hv : p.vars[i]? = some v) :
    v ∈ q.vars ↔ i < q.numVars := by
  obtain ⟨i', hi', rfl⟩ := h.index_of_id hv rfl
  constructor
  · intro hmem
    obtain ⟨j, hj⟩ := Array.mem_iff_getElem?.mp hmem
    obtain ⟨hlt, -⟩ := Array.getElem?_eq_some_iff.mp hj
    -- A variable among the earlier ones is in front, and nowhere else.
    have hfront : p.vars[j]? = some v := by
      rw [hvars, Array.getElem?_append_left hlt, hj]
    obtain ⟨j', hj', rfl⟩ := h.index_of_id hfront rfl
    rw [Except.ok.inj (hi'.symm.trans hj')]
    exact hlt
  · intro hlt
    rw [hvars, Array.getElem?_append_left hlt] at hv
    exact Array.mem_of_getElem? hv

end Program

namespace History

variable {F : Factorizations α} {start : Program α × ℕ} {h : History δ α}

/-- The program that the latest write found, and the values that it wrote. -/
def lastWrite (F : Factorizations α) (start : Program α × ℕ) :
    History δ α → Option (Program α × AnyVec α)
  | [] => none
  | (_, op) :: earlier =>
    match (after F start earlier).1.valuesWritten F op with
    | some v => some ((after F start earlier).1, v)
    | none => lastWrite F start earlier

/-- How many variables have been created without places for their values since the latest write. -/
def unplaced (F : Factorizations α) (start : Program α × ℕ) : History δ α → ℕ
  | [] => 0
  | (_, op) :: earlier =>
    match (after F start earlier).1.valuesWritten F op with
    | some _ => 0
    | none => unplaced F start earlier + op.unplaced

/-- The values that a write leaves behind, if there was one. -/
def stored : Option (Program α × AnyVec α) → Array (Option α)
  | none => #[]
  | some (_, v) => v.entries.toArray.map some

theorem lastWrite_cons_of_written {gap : ℕ} {op : ProgramOp δ α} {v : AnyVec α}
    (hv : (after F start h).1.valuesWritten F op = some v) :
    lastWrite F start ((gap, op) :: h) = some ((after F start h).1, v) ∧
      unplaced F start ((gap, op) :: h) = 0 := by
  rw [lastWrite, unplaced, hv]
  exact ⟨rfl, rfl⟩

theorem lastWrite_cons_of_not_written {gap : ℕ} {op : ProgramOp δ α}
    (hv : (after F start h).1.valuesWritten F op = none) :
    lastWrite F start ((gap, op) :: h) = lastWrite F start h ∧
      unplaced F start ((gap, op) :: h) = unplaced F start h + op.unplaced := by
  rw [lastWrite, unplaced, hv]
  exact ⟨rfl, rfl⟩

/-- The values are those of the latest write, with missing ones behind them. -/
theorem exists_values_after (F : Factorizations α) (k : ℕ) (h : History δ α) :
    ∃ places, (after F (Program.empty, k) h).1.values =
        stored (lastWrite F (Program.empty, k) h) ++ Array.replicate places none ∧
      (after F (Program.empty, k) h).1.numVars =
        (after F (Program.empty, k) h).1.values.size + unplaced F (Program.empty, k) h := by
  induction h with
  | nil => exact ⟨0, rfl, rfl⟩
  | cons step earlier ih =>
    obtain ⟨gap, op⟩ := step
    obtain ⟨places, hvalues, hsize⟩ := ih
    rw [after]
    cases hv : (after F (Program.empty, k) earlier).1.valuesWritten F op with
    | some v =>
      -- The write makes up for places that were missing before.
      rw [(lastWrite_cons_of_written hv).1, (lastWrite_cons_of_written hv).2]
      obtain ⟨hfits, -, hvars, hnew⟩ := Program.perform_of_valuesWritten hv
        ((after F (Program.empty, k) earlier).2 + gap)
      refine ⟨0, hnew.trans Array.append_empty.symm, ?_⟩
      dsimp only
      rw [Program.numVars, hvars, hnew, Array.size_map]
      exact hfits.symm.trans v.entries.entries.size_toArray.symm
    | none =>
      rw [(lastWrite_cons_of_not_written hv).1, (lastWrite_cons_of_not_written hv).2]
      obtain ⟨more, hnew, hgrown⟩ := Program.perform_of_not_valuesWritten hv
        ((after F (Program.empty, k) earlier).2 + gap)
      refine ⟨places + more, ?_, ?_⟩
      · dsimp only
        rw [hnew, hvalues, Array.append_assoc, Array.replicate_append_replicate]
      · dsimp only
        rw [hgrown, hnew, Array.size_append, Array.size_replicate, hsize]
        omega

/-- A write has a value for each variable that the program had then, and these stay in front. -/
theorem lastWrite_spec {q : Program α} {w : AnyVec α} (hw : lastWrite F start h = some (q, w)) :
    w.size = q.numVars ∧ ∃ fresh, (after F start h).1.vars = q.vars ++ fresh := by
  induction h with
  | nil => cases hw
  | cons step earlier ih =>
    obtain ⟨gap, op⟩ := step
    rw [after]
    cases hv : (after F start earlier).1.valuesWritten F op with
    | some v =>
      rw [(lastWrite_cons_of_written hv).1] at hw
      cases hw
      obtain ⟨hfits, -, hvars, -⟩ := Program.perform_of_valuesWritten hv
        ((after F start earlier).2 + gap)
      exact ⟨hfits, #[], hvars.trans Array.append_empty.symm⟩
    | none =>
      rw [(lastWrite_cons_of_not_written hv).1] at hw
      obtain ⟨hfits, older, holder⟩ := ih hw
      obtain ⟨count, name, hnewer, -⟩ := (after F start earlier).1.exists_perform_vars F
        ((after F start earlier).2 + gap) op
      refine ⟨hfits, older ++ Program.freshVariables count name
        ((after F start earlier).2 + gap), ?_⟩
      rw [← Array.append_assoc, ← holder]
      exact hnewer

/-- What is stored for a variable without a value of the latest write is missing. -/
theorem getElem?_stored_append {last : Option (Program α × AnyVec α)} {places i : ℕ}
    (hi : i < (stored last ++ Array.replicate places none).size) :
    (stored last ++ Array.replicate places none)[i]? =
      some (last.bind fun s => s.2.entries.toArray[i]?) := by
  cases last with
  | none =>
    rw [stored, Array.empty_append] at hi ⊢
    rw [Array.size_replicate] at hi
    exact Array.getElem?_replicate.trans (if_pos hi)
  | some s =>
    obtain ⟨q, w⟩ := s
    rw [Array.size_append, Array.size_replicate, stored, Array.size_map] at hi
    rw [stored, Array.getElem?_append, Array.size_map, Array.getElem?_map, Option.bind_some]
    by_cases hw : i < w.entries.toArray.size
    · rw [if_pos hw, Array.getElem?_eq_getElem hw]
      rfl
    · rw [if_neg hw, Array.getElem?_eq_none (Nat.le_of_not_lt hw), Array.getElem?_replicate,
        if_pos (by omega)]

/-- Places can be missing only for variables of requests that do not count them by a number. -/
theorem unplaced_eq_zero {h : History δ α}
    (hh : ∀ gap name, (gap, .newVariables (.truth true) name) ∉ h) :
    unplaced F start h = 0 := by
  induction h with
  | nil => rfl
  | cons step earlier ih =>
    obtain ⟨gap, op⟩ := step
    cases hv : (after F start earlier).1.valuesWritten F op with
    | some v => exact (lastWrite_cons_of_written hv).2
    | none =>
      rw [(lastWrite_cons_of_not_written hv).2,
        ih fun gap' name hmem => hh gap' name (List.mem_cons_of_mem _ hmem)]
      cases op with
      | newVariables count name =>
        cases count with
        | number count => rfl
        | truth b =>
          cases b with
          | false => rfl
          | true => exact absurd List.mem_cons_self (hh gap name)
      | _ => rfl

/-- After every history of a program, a variable that has a place for its value reads as what the
latest write stored for it; a variable that was created since then reads as missing, and so do all
if nothing was written. All variables that the latest write found have places, and the only ones
without are those of requests for a truth value's worth of variables since. Refused operations and
operations that neither set values nor solve keep every value that can be read. Several variables
are read one by one, and all values are those of the variables in the order of creation. -/
theorem solution_after (F : Factorizations α) (k : ℕ) (h : History δ α) :
    let p := (after F (Program.empty, k) h).1
    let last := lastWrite F (Program.empty, k) h
    (∀ i v, p.vars[i]? = some v → p.solution v =
      if i < p.values.size then .ok (last.bind fun s => s.2.entries.toArray[i]?)
      else .error .outOfRange) ∧
    (∀ q w, last = some (q, w) → w.size = q.numVars ∧ q.numVars ≤ p.values.size ∧
      ∀ i v, p.vars[i]? = some v → (v ∈ q.vars ↔ i < q.numVars)) ∧
    p.values.size + unplaced F (Program.empty, k) h = p.numVars ∧
    ((∀ gap name, (gap, .newVariables (.truth true) name) ∉ h) →
      p.values.size = p.numVars) ∧
    (∀ gap op,
      (∃ e, (p.perform F ((after F (Program.empty, k) h).2 + gap) op).answer = .error e) ∨
        ((∀ values, op ≠ .setValues values) ∧ ∀ checks, op ≠ .solve checks) →
      ∀ v x, p.solution v = .ok x →
        (after F (Program.empty, k) ((gap, op) :: h)).1.solution v = .ok x) ∧
    (∀ vs, (∀ v ∈ vs, v ∈ p.vars) → p.solutions vs = vs.mapM p.solution) ∧
    p.solutions (p.vars.toList.take p.values.size) = .ok p.values.toList := by
  intro p last
  have hp : p.Consistent (after F (Program.empty, k) h).2 := consistent_after k h
  obtain ⟨places, hvalues, hsize⟩ := exists_values_after F k h
  refine ⟨fun i v hv => ?_, fun q w hw => ?_, hsize.symm, fun hh => ?_, fun gap op hop v x hx => ?_,
    fun vs hvs => Program.solutions_eq_mapM hvs, hp.solutions_take ?_⟩
  · rw [hp.solution_eq_valueAt hv, Program.valueAt]
    by_cases hi : i < p.values.size
    · have hread : p.values[i]? = some (last.bind fun s => s.2.entries.toArray[i]?) :=
        (congrArg (·[i]?) hvalues).trans (getElem?_stored_append (hvalues ▸ hi))
      rw [if_pos hi, hread]
    · rw [if_neg hi, Array.getElem?_eq_none (Nat.le_of_not_lt hi)]
  · obtain ⟨hfits, fresh, hvars⟩ := lastWrite_spec hw
    refine ⟨hfits, ?_, fun i v hv => hp.mem_vars_iff hvars hv⟩
    have hwritten : p.values = stored (some (q, w)) ++ Array.replicate places none :=
      hvalues.trans (congrArg (stored · ++ Array.replicate places none) hw)
    rw [hwritten, Array.size_append, stored, Array.size_map, ← hfits]
    exact (w.entries.entries.size_toArray.symm.le).trans (Nat.le_add_right _ _)
  · exact (hsize.trans (congrArg _ (unplaced_eq_zero hh))).symm
  · exact (hp.mono (Nat.le_add_right _ gap)).solution_perform
      (Program.valuesWritten_eq_none hop) hx
  · exact (Nat.le_add_right _ _).trans hsize.ge

/-- After a request for a truth value's worth of variables there is a variable that cannot be
read. -/
theorem solution_truthCount :
    let p := (after Factorizations.standard (Program.empty, 0)
      [(0, (.newVariables (.truth true) "x" : ProgramOp (NDArray ℝ) ℝ))]).1
    p.vars = #[Program.firstVar] ∧ p.solution Program.firstVar = .error .outOfRange ∧
      p.values = #[] := by
  intro p
  have hp := consistent_after (F := Factorizations.standard) 0
    [(0, (.newVariables (.truth true) "x" : ProgramOp (NDArray ℝ) ℝ))]
  have hvars : p.vars = #[Program.firstVar] := rfl
  have hread : p.solution Program.firstVar = p.valueAt 0 :=
    hp.solution_eq_valueAt (congrArg (·[0]?) hvars)
  exact ⟨hvars, hread, rfl⟩

end History

end QuadraticProgram
