import QuadraticProgram.Proofs.Program.Optimality

/-! # What all programs have in common

No two variables of a program share a number, so each is found at its own position; every binding
has as many variables as its evaluator takes, all of the program. So every program is assembled, and
to data whose sizes fit. A refused operation leaves its program as it was, and there are as many
values as variables, with one exception: a request for a truth value's worth of variables is refused
when its variable is there already and the place for the value is not.
-/

namespace QuadraticProgram

section Arrays

variable {α : Type} [Scalar α] {n m : ℕ}

/-- A problem is read back from its arrays, so their sizes fit. -/
theorem AnyProblem.read_arrays (P : Problem α n m) :
    AnyProblem.read (NDArray.ofMat P.hessian) (NDArray.ofVec P.gradient)
      (some (NDArray.ofMat P.matrix)) (NDArray.ofVec P.target) = .ok ⟨n, m, P⟩ := by
  rw [AnyProblem.read, readVec_ofVec, readMat_ofMat]
  change (if hG : n = n ∧ n = n then _ else _) = _
  rw [dif_pos ⟨rfl, rfl⟩, readMat_ofMat, readVec_ofVec]
  change (if hA : n = n ∧ m = m then _ else _) = _
  rw [dif_pos ⟨rfl, rfl⟩]
  rfl

end Arrays

namespace Program

variable {δ α : Type} [Scalar α] {p p' : Program α} {k k' : ℕ}

section Consistency

/-- The numbers of the variables differ and are all given out, and every variable of every binding
is among them. -/
structure Consistent (p : Program α) (k : ℕ) : Prop where
  nodup_ids : (p.vars.toList.map Variable.id).Nodup
  id_lt : ∀ v ∈ p.vars, v.id < k
  closed : p.Closed

theorem consistent_empty (k : ℕ) : (empty : Program α).Consistent k :=
  ⟨List.nodup_nil, fun v hv => absurd hv (Array.not_mem_empty v),
    fun b hb => absurd hb (Array.not_mem_empty b)⟩

/-- New variables take the next numbers. -/
theorem map_id_freshVariables (count : ℕ) (name : String) (k : ℕ) :
    (freshVariables count name k).toList.map Variable.id =
      List.ofFn fun i : Fin count => k + i := by
  rw [freshVariables, Array.toList_ofFn, List.map_ofFn]
  rfl

theorem id_of_mem_freshVariables {count : ℕ} {name : String} {v : Variable}
    (hv : v ∈ freshVariables count name k) : k ≤ v.id ∧ v.id < k + count := by
  have hid := List.mem_map_of_mem (f := Variable.id) (Array.mem_toList_iff.mpr hv)
  rw [map_id_freshVariables, List.mem_ofFn] at hid
  obtain ⟨i, hi⟩ := hid
  omega

theorem Consistent.append (h : p.Consistent k) (count : ℕ) (name : String)
    (values : Array (Option α)) : Consistent
      { p with vars := p.vars ++ freshVariables count name k, values := values } (k + count) := by
  refine ⟨?_, ?_, ?_⟩
  · rw [Array.toList_append, List.map_append, List.nodup_append]
    refine ⟨h.nodup_ids, ?_, ?_⟩
    · rw [map_id_freshVariables, List.nodup_ofFn]
      exact fun i j hij => Fin.ext (Nat.add_left_cancel hij)
    · intro a ha b hb
      obtain ⟨v, hv, rfl⟩ := List.mem_map.mp ha
      obtain ⟨w, hw, rfl⟩ := List.mem_map.mp hb
      have hold := h.id_lt v (Array.mem_toList_iff.mp hv)
      have hnew := (id_of_mem_freshVariables (Array.mem_toList_iff.mp hw)).1
      omega
  · intro v hv
    rcases Array.mem_append.mp hv with hv | hv
    · exact Nat.lt_add_right _ (h.id_lt v hv)
    · exact (id_of_mem_freshVariables hv).2
  · intro b hb v hv
    obtain ⟨w, hw, hid⟩ := h.closed b hb v hv
    exact ⟨w, Array.mem_append_left _ hw, hid⟩

/-- No change takes the consistency of a program. -/
theorem Change.consistent (h : p.Consistent k) (hc : Change p k p' k') : p'.Consistent k' := by
  cases hc with
  | none => exact h
  | grown count name => exact h.append count name _
  | bound b hb =>
    refine ⟨h.nodup_ids, h.id_lt, fun b' hmem v hv => ?_⟩
    rcases Array.mem_push.mp hmem with hmem | rfl
    · exact h.closed b' hmem v hv
    · exact (p.index_eq_ok_iff v).mp (hb v hv)
  | stored values cost result hsize => exact ⟨h.nodup_ids, h.id_lt, h.closed⟩

theorem Consistent.mono (h : p.Consistent k) (hk : k ≤ k') : p.Consistent k' :=
  ⟨h.nodup_ids, fun v hv => (h.id_lt v hv).trans_le hk, h.closed⟩

variable [ArraySource δ α] {F : Factorizations α}

/-- Also a request for a truth value's worth of variables gives out new numbers. -/
theorem Consistent.perform (h : p.Consistent k) (F : Factorizations α) (op : ProgramOp δ α) :
    (p.perform F k op).program.Consistent (p.perform F k op).nextId := by
  by_cases hop : ∃ name, op = .newVariables (.truth true) name
  · obtain ⟨name, rfl⟩ := hop
    exact h.append 1 name p.values
  · exact Change.consistent h (perform_change F op fun name hname => hop ⟨name, hname⟩)

theorem Reachable.consistent (hp : Reachable δ F p k) : p.Consistent k := by
  induction hp with
  | empty k => exact consistent_empty k
  | perform hp hk op ih => exact (ih.mono hk).perform F op

theorem id_of_index {v : Variable} {i : Fin p.vars.size} (h : p.index v = .ok i) :
    p.vars[i].id = v.id := by
  unfold index at h
  split at h
  · rename_i j hj
    cases h
    exact beq_iff_eq.mp (Array.findFinIdx?_eq_some_iff.mp hj).1
  · cases h

/-- A variable is found at its own position. -/
theorem Consistent.index_eq_ok (h : p.Consistent k) (i : Fin p.vars.size) :
    p.index p.vars[i] = .ok i := by
  obtain ⟨j, hj⟩ := (p.index_eq_ok_iff p.vars[i]).mpr ⟨p.vars[i], Array.getElem_mem i.isLt, rfl⟩
  have hget : ∀ l : Fin p.vars.size,
      (p.vars.toList.map Variable.id)[l.val]? = some p.vars[l].id := by
    intro l
    simp
  have hids := (hget j).trans ((congrArg some (id_of_index hj)).trans (hget i).symm)
  have hlength : j.val < (p.vars.toList.map Variable.id).length := by
    rw [List.length_map, Array.length_toList]
    exact j.isLt
  rw [hj]
  exact congrArg Except.ok (Fin.ext ((List.getElem?_inj hlength h.nodup_ids).mp hids))

theorem Change.size_values (hc : Change p k p' k') (h : p.values.size = p.numVars) :
    p'.values.size = p'.numVars := by
  cases hc with
  | none => exact h
  | grown count name =>
    change (p.values ++ _).size = (p.vars ++ _).size
    rw [Array.size_append, Array.size_append, Array.size_replicate, h]
    rfl
  | bound b hb => exact h
  | stored values cost result hsize =>
    rcases hsize with hsize | rfl
    · exact hsize
    · exact h

/-- There is a place for the value of every variable. -/
theorem NumericallyReachable.size_values (hp : NumericallyReachable δ F p k) :
    p.values.size = p.numVars := by
  induction hp with
  | empty k => rfl
  | perform hp hk op hop ih => exact (perform_change F op hop).size_values ih

end Consistency

section Assembled

/-- Programs are assembled if the variables of all bindings are known. -/
theorem Closed.exists_assemble (h : p.Closed) :
    ∃ m, ∃ P : Problem α p.numVars m, p.assemble.result = .ok ⟨p.numVars, m, P⟩ := by
  rcases h.exists_placed with ⟨⟨cs, hcs⟩, es, hes⟩
  refine ⟨_, (assemblePlaced cs es).problem, ?_⟩
  rw [assemble_of_placed hcs hes]
  rfl

/-- The outcome of a supported program is that of the arrays of its assembled problem. -/
theorem solveOutcome_eq_solveDense {n m : ℕ} {P : Problem α n m}
    (hP : p.assemble.result = .ok ⟨n, m, P⟩) (h : p.checkSupported = .ok ()) (F : Factorizations α)
    (checks : Bool) : (p.solveOutcome F checks).result =
      (solveDense F checks (NDArray.ofMat P.hessian) (NDArray.ofVec P.gradient)
        (some (NDArray.ofMat P.matrix)) (NDArray.ofVec P.target)).result := by
  rw [solveOutcome_assembled, h, solveDense, AnyProblem.read_arrays, Logged.result_bind,
    Logged.result_ofExcept]
  change (p.assemble >>= _).result = _
  rw [Logged.result_bind, hP]
  rfl

/-- Every program that operations can build: the numbers of its variables differ, it finds each of
its variables at its position and no others, every binding has as many variables as its evaluator
takes, all of the program, and there is a place for the value of every variable unless a truth
value's worth of variables was asked for. A refused operation other than such a request leaves the
program as it was. The program is assembled, its arrays pass the checks of their sizes, and a
supported program is solved as they are. -/
theorem Reachable.invariant [ArraySource δ α] {F : Factorizations α} (hp : Reachable δ F p k) :
    (p.vars.toList.map Variable.id).Nodup ∧ (∀ i : Fin p.vars.size, p.index p.vars[i] = .ok i) ∧
      (∀ v, (∃ i, p.index v = .ok i) → ∃ w ∈ p.vars, w.id = v.id) ∧
      (NumericallyReachable δ F p k → p.values.size = p.numVars) ∧
      (∀ b ∈ p.bindings, (b.vars.length : ℤ) = b.evaluator.numVars ∧
        ∀ v ∈ b.vars, ∃ i, p.index v = .ok i) ∧
      (∀ (k' : ℕ) (op : ProgramOp δ α) (e : Fault α), (p.perform F k' op).answer = .error e →
        (∀ name, op ≠ .newVariables (.truth true) name) → (p.perform F k' op).program = p) ∧
      ∃ m, ∃ P : Problem α p.numVars m, p.assemble.result = .ok ⟨p.numVars, m, P⟩ ∧
        AnyProblem.read (NDArray.ofMat P.hessian) (NDArray.ofVec P.gradient)
          (some (NDArray.ofMat P.matrix)) (NDArray.ofVec P.target) = .ok ⟨p.numVars, m, P⟩ ∧
        (p.checkSupported = .ok () → ∀ checks, (p.solveOutcome F checks).result =
          (solveDense F checks (NDArray.ofMat P.hessian) (NDArray.ofVec P.gradient)
            (some (NDArray.ofMat P.matrix)) (NDArray.ofVec P.target)).result) := by
  have h := hp.consistent
  obtain ⟨m, P, hP⟩ := h.closed.exists_assemble
  refine ⟨h.nodup_ids, h.index_eq_ok, fun v => (p.index_eq_ok_iff v).mp,
    NumericallyReachable.size_values, fun b hb => ⟨b.length_eq, fun v hv => ?_⟩,
    fun k' op e he hop => perform_of_error F op hop he, m, P, hP, AnyProblem.read_arrays P,
    fun hsupported checks => solveOutcome_eq_solveDense hP hsupported F checks⟩
  exact (p.index_eq_ok_iff v).mpr (h.closed b hb v hv)

/-- The pinned program is found in order and assembled to arrays that fit. -/
theorem pinned_invariant : NumericallyReachable (NDArray ℝ) Factorizations.standard pinned 2 ∧
    pinned.values.size = pinned.numVars ∧ (pinned.vars.toList.map Variable.id).Nodup ∧
    pinned.index firstVar = .ok (0 : Fin 2) ∧ pinned.index secondVar = .ok (1 : Fin 2) ∧
    (pinned.perform Factorizations.standard 2
      (.newVariables (.number (-1)) "y" : ProgramOp (NDArray ℝ) ℝ)).program = pinned ∧
    ∃ m, ∃ P : Problem ℝ pinned.numVars m, pinned.assemble.result = .ok ⟨pinned.numVars, m, P⟩ ∧
      AnyProblem.read (NDArray.ofMat P.hessian) (NDArray.ofVec P.gradient)
        (some (NDArray.ofMat P.matrix)) (NDArray.ofVec P.target) = .ok ⟨pinned.numVars, m, P⟩ := by
  have hpinned := pinned_numericallyReachable
  obtain ⟨hids, hindex, -, hvalues, -, hrefused, m, P, hP, hread, -⟩ := hpinned.reachable.invariant
  exact ⟨hpinned, hvalues hpinned, hids, hindex (0 : Fin 2), hindex (1 : Fin 2),
    hrefused 2 _ .negativeCount rfl (fun _ => nofun), m, P, hP, hread⟩

/-- A request for a truth value's worth of variables is refused, and yet there is a variable then,
without a place for its value. -/
theorem perform_truthCount :
    let t := (Program.empty : Program ℝ).perform Factorizations.standard 0
      (.newVariables (.truth true) "x" : ProgramOp (NDArray ℝ) ℝ)
    t.answer = .error .notNumeric ∧ t.program ≠ Program.empty ∧
      t.program.numVars = 1 ∧ t.program.values.size = 0 := by
  intro t
  have hvars : t.program.numVars = 1 := rfl
  refine ⟨rfl, fun h => ?_, hvars, rfl⟩
  rw [h] at hvars
  cases hvars

end Assembled

end Program

end QuadraticProgram
