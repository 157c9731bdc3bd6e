import QuadraticProgram.Program.Workspace
import QuadraticProgram.Proofs.Program.Writing

/-! # What operations do

Operations are carried out in place. All but one make their checks before they write, so they leave
no trace if they fail; this is read off the order of their steps. What each of them makes of a
program is computed here once.
-/

namespace QuadraticProgram

/-- Variables pass the check exactly if each of them is found. -/
theorem checkFound_eq_ok_iff {α ι : Type} {find : Variable → Except (Fault α) ι}
    {vs : List Variable} : checkFound find vs = .ok () ↔ ∃ places, vs.mapM find = .ok places := by
  rw [checkFound]
  cases vs.mapM find with
  | error f => exact iff_of_false nofun nofun
  | ok places => exact iff_of_true rfl ⟨places, rfl⟩

theorem checkFound_of_error {α ι : Type} {find : Variable → Except (Fault α) ι}
    {vs : List Variable} {f : Fault α} (h : vs.mapM find = .error f) :
    checkFound find vs = .error f := by
  rw [checkFound, h]
  rfl

namespace Supplied

variable {π α β : Type}

theorem onProgram_run (r : InPlace π α β) (p : π) (k : ℕ) :
    (onProgram r).run ⟨p, k⟩ = (⟨(r.run p).1, k⟩, (r.run p).2) := rfl

theorem onProgram_guarded {r : InPlace π α β} (hr : r.Guarded) : (onProgram r).Guarded :=
  hr.focus fun _ => rfl

theorem draw_sure (count : ℕ) (name : String) :
    (draw (π := π) (α := α) count name).Sure := by
  apply (InPlace.sure_check fun _ => ⟨_, rfl⟩).bind
  intro fresh
  exact (InPlace.sure_write _).bind fun _ => InPlace.sure_pure fresh

theorem newVariables_of_error {enter : VariableCount → Array Variable → InPlace π α Unit}
    {count : VariableCount} {e : Fault α} (h : count.checkSign = .error e) (name : String)
    (s : Supplied π) : (newVariables enter count name).run s = (s, ⟨[], .error e⟩) := by
  rw [newVariables, h]
  rfl

theorem newVariables_of_ok {enter : VariableCount → Array Variable → InPlace π α Unit}
    {count : VariableCount} (h : count.checkSign (α := α) = .ok ()) {name : String} {k : ℕ}
    {fresh : Array Variable} (hfresh : Program.freshVariables count.toNat name k = fresh) (p : π) :
    (newVariables enter count name).run ⟨p, k⟩ =
      (⟨((enter count fresh).run p).1, k + count.toNat⟩, ⟨((enter count fresh).run p).2.events,
        ((enter count fresh).run p).2.result.map fun _ => fresh⟩) := by
  rw [newVariables, h, ← hfresh]
  exact InPlace.bind_pure_run (onProgram (enter count _)) _ ⟨p, k + count.toNat⟩

/-- A number of variables is refused for its sign only, before any of them is made. -/
theorem newVariables_guarded {enter : VariableCount → Array Variable → InPlace π α Unit}
    {count : Int} (henter : ∀ fresh, (enter (.number count) fresh).Sure) (name : String) :
    (newVariables enter (.number count) name).Guarded := by
  apply (InPlace.reads_ofExcept _).bind_guarded
  intro _
  apply ((draw_sure _ _).bind _).guarded
  intro fresh
  exact ((henter fresh).focus _ _).bind fun _ => InPlace.sure_pure fresh

end Supplied

section Order

variable {δ α π : Type} [Scalar α]

/-- Parts of operations that leave no trace if they fail, apart from the variables that a truth
value asks for. -/
structure Handlers.Guarded (H : Handlers π δ α) : Prop where
  enter_number : ∀ (count : Int) fresh, (H.enter (.number count) fresh).Sure
  enter_none : (H.enter (.truth false) #[]).Guarded
  add : ∀ spec vars, (H.add spec vars).Guarded
  write : ∀ w, (H.write w).Guarded
  solve : ∀ checks, (H.solve checks).Guarded

namespace Supplied

/-- An operation that fails leaves the program and the supply of numbers as they were, except for
the request for a truth value's worth of variables. -/
theorem operate_guarded {H : Handlers π δ α} (hH : H.Guarded) [ArraySource δ α] (op : ProgramOp δ α)
    (hop : ∀ name, op ≠ .newVariables (.truth true) name) : (operate H op).Guarded := by
  cases op with
  | newVariables count name =>
    cases count with
    | number count =>
      exact (newVariables_guarded (hH.enter_number count) name).bind_sure fun _ =>
        InPlace.sure_pure _
    | truth b =>
      cases b with
      | true => exact absurd rfl (hop name)
      | false =>
        have hnone : (newVariables H.enter (.truth false) name).Guarded :=
          (onProgram_guarded hH.enter_none).bind_sure fun _ => InPlace.sure_pure _
        exact hnone.bind_sure fun _ => InPlace.sure_pure _
  | add spec vs =>
    exact onProgram_guarded ((hH.add spec vs).bind_sure fun _ => InPlace.sure_pure _)
  | setValues values =>
    apply onProgram_guarded
    apply (InPlace.reads_ofExcept _).bind_guarded
    intro v
    exact (hH.write _).bind_sure fun _ => InPlace.sure_pure _
  | setOptimalCost cost =>
    exact onProgram_guarded ((hH.write _).bind_sure fun _ => InPlace.sure_pure _)
  | setSolverResult result =>
    exact onProgram_guarded ((hH.write _).bind_sure fun _ => InPlace.sure_pure _)
  | solve checks =>
    exact onProgram_guarded ((hH.solve checks).bind_sure fun _ => InPlace.sure_pure _)

end Supplied

end Order

namespace Program

variable {δ α : Type} [Scalar α] {p : Program α} {F : Factorizations α} {k : ℕ}

section Refused

theorem bind_guarded (e : Evaluator α) (vs : List Variable) : (Program.bind e vs).Guarded := by
  apply (InPlace.reads_ofExcept _).bind_guarded
  intro b
  apply (InPlace.reads_check _).bind_guarded
  intro _
  exact ((InPlace.sure_write _).bind fun _ => InPlace.sure_pure b).guarded

/-- The number of values is checked before they are stored. The other parts are never refused. -/
theorem write_guarded (w : Write α) : (write w).Guarded := by
  cases w with
  | values x => exact (InPlace.reads_check _).bind_guarded fun _ => (InPlace.sure_write _).guarded
  | cost a => exact (InPlace.sure_write _).guarded
  | result r => exact (InPlace.sure_write _).guarded

/-- Of the parts of a solution, only the first one can be refused. -/
theorem writeParts_guarded (o : AnyOutcome α) : (writeParts o.writes).Guarded := by
  have hlater : (writeParts [.cost o.outcome.cost,
      .result ⟨solverId, Status.solutionFound.code⟩] : InPlace (Program α) α Unit).Sure :=
    (InPlace.sure_write _).bind fun _ => (InPlace.sure_write _).bind fun _ => InPlace.sure_pure ()
  exact (write_guarded (.values ⟨o.numVars, o.outcome.x⟩)).bind_sure fun _ => hlater

theorem solveInPlace_guarded (F : Factorizations α) (checks : Bool) :
    (solveInPlace F checks).Guarded := by
  apply (InPlace.reads_observe _).bind_guarded
  intro o
  exact (writeParts_guarded o).bind_sure fun _ => InPlace.sure_pure _

variable [ArraySource δ α]

theorem handlers_guarded (F : Factorizations α) : (handlers (δ := δ) F).Guarded where
  enter_number count fresh := by
    apply (InPlace.sure_write _).bind
    intro _
    exact (InPlace.sure_ofExcept ()).bind fun _ => InPlace.sure_write _
  enter_none := fun _ _ _ => rfl
  add spec vs := (InPlace.reads_ofExcept _).bind_guarded fun e => bind_guarded e vs
  write := write_guarded
  solve := solveInPlace_guarded F

/-- A refused operation changes nothing, except for the request for a truth value's worth of
variables. -/
theorem perform_of_error (F : Factorizations α) (op : ProgramOp δ α)
    (hop : ∀ name, op ≠ .newVariables (.truth true) name) {e : Fault α}
    (he : (p.perform F k op).answer = .error e) : (p.perform F k op).program = p :=
  congrArg Supplied.program (Supplied.operate_guarded (handlers_guarded F) op hop ⟨p, k⟩ e he)

end Refused

section Performed

/-- The checks that a binding has to pass. -/
def accept (p : Program α) (e : Evaluator α) (vs : List Variable) :
    Except (Fault α) (Binding α) := do
  let b ← Binding.make e vs
  checkFound p.index b.vars
  .ok b

/-- The checks that a request for a binding has to pass. -/
def acceptSpec [ArraySource δ α] (p : Program α) (spec : EvaluatorSpec δ α) (vs : List Variable) :
    Except (Fault α) (Binding α) := do
  p.accept (← Evaluator.read spec) vs

/-- New variables that have no values yet, with a place for the value of each. -/
def addVariables (p : Program α) (fresh : Array Variable) : Program α :=
  (p.appendVars fresh).appendPlaces fresh.size

variable [ArraySource δ α] {spec : EvaluatorSpec δ α} {vs : List Variable} {values : δ}
  {checks : Bool} {o : AnyOutcome α} {f : Fault α}

theorem perform_newVariables_of_neg {count : Int} (h : count < 0) (name : String) (k : ℕ) :
    p.perform F k (.newVariables (.number count) name : ProgramOp δ α) =
      ⟨p, k, [], .error .negativeCount⟩ := by
  have hsign : (VariableCount.number count).checkSign (α := α) = .error .negativeCount := if_pos h
  rw [perform, Supplied.operate, InPlace.bind_pure_run, Supplied.newVariables_of_error hsign]
  rfl

theorem perform_newVariables_of_not_neg {count : Int} (h : ¬count < 0) (name : String) (k : ℕ) :
    p.perform F k (.newVariables (.number count) name : ProgramOp δ α) =
      ⟨p.addVariables (freshVariables count.toNat name k), k + count.toNat, [],
        .ok (.vars (freshVariables count.toNat name k))⟩ := by
  have hsign : (VariableCount.number count).checkSign (α := α) = .ok () := if_neg h
  rw [perform, Supplied.operate, InPlace.bind_pure_run, Supplied.newVariables_of_ok hsign rfl]
  rfl

/-- A truth value is refused when the variables are there already. -/
theorem perform_newVariables_truth (b : Bool) (name : String) (k : ℕ) :
    p.perform F k (.newVariables (.truth b) name : ProgramOp δ α) =
      ⟨p.appendVars (freshVariables b.toNat name k), k + b.toNat, [], .error .notNumeric⟩ := rfl

theorem accept_of_made {e : Evaluator α} {b : Binding α} (h : Binding.make e vs = .ok b) :
    p.accept e vs = (checkFound p.index b.vars).map fun _ => b := by
  rw [accept, h]
  change (checkFound p.index b.vars >>= fun _ => .ok b) = _
  cases checkFound p.index b.vars <;> rfl

theorem accept_of_not_made {e : Evaluator α} (h : Binding.make e vs = .error f) :
    p.accept e vs = .error f := by
  rw [accept, h]
  rfl

theorem acceptSpec_of_read {e : Evaluator α} (h : Evaluator.read spec = .ok e) :
    p.acceptSpec spec vs = p.accept e vs := by
  rw [acceptSpec, h]
  rfl

theorem bind_run (p : Program α) (e : Evaluator α) (vs : List Variable) :
    (Program.bind e vs).run p =
      match p.accept e vs with
      | .ok b => (p.appendBinding b, pure b)
      | .error f => (p, ⟨[], .error f⟩) := by
  rw [Program.bind]
  cases hmake : Binding.make e vs with
  | error f =>
    rw [accept_of_not_made hmake]
    rfl
  | ok b =>
    rw [accept_of_made hmake]
    cases hfound : checkFound p.index b.vars with
    | error f =>
      rw [InPlace.ofExcept_ok_bind]
      exact InPlace.check_bind_of_error (g := fun q : Program α => checkFound q.index _) hfound _
    | ok u =>
      rw [InPlace.ofExcept_ok_bind]
      exact InPlace.check_bind_of_ok (g := fun q : Program α => checkFound q.index _) hfound _

theorem add_run (p : Program α) (spec : EvaluatorSpec δ α) (vs : List Variable) :
    (Program.add spec vs).run p =
      match p.acceptSpec spec vs with
      | .ok b => (p.appendBinding b, pure b)
      | .error f => (p, ⟨[], .error f⟩) := by
  rw [Program.add, acceptSpec]
  cases hread : Evaluator.read spec with
  | error f => rfl
  | ok e => exact p.bind_run e vs

theorem perform_add_of_ok {b : Binding α} (h : p.acceptSpec spec vs = .ok b) (k : ℕ) :
    p.perform F k (.add spec vs) = ⟨p.appendBinding b, k, [], .ok (.binding b)⟩ := by
  have hrun : (Supplied.operate (handlers F) (.add spec vs)).run ⟨p, k⟩ =
      (⟨p.appendBinding b, k⟩, pure (.binding b)) := by
    rw [Supplied.operate, handlers_add, Supplied.onProgram_run, InPlace.bind_pure_run, add_run, h]
    rfl
  rw [perform, hrun]
  rfl

/-- A request for a binding that is refused leaves no trace. -/
theorem perform_add_of_error (h : p.acceptSpec spec vs = .error f) (k : ℕ) :
    p.perform F k (.add spec vs) = ⟨p, k, [], .error f⟩ := by
  rw [perform, Supplied.operate, handlers_add, Supplied.onProgram_run, InPlace.bind_pure_run,
    add_run, h]
  rfl

theorem perform_setValues_of_error (hread : readVec values = .error f) (k : ℕ) :
    p.perform F k (.setValues values) = ⟨p, k, [], .error f⟩ := by
  rw [perform, Supplied.operate, hread]
  rfl

theorem perform_setValues_of_read {v : AnyVec α} (hread : readVec values = .ok v) (k : ℕ) :
    p.perform F k (.setValues values) =
      if v.size = p.numVars then ⟨p.setValues v, k, [], .ok .done⟩
      else ⟨p, k, [], .error (.valueCount p.numVars v.size)⟩ := by
  rw [perform, Supplied.operate, hread, InPlace.ofExcept_ok_bind, handlers_write,
    Supplied.onProgram_run, InPlace.bind_pure_run]
  by_cases hsize : v.size = p.numVars
  · rw [if_pos hsize, write_values_of_eq hsize]
    rfl
  · rw [if_neg hsize, write_values_of_ne hsize]
    rfl

theorem perform_solve_of_outcome (h : (p.solveOutcome F checks).result = .ok o) (k : ℕ) :
    p.perform F k (.solve checks : ProgramOp δ α) =
      ⟨p.written o, k, (p.solveOutcome F checks).events, .ok (.status .solutionFound)⟩ := by
  rw [perform, Supplied.operate, handlers_solve, Supplied.onProgram_run, InPlace.bind_pure_run,
    solveInPlace_of_outcome h]
  rfl

/-- A failed solve leaves the program as it was. -/
theorem perform_solve_of_error (h : (p.solveOutcome F checks).result = .error f) (k : ℕ) :
    p.perform F k (.solve checks : ProgramOp δ α) =
      ⟨p, k, (p.solveOutcome F checks).events, .error f⟩ := by
  rw [perform, Supplied.operate, handlers_solve, Supplied.onProgram_run, InPlace.bind_pure_run,
    solveInPlace_of_error h]
  rfl

end Performed

section Changes

theorem exists_index_of_acceptSpec [ArraySource δ α] {spec : EvaluatorSpec δ α}
    {vs : List Variable} {b : Binding α} (h : p.acceptSpec spec vs = .ok b) :
    ∀ v ∈ b.vars, ∃ i, p.index v = .ok i := by
  obtain ⟨e, -, h⟩ := bind_eq_ok h
  obtain ⟨b', -, h⟩ := bind_eq_ok h
  obtain ⟨_, hfound, h⟩ := bind_eq_ok h
  cases h
  obtain ⟨places, hplaces⟩ := checkFound_eq_ok_iff.mp hfound
  intro v hv
  obtain ⟨i, -, hi⟩ := exists_of_mem_left (mapM_eq_ok_iff.mp hplaces) hv
  exact ⟨i, hi⟩

/-- What an operation can make of a program and of the next free variable number. -/
inductive Change (p : Program α) (k : ℕ) : Program α → ℕ → Prop
  | none : Change p k p k
  | grown (count : ℕ) (name : String) :
    Change p k (p.addVariables (freshVariables count name k)) (k + count)
  | bound (b : Binding α) (h : ∀ v ∈ b.vars, ∃ i, p.index v = .ok i) :
    Change p k (p.appendBinding b) k
  | stored (values : Array (Option α)) (cost : Option α) (result : Option SolverResult)
    (h : values.size = p.numVars ∨ values = p.values) :
    Change p k ⟨p.vars, p.bindings, values, cost, result⟩ k

variable [ArraySource δ α]

/-- Every operation makes one of the changes, except for the request for a truth value's worth of
variables. -/
theorem perform_change (F : Factorizations α) (op : ProgramOp δ α)
    (hop : ∀ name, op ≠ .newVariables (.truth true) name) :
    Change p k (p.perform F k op).program (p.perform F k op).nextId := by
  cases op with
  | newVariables count name =>
    cases count with
    | number count =>
      by_cases hneg : count < 0
      · rw [perform_newVariables_of_neg hneg]
        exact .none
      · rw [perform_newVariables_of_not_neg hneg]
        exact .grown _ _
    | truth b =>
      cases b with
      | true => exact absurd rfl (hop name)
      | false => exact .grown 0 name
  | add spec vs =>
    cases haccept : p.acceptSpec spec vs with
    | error f =>
      rw [perform_add_of_error haccept]
      exact .none
    | ok b =>
      rw [perform_add_of_ok haccept]
      exact .bound b (exists_index_of_acceptSpec haccept)
  | setValues values =>
    cases hread : readVec values with
    | error f =>
      rw [perform_setValues_of_error hread]
      exact .none
    | ok v =>
      rw [perform_setValues_of_read hread]
      by_cases hsize : v.size = p.numVars
      · rw [if_pos hsize]
        refine .stored _ _ _ (.inl ?_)
        rw [Array.size_map, ← hsize]
        exact v.entries.entries.size_toArray
      · rw [if_neg hsize]
        exact .none
  | setOptimalCost cost => exact .stored _ _ _ (.inr rfl)
  | setSolverResult result => exact .stored _ _ _ (.inr rfl)
  | solve checks =>
    cases ho : (p.solveOutcome F checks).result with
    | error f =>
      rw [perform_solve_of_error ho]
      exact .none
    | ok o =>
      rw [perform_solve_of_outcome ho]
      refine .stored _ _ _ (.inl ?_)
      rw [Array.size_map, ← solveOutcome_numVars ho]
      exact o.outcome.x.entries.size_toArray

/-- An operation gives its program new variables only, and takes their numbers. -/
theorem exists_perform_vars (p : Program α) (F : Factorizations α) (k : ℕ) (op : ProgramOp δ α) :
    ∃ count name, (p.perform F k op).program.vars = p.vars ++ freshVariables count name k ∧
      (p.perform F k op).nextId = k + count := by
  by_cases hop : ∃ name, op = .newVariables (.truth true) name
  · obtain ⟨name, rfl⟩ := hop
    exact ⟨1, name, rfl, rfl⟩
  · have hchange := perform_change (p := p) (k := k) F op fun name h => hop ⟨name, h⟩
    generalize (p.perform F k op).program = p' at hchange ⊢
    generalize (p.perform F k op).nextId = k' at hchange ⊢
    cases hchange with
    | grown count name => exact ⟨count, name, rfl, rfl⟩
    | _ => exact ⟨0, "", Array.append_empty.symm, rfl⟩

end Changes

end Program

end QuadraticProgram
