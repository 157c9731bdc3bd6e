import QuadraticProgram.Proofs.Program.Appearance

/-! # The numbers of variables do not show

Programs that show the same may number their variables differently. A variable of one corresponds to
the variable of the other at the same position, and variables of neither correspond to each other.
An operation over corresponding variables does the same to both programs and has the same answer,
but for the numbers of variables and for which foreign variable is named in a failure.
-/

namespace QuadraticProgram

variable {α β γ : Type}

section Unnumbered

def Variable.unnumbered (v : Variable) : Variable := { v with id := 0 }

/-- A failure that does not tell which variable is foreign. -/
def Fault.unnumbered : Fault α → Fault α
  | .foreignVariable _ => .foreignVariable ⟨"", 0⟩
  | e => e

variable [Scalar α]

def Binding.unnumbered (b : Binding α) : Binding α where
  evaluator := b.evaluator
  vars := b.vars.map Variable.unnumbered
  length_eq := by rw [List.length_map, b.length_eq]

def ProgramAnswer.unnumbered : ProgramAnswer α → ProgramAnswer α
  | .done => .done
  | .vars vs => .vars (vs.map Variable.unnumbered)
  | .binding b => .binding b.unnumbered
  | .status s => .status s

/-- A run whose answer and whose failure are without numbers. -/
def Logged.unnumbered (f : β → γ) (r : Logged α β) : Logged α γ :=
  ⟨r.events, (r.result.map f).mapError Fault.unnumbered⟩

/-- What an operation reports and answers. -/
def Transition.run (t : Transition α) : Logged α (ProgramAnswer α) := ⟨t.events, t.answer⟩

/-- Transitions to programs that show the same, with the same answer up to numbers. -/
structure Transition.Alike (t t' : Transition α) : Prop where
  appearance_eq : t'.program.appearance = t.program.appearance
  run_eq : t'.run.unnumbered ProgramAnswer.unnumbered = t.run.unnumbered ProgramAnswer.unnumbered

end Unnumbered

namespace Program

variable [Scalar α] {p q : Program α} {k k' : ℕ}

section Correspondence

/-- Variables at the same position, or of neither program. -/
inductive Corresponds (p q : Program α) (v v' : Variable) : Prop
  | own {i : Fin p.numVars} {j : Fin q.numVars} (hi : p.index v = .ok i) (hj : q.index v' = .ok j)
    (hij : j.val = i.val) (hname : v'.name = v.name)
  | foreign (h : p.index v = .error (.foreignVariable v))
    (h' : q.index v' = .error (.foreignVariable v'))

theorem index_of_foreign {v : Variable} (h : ∀ w ∈ p.vars, w.id ≠ v.id) :
    p.index v = .error (.foreignVariable v) := by
  have hnone : (p.vars.findFinIdx? fun w => w.id == v.id) = none := by
    rw [Array.findFinIdx?_eq_none_iff]
    exact fun w hw hid => h w hw (beq_iff_eq.mp hid)
  rw [index, hnone]

theorem eq_of_index_eq_error {v : Variable} {e : Fault α} (h : p.index v = .error e) :
    e = .foreignVariable v := by
  unfold index at h
  split at h
  · cases h
  · exact (Except.error.inj h).symm

/-- The first foreign variable ends the search. -/
theorem exists_mapM_index_eq_error {vs : List Variable} {v : Variable} (hv : v ∈ vs)
    (h : p.index v = .error (.foreignVariable v)) :
    ∃ v' ∈ vs, vs.mapM p.index = .error (.foreignVariable v') := by
  induction vs with
  | nil => cases hv
  | cons x xs ih =>
    rw [List.mapM_cons]
    cases hx : p.index x with
    | error e =>
      obtain rfl := eq_of_index_eq_error hx
      exact ⟨x, List.mem_cons_self, rfl⟩
    | ok l =>
      cases hv with
      | head => cases hx.symm.trans h
      | tail _ hv =>
        obtain ⟨v', hmem, hv'⟩ := ih hv
        exact ⟨v', List.mem_cons_of_mem _ hmem, by rw [hv']; rfl⟩

/-- Variables of the same number are found at the same position. -/
theorem index_eq_ok_of_id {v w : Variable} {i : Fin p.numVars} (h : p.index w = .ok i)
    (hid : w.id = v.id) : p.index v = .ok i := by
  unfold index at h ⊢
  rw [← hid]
  split at h
  · exact h
  · cases h

/-- A variable is found at the only place that holds its number. -/
theorem Consistent.index_of_id (h : p.Consistent k) {v w : Variable} {l : ℕ}
    (hl : p.vars[l]? = some w) (hid : w.id = v.id) :
    ∃ i : Fin p.numVars, p.index v = .ok i ∧ i.val = l := by
  obtain ⟨hlt, rfl⟩ := Array.getElem?_eq_some_iff.mp hl
  exact ⟨⟨l, hlt⟩, index_eq_ok_of_id (h.index_eq_ok ⟨l, hlt⟩) hid, rfl⟩

theorem Consistent.map_index (h : p.Consistent k) {v : Variable} {l : ℕ}
    (hl : p.vars[l]? = some v) : (p.index v).map Fin.val = .ok l := by
  obtain ⟨i, hi, rfl⟩ := h.index_of_id hl rfl
  rw [hi]
  rfl

theorem name_eq_of_appearance (h : q.appearance = p.appearance) {l : ℕ} {v v' : Variable}
    (hv : p.vars[l]? = some v) (hv' : q.vars[l]? = some v') : v'.name = v.name := by
  have hnames : q.appearance.names[l]? = p.appearance.names[l]? := by rw [h]
  rw [appearance, appearance, Array.getElem?_map, Array.getElem?_map, hv, hv'] at hnames
  exact Option.some_inj.mp hnames

/-- Variables at the same place of programs that show the same correspond. -/
theorem Consistent.corresponds (hp : p.Consistent k) (hq : q.Consistent k')
    (h : q.appearance = p.appearance) {l : ℕ} {v v' : Variable} (hv : p.vars[l]? = some v)
    (hv' : q.vars[l]? = some v') : Corresponds p q v v' := by
  obtain ⟨i, hi, hil⟩ := hp.index_of_id hv rfl
  obtain ⟨j, hj, hjl⟩ := hq.index_of_id hv' rfl
  exact .own hi hj (hjl.trans hil.symm) (name_eq_of_appearance h hv hv')

variable {vs vs' : List Variable}

/-- Corresponding variables are all found, at the same positions, or one of them is foreign to its
program on either side. -/
theorem mapM_index_of_corresponds (h : List.Forall₂ (Corresponds p q) vs vs') :
    (∃ is js, vs.mapM p.index = .ok is ∧ vs'.mapM q.index = .ok js ∧
      js.map Fin.val = is.map Fin.val ∧
      vs'.map Variable.unnumbered = vs.map Variable.unnumbered) ∨
    ∃ v v', vs.mapM p.index = .error (.foreignVariable v) ∧
      vs'.mapM q.index = .error (.foreignVariable v') := by
  induction h with
  | nil => exact .inl ⟨[], [], rfl, rfl, rfl, rfl⟩
  | @cons v v' vs vs' hv _ ih =>
    simp only [List.mapM_cons]
    cases hv with
    | own hi hj hij hname =>
      rw [hi, hj]
      rcases ih with ⟨is, js, his, hjs, hval, hvars⟩ | ⟨w, w', hw, hw'⟩
      · refine .inl ⟨_ :: is, _ :: js, by rw [his]; rfl, by rw [hjs]; rfl, ?_, ?_⟩
        · rw [List.map_cons, List.map_cons, hij, hval]
        · rw [List.map_cons, List.map_cons, hvars, Variable.unnumbered, Variable.unnumbered, hname]
      · exact .inr ⟨w, w', by rw [hw]; rfl, by rw [hw']; rfl⟩
    | foreign hv hv' => exact .inr ⟨v, v', by rw [hv]; rfl, by rw [hv']; rfl⟩

theorem positionsOf_of_mapM {is : List (Fin p.numVars)} (h : vs.mapM p.index = .ok is) :
    p.positionsOf vs = (is.map Fin.val).map some := by
  rw [List.map_map]
  exact map_eq_of_forall₂ (fun v i hi => by rw [hi]; rfl) (mapM_eq_ok_iff.mp h)

/-- The positions of variables depend on the variables of the program only. -/
theorem positionsOf_rebound (p : Program α) (bindings values cost result) :
    (⟨p.vars, bindings, values, cost, result⟩ : Program α).positionsOf = p.positionsOf := by
  unfold positionsOf
  rw [index_rebound]
  rfl

/-- New variables leave the positions of the others as they are. -/
theorem Consistent.positionsOf_append (h : p.Consistent k) (count : ℕ) (name : String)
    (values : Array (Option α)) (hvs : ∀ v ∈ vs, ∃ w ∈ p.vars, w.id = v.id) :
    Program.positionsOf { p with vars := p.vars ++ freshVariables count name k, values := values }
      vs = p.positionsOf vs := by
  apply List.map_congr_left
  intro v hv
  obtain ⟨w, hw, hid⟩ := hvs v hv
  obtain ⟨l, hl⟩ := Array.mem_iff_getElem?.mp hw
  obtain ⟨i, hi, rfl⟩ := h.index_of_id hl hid
  have hgrown : (p.vars ++ freshVariables count name k)[i.val]? = some w := by
    rw [Array.getElem?_append_left i.isLt, hl]
  obtain ⟨j, hj, hji⟩ := (h.append count name values).index_of_id hgrown hid
  rw [hi, hj]
  exact congrArg some hji

theorem valueAt_eq_of_appearance (h : q.appearance = p.appearance) : q.valueAt = p.valueAt := by
  have hvalues : q.values = p.values := congrArg Appearance.values h
  funext l
  rw [valueAt, valueAt, hvalues]

theorem index_alike {v v' : Variable} (h : Corresponds p q v v') :
    ((q.index v').map Fin.val).mapError Fault.unnumbered =
      ((p.index v).map Fin.val).mapError Fault.unnumbered := by
  cases h with
  | own hi hj hij hname =>
    rw [hi, hj]
    exact congrArg Except.ok hij
  | foreign hv hv' =>
    rw [hv, hv']
    rfl

theorem solution_alike (h : q.appearance = p.appearance) {v v' : Variable}
    (hv : Corresponds p q v v') : (q.solution v').mapError Fault.unnumbered =
      (p.solution v).mapError Fault.unnumbered := by
  rw [solution, solution]
  cases hv with
  | own hi hj hij hname =>
    rw [hi, hj]
    change (q.valueAt _).mapError _ = (p.valueAt _).mapError _
    rw [valueAt_eq_of_appearance h, hij]
  | foreign hv hv' =>
    rw [hv, hv']
    rfl

theorem solutions_alike (h : q.appearance = p.appearance)
    (hvs : List.Forall₂ (Corresponds p q) vs vs') :
    (q.solutions vs').mapError Fault.unnumbered = (p.solutions vs).mapError Fault.unnumbered := by
  have hread : ∀ (p : Program α) is, p.solutions is = (do
      (← is.mapM p.index).map Fin.val |>.mapM p.valueAt) := by
    intro p is
    simp only [solutions, List.mapM_map]
    rfl
  rw [hread, hread]
  rcases mapM_index_of_corresponds hvs with ⟨is, js, his, hjs, hval, -⟩ | ⟨v, v', hv, hv'⟩
  · rw [his, hjs]
    change ((js.map Fin.val).mapM q.valueAt).mapError _ =
      ((is.map Fin.val).mapM p.valueAt).mapError _
    rw [valueAt_eq_of_appearance h, hval]
  · rw [hv, hv']
    rfl

end Correspondence

section Operations

variable {δ : Type}

/-- Operations that differ in their variables only, and these correspond. -/
inductive OpCorresponds (p q : Program α) : ProgramOp δ α → ProgramOp δ α → Prop
  | add (spec : EvaluatorSpec δ α) {vs vs' : List Variable}
    (h : List.Forall₂ (Corresponds p q) vs vs') : OpCorresponds p q (.add spec vs) (.add spec vs')
  | same {op : ProgramOp δ α} (h : ∀ spec vs, op ≠ .add spec vs) : OpCorresponds p q op op

/-- What programs with the same variables show differs in what was written to them. -/
theorem appearance_stored (p : Program α) (values cost result) :
    (⟨p.vars, p.bindings, values, cost, result⟩ : Program α).appearance =
      { p.appearance with values := values, optimalCost := cost, solverResult := result } := by
  rw [appearance, positionsOf_rebound]
  rfl

theorem appearance_setValues (p : Program α) (x : AnyVec α) : (p.setValues x).appearance =
    { p.appearance with values := x.entries.toArray.map some } :=
  appearance_stored p _ p.optimalCost p.solverResult

theorem appearance_setOptimalCost (p : Program α) (cost : α) :
    (p.setOptimalCost cost).appearance = { p.appearance with optimalCost := some cost } :=
  appearance_stored p p.values (some cost) p.solverResult

theorem appearance_setSolverResult (p : Program α) (result : SolverResult) :
    (p.setSolverResult result).appearance = { p.appearance with solverResult := some result } :=
  appearance_stored p p.values p.optimalCost (some result)

theorem appearance_written (p : Program α) (o : AnyOutcome α) : (p.written o).appearance =
    { p.appearance with
      values := o.outcome.x.toArray.map some
      optimalCost := some o.outcome.cost
      solverResult := some ⟨solverId, Status.solutionFound.code⟩ } :=
  appearance_stored p _ _ _

/-- New variables show by their names. -/
theorem Consistent.appearance_append (h : p.Consistent k) (count : ℕ) (name : String)
    (values : Array (Option α)) :
    Program.appearance { p with vars := p.vars ++ freshVariables count name k, values := values } =
      { p.appearance with
        names := p.appearance.names ++ (freshVariables count name 0).map Variable.name
        values := values } := by
  have hbindings : (p.bindings.map fun b => (b.evaluator, Program.positionsOf
      { p with vars := p.vars ++ freshVariables count name k, values := values } b.vars)) =
      p.bindings.map fun b => (b.evaluator, p.positionsOf b.vars) := by
    apply Array.map_congr_left
    intro b hb
    rw [h.positionsOf_append count name values (h.closed b hb)]
  have hnames : (freshVariables count name k).map Variable.name =
      (freshVariables count name 0).map Variable.name := by
    rw [freshVariables, freshVariables, Array.map_ofFn, Array.map_ofFn]
    rfl
  rw [appearance, hbindings, Array.map_append, hnames]
  rfl

theorem appearance_appendBinding (p : Program α) (b : Binding α) :
    (p.appendBinding b).appearance =
      { p.appearance with
        bindings := p.appearance.bindings.push (b.evaluator, p.positionsOf b.vars) } := by
  rw [appearance, appendBinding, positionsOf_rebound, Array.map_push]
  rfl

theorem map_unnumbered_freshVariables (count : ℕ) (name : String) (k : ℕ) :
    (freshVariables count name k).map Variable.unnumbered =
      (freshVariables count name 0).map Variable.unnumbered := by
  rw [freshVariables, freshVariables, Array.map_ofFn, Array.map_ofFn]
  rfl

variable [ArraySource δ α] {F : Factorizations α}

theorem newVariables_alike (hp : p.Consistent k) (hq : q.Consistent k')
    (h : q.appearance = p.appearance) (count : VariableCount) (name : String) :
    (p.perform F k (.newVariables count name : ProgramOp δ α)).Alike
      (q.perform F k' (.newVariables count name : ProgramOp δ α)) := by
  have hvalues : q.values = p.values := congrArg Appearance.values h
  cases count with
  | number l =>
    by_cases hneg : l < 0
    · rw [perform_newVariables_of_neg hneg, perform_newVariables_of_neg hneg]
      exact ⟨h, rfl⟩
    · rw [perform_newVariables_of_not_neg hneg, perform_newVariables_of_not_neg hneg]
      constructor
      · have hsize : ∀ k, (freshVariables l.toNat name k).size = l.toNat := fun k => Array.size_ofFn
        change Program.appearance { q with vars := q.vars ++ _, values := q.values ++ _ } =
          Program.appearance { p with vars := p.vars ++ _, values := p.values ++ _ }
        rw [hp.appearance_append, hq.appearance_append, h, hvalues, hsize, hsize]
      · change (Logged.mk [] (.ok (.vars _)) : Logged α (ProgramAnswer α)) = .mk [] (.ok (.vars _))
        rw [map_unnumbered_freshVariables, map_unnumbered_freshVariables _ _ k]
  | truth b =>
    refine ⟨?_, rfl⟩
    change Program.appearance { q with vars := q.vars ++ _ } =
      Program.appearance { p with vars := p.vars ++ _ }
    rw [hp.appearance_append, hq.appearance_append, h, hvalues]

/-- Only the number of the variables decides whether there is a binding. -/
theorem make_cases (e : Evaluator α) {vs vs' : List Variable} (h : vs'.length = vs.length) :
    (∃ b b' : Binding α, Binding.make e vs = .ok b ∧ Binding.make e vs' = .ok b' ∧
      b.evaluator = e ∧ b'.evaluator = e ∧ b.vars = vs ∧ b'.vars = vs') ∨
    ∃ f, Binding.make e vs = .error f ∧ Binding.make e vs' = .error f := by
  unfold Binding.make
  by_cases hcount : (vs.length : ℤ) = e.numVars
  · rw [dif_pos hcount, dif_pos (h ▸ hcount)]
    exact .inl ⟨_, _, rfl, rfl, rfl, rfl, rfl, rfl⟩
  · rw [dif_neg hcount, dif_neg (h ▸ hcount), h]
    exact .inr ⟨_, rfl, rfl⟩

/-- A binding passes the checks of both programs, for variables at the same positions, or of
neither. -/
theorem acceptSpec_cases (spec : EvaluatorSpec δ α) {vs vs' : List Variable}
    (h : List.Forall₂ (Corresponds p q) vs vs') :
    (∃ b b', p.acceptSpec spec vs = .ok b ∧ q.acceptSpec spec vs' = .ok b' ∧
      b'.evaluator = b.evaluator ∧ q.positionsOf b'.vars = p.positionsOf b.vars ∧
      b'.unnumbered = b.unnumbered) ∨
    ∃ f f', p.acceptSpec spec vs = .error f ∧ q.acceptSpec spec vs' = .error f' ∧
      f'.unnumbered = f.unnumbered := by
  cases hread : Evaluator.read spec with
  | error f =>
    refine .inr ⟨f, f, ?_, ?_, rfl⟩
    · rw [acceptSpec, hread]
      rfl
    · rw [acceptSpec, hread]
      rfl
  | ok e =>
    rw [acceptSpec_of_read hread, acceptSpec_of_read hread]
    rcases make_cases e h.length_eq.symm with ⟨b, b', hb, hb', rfl, he, rfl, rfl⟩ | ⟨f, hf, hf'⟩
    · rw [accept_of_made hb, accept_of_made hb']
      rcases mapM_index_of_corresponds h with ⟨is, js, his, hjs, hval, hvars⟩ | ⟨v, v', hv, hv'⟩
      · rw [checkFound_eq_ok_iff.mpr ⟨is, his⟩, checkFound_eq_ok_iff.mpr ⟨js, hjs⟩]
        refine .inl ⟨b, b', rfl, rfl, he, ?_, ?_⟩
        · rw [positionsOf_of_mapM his, positionsOf_of_mapM hjs, hval]
        · obtain ⟨e', ws, hlength⟩ := b'
          obtain rfl : e' = b.evaluator := he
          rw [Binding.unnumbered, Binding.unnumbered]
          congr 1
      · rw [checkFound_of_error hv, checkFound_of_error hv']
        exact .inr ⟨_, _, rfl, rfl, rfl⟩
    · exact .inr ⟨f, f, accept_of_not_made hf, accept_of_not_made hf', rfl⟩

theorem add_alike (h : q.appearance = p.appearance) (spec : EvaluatorSpec δ α)
    {vs vs' : List Variable} (hvs : List.Forall₂ (Corresponds p q) vs vs') :
    (p.perform F k (.add spec vs)).Alike (q.perform F k' (.add spec vs')) := by
  rcases acceptSpec_cases spec hvs with
    ⟨b, b', hb, hb', he, hpositions, hun⟩ | ⟨f, f', hf, hf', hun⟩
  · rw [perform_add_of_ok hb, perform_add_of_ok hb']
    constructor
    · rw [appearance_appendBinding, appearance_appendBinding, h, he, hpositions]
    · change (Logged.mk [] (.ok (.binding _)) : Logged α (ProgramAnswer α)) =
        .mk [] (.ok (.binding _))
      rw [hun]
  · rw [perform_add_of_error hf, perform_add_of_error hf']
    refine ⟨h, ?_⟩
    change (Logged.mk [] (.error _) : Logged α (ProgramAnswer α)) = .mk [] (.error _)
    rw [hun]

theorem setValues_alike (h : q.appearance = p.appearance) (values : δ) :
    (p.perform F k (.setValues values : ProgramOp δ α)).Alike
      (q.perform F k' (.setValues values : ProgramOp δ α)) := by
  cases hread : readVec values with
  | error f =>
    rw [perform_setValues_of_error hread, perform_setValues_of_error hread]
    exact ⟨h, rfl⟩
  | ok v =>
    rw [perform_setValues_of_read hread, perform_setValues_of_read hread,
      numVars_eq_of_appearance h]
    by_cases hsize : v.size = p.numVars
    · rw [if_pos hsize, if_pos hsize]
      refine ⟨?_, rfl⟩
      change (q.setValues v).appearance = (p.setValues v).appearance
      rw [appearance_setValues, appearance_setValues, h]
    · rw [if_neg hsize, if_neg hsize]
      exact ⟨h, rfl⟩

theorem solve_alike (hp : p.Closed) (hq : q.Closed) (h : q.appearance = p.appearance)
    (checks : Bool) : (p.perform F k (.solve checks : ProgramOp δ α)).Alike
      (q.perform F k' (.solve checks : ProgramOp δ α)) := by
  have houtcome := hp.solveOutcome_eq hq h F checks
  cases ho : (p.solveOutcome F checks).result with
  | error f =>
    rw [perform_solve_of_error ho, perform_solve_of_error (houtcome ▸ ho), houtcome]
    exact ⟨h, rfl⟩
  | ok o =>
    rw [perform_solve_of_outcome ho, perform_solve_of_outcome (houtcome ▸ ho), houtcome]
    refine ⟨?_, rfl⟩
    change (q.written o).appearance = (p.written o).appearance
    rw [appearance_written, appearance_written, h]

/-- An operation over corresponding variables is carried out as the original one. -/
theorem perform_alike (hp : p.Consistent k) (hq : q.Consistent k')
    (h : q.appearance = p.appearance) {op op' : ProgramOp δ α} (hop : OpCorresponds p q op op') :
    (p.perform F k op).Alike (q.perform F k' op') := by
  cases hop with
  | add spec hvs => exact add_alike h spec hvs
  | same hop =>
    cases op with
    | newVariables count name => exact newVariables_alike hp hq h count name
    | add spec vs => exact absurd rfl (hop spec vs)
    | setValues values => exact setValues_alike h values
    | setOptimalCost cost =>
      refine ⟨?_, rfl⟩
      change (q.setOptimalCost cost).appearance = (p.setOptimalCost cost).appearance
      rw [appearance_setOptimalCost, appearance_setOptimalCost, h]
    | setSolverResult result =>
      refine ⟨?_, rfl⟩
      change (q.setSolverResult result).appearance = (p.setSolverResult result).appearance
      rw [appearance_setSolverResult, appearance_setSolverResult, h]
    | solve checks => exact solve_alike hp.closed hq.closed h checks

end Operations

end Program

end QuadraticProgram
