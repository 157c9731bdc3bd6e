import QuadraticProgram.Proofs.Program.Operations

/-! # Solving among other programs

Whatever factorizations a solve works with, it changes its program as a whole or not at all, and no
other program. A solve reads nothing that a solution writes, so solving again writes the same.
-/

namespace QuadraticProgram.Workspace

variable {δ α : Type} [Scalar α] {w : Workspace α} {i : ℕ} {p : Program α}

theorem setIfInBounds_self (hp : w.programs[i]? = some p) :
    w.programs.setIfInBounds i p = w.programs := by
  obtain ⟨hlt, rfl⟩ := Array.getElem?_eq_some_iff.mp hp
  rw [Array.setIfInBounds_def, dif_pos hlt, Array.set_getElem_self]

variable [ArraySource δ α] {F : Factorizations α} {checks : Bool}

theorem perform_eq (hp : w.programs[i]? = some p) (F : Factorizations α) (op : ProgramOp δ α) :
    w.perform F i op = (⟨w.programs.setIfInBounds i (p.perform F w.nextId op).program,
      (p.perform F w.nextId op).nextId⟩,
      ⟨(p.perform F w.nextId op).events, (p.perform F w.nextId op).answer⟩) := by
  rw [perform, hp]

theorem perform_solve_of_error (hp : w.programs[i]? = some p) {e : Fault α}
    (he : (p.solveOutcome F checks).result = .error e) :
    w.perform F i (.solve checks : ProgramOp δ α) =
      (w, ⟨(p.solveOutcome F checks).events, .error e⟩) := by
  rw [perform_eq hp, Program.perform_solve_of_error he, setIfInBounds_self hp]

theorem perform_solve_of_outcome (hp : w.programs[i]? = some p) {o : AnyOutcome α}
    (ho : (p.solveOutcome F checks).result = .ok o) :
    w.perform F i (.solve checks : ProgramOp δ α) =
      ({ w with programs := w.programs.setIfInBounds i (p.written o) },
        ⟨(p.solveOutcome F checks).events, .ok (.status .solutionFound)⟩) := by
  rw [perform_eq hp, Program.perform_solve_of_outcome ho]

/-- Solving a solved program finds the same outcome, so it reports and writes the same. -/
theorem perform_solve_again (hp : w.programs[i]? = some p) {o : AnyOutcome α}
    (ho : (p.solveOutcome F checks).result = .ok o) :
    (w.perform F i (.solve checks : ProgramOp δ α)).1.perform F i
        (.solve checks : ProgramOp δ α) =
      w.perform F i (.solve checks : ProgramOp δ α) := by
  have hsame : (p.written o).solveOutcome F checks = p.solveOutcome F checks :=
    p.solveOutcome_rebound _ _ _ F checks
  have hi := (Array.getElem?_eq_some_iff.mp hp).1
  rw [perform_solve_of_outcome hp ho, perform_solve_of_outcome
    (Array.getElem?_setIfInBounds_self_of_lt hi) (hsame ▸ ho), hsame]
  exact congrArg (fun programs => (Workspace.mk programs w.nextId, _))
    (Array.setIfInBounds_setIfInBounds ..)

/-- A solve that fails, for whatever cause, leaves every program as it was. One that does not fail
writes to its program the outcome that it has without being written, and leaves all else as it was.
None of the parts that are written can be refused. Solving again does the same once more. -/
theorem perform_solve_all_or_nothing (hp : w.programs[i]? = some p) (F : Factorizations α)
    (checks : Bool) :
    let solved := w.perform F i (.solve checks : ProgramOp δ α)
    match (p.solveOutcome F checks).result with
    | .error e => solved = (w, ⟨(p.solveOutcome F checks).events, .error e⟩)
    | .ok o => ∃ p' : Program α,
      p.writeAll o.writes = (p', .ok ()) ∧
      (∀ k, ∃ q, p.writeAll (o.writes.take k) = (q, .ok ())) ∧
      p'.vars = p.vars ∧ p'.bindings = p.bindings ∧
      o.numVars = p.numVars ∧ p'.values = o.outcome.x.toArray.map some ∧
      p'.optimalCost = some o.outcome.cost ∧ p'.solverResult = some ⟨solverId, 0⟩ ∧
      solved = ({ w with programs := w.programs.setIfInBounds i p' },
        ⟨(p.solveOutcome F checks).events, .ok (.status .solutionFound)⟩) ∧
      solved.1.perform F i (.solve checks : ProgramOp δ α) = solved := by
  intro solved
  cases ho : (p.solveOutcome F checks).result with
  | error e => exact perform_solve_of_error hp ho
  | ok o =>
    have hn := Program.solveOutcome_numVars ho
    have hwrites := Program.writeAll_writes hn
    exact ⟨p.written o, hwrites, Program.writeAll_take hwrites, rfl, rfl, hn, rfl, rfl, rfl,
      perform_solve_of_outcome hp ho, perform_solve_again hp ho⟩

end QuadraticProgram.Workspace
