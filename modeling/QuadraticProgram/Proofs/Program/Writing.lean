import QuadraticProgram.Program.Solve
import QuadraticProgram.Proofs.Program.InPlace
import QuadraticProgram.Proofs.Solver.Logged

/-! # A solution is written as a whole

A solution is written to a program in three parts, one after the other, and what was written stays
if a later part is refused. None is: a solve returns as many values as the program has variables. A
solve reads nothing that a solution writes, so solving again writes the same.
-/

namespace QuadraticProgram

section Parts

variable {α : Type} [Scalar α]

namespace Program

/-- What becomes of a program to which parts are written one after the other. The first one that is
refused ends the writing; what was written before stays. -/
def writeAll (p : Program α) (ws : List (Write α)) : Program α × Except (Fault α) Unit :=
  let (q, done) := (writeParts ws).run p
  (q, done.result)

/-- The program with an outcome in place of what was written before. -/
def written (p : Program α) (o : AnyOutcome α) : Program α :=
  { p with
    values := o.outcome.x.toArray.map some
    optimalCost := some o.outcome.cost
    solverResult := some ⟨solverId, Status.solutionFound.code⟩ }

variable {p : Program α} {o : AnyOutcome α}

theorem writeParts_cons (w : Write α) (ws : List (Write α)) :
    writeParts (w :: ws) = (write w >>= fun _ => writeParts ws) := rfl

/-- If everything is written, no part is refused on the way. -/
theorem writeAll_take {q : Program α} {ws : List (Write α)} (h : p.writeAll ws = (q, .ok ()))
    (k : ℕ) : ∃ r, p.writeAll (ws.take k) = (r, .ok ()) := by
  induction ws generalizing p k with
  | nil => exact ⟨q, by rwa [List.take_nil]⟩
  | cons w ws ih =>
    cases k with
    | zero => exact ⟨p, rfl⟩
    | succ k =>
      rw [List.take_succ_cons]
      unfold writeAll at h ⊢
      rw [writeParts_cons] at h ⊢
      cases hw : ((write w).run p).2.result with
      | error e =>
        rw [InPlace.bind_of_error hw] at h
        cases h
      | ok u =>
        rw [InPlace.bind_of_ok hw] at h ⊢
        exact ih h k

theorem write_values_of_eq {x : AnyVec α} (h : x.size = p.numVars) :
    (write (.values x)).run p = (p.setValues x, pure ()) := by
  have hcount : p.checkCount x = .ok () := if_pos h
  exact InPlace.check_bind_of_ok (g := fun q : Program α => q.checkCount x) hcount _

theorem write_values_of_ne {x : AnyVec α} (h : x.size ≠ p.numVars) :
    (write (.values x)).run p = (p, ⟨[], .error (.valueCount p.numVars x.size)⟩) := by
  have hcount : p.checkCount x = .error (.valueCount p.numVars x.size) := if_neg h
  exact InPlace.check_bind_of_error (g := fun q : Program α => q.checkCount x) hcount _

theorem writeParts_writes (h : o.numVars = p.numVars) :
    (writeParts o.writes).run p = (p.written o, pure ()) := by
  have hvalues := write_values_of_eq (x := ⟨o.numVars, o.outcome.x⟩) h
  have hresult : ((write (.values ⟨o.numVars, o.outcome.x⟩)).run p).2.result = .ok () := by
    rw [hvalues]
    rfl
  rw [AnyOutcome.writes, writeParts_cons, InPlace.bind_of_ok hresult, hvalues]
  rfl

theorem writeAll_writes (h : o.numVars = p.numVars) :
    p.writeAll o.writes = (p.written o, .ok ()) := by
  rw [writeAll, writeParts_writes h]
  rfl

/-- What is assembled has the variables of the program. -/
theorem assemble_spec {P : AnyProblem α} (h : p.assemble.result = .ok P) :
    ∃ cs es, p.placedCosts = .ok cs ∧ p.placedEqualities = .ok es ∧ P = assemblePlaced cs es := by
  obtain ⟨cs, hcs, h⟩ := Logged.result_bind_eq_ok h
  obtain ⟨es, hes, h⟩ := Logged.result_bind_eq_ok h
  cases h
  exact ⟨cs, es, hcs, hes, rfl⟩

theorem assemble_of_placed {cs : List (PlacedCost α p.numVars)}
    {es : List (PlacedEquality α p.numVars)} (hcs : p.placedCosts = .ok cs)
    (hes : p.placedEqualities = .ok es) :
    p.assemble = ⟨[.assembled p.numVars cs.length es.length (assemblePlaced cs es).numConstraints],
      .ok (assemblePlaced cs es)⟩ := by
  rw [placedCosts] at hcs
  rw [placedEqualities] at hes
  rw [assemble, assembleBy, hcs, hes]
  rfl

theorem solveOutcome_assembled (p : Program α) (F : Factorizations α) (checks : Bool) :
    p.solveOutcome F checks = (do
      Logged.ofExcept p.checkSupported
      let P ← p.assemble
      let outcome ← P.problem.solve F checks
      pure ⟨P.numVars, P.numConstraints, P.problem, outcome⟩) := rfl

/-- An outcome has a value for every variable of the program. -/
theorem solveOutcome_numVars {F : Factorizations α} {checks : Bool}
    (h : (p.solveOutcome F checks).result = .ok o) : o.numVars = p.numVars := by
  obtain ⟨_, -, h⟩ := Logged.result_bind_eq_ok h
  obtain ⟨P, hP, h⟩ := Logged.result_bind_eq_ok h
  obtain ⟨u, -, h⟩ := Logged.result_bind_eq_ok h
  cases h
  obtain ⟨cs, es, -, -, rfl⟩ := assemble_spec hP
  rfl

/-- Quadratic costs and equalities are what the solver can handle. -/
theorem isSupported_of_kinds
    (h : ∀ b ∈ p.bindings, b.kind = .quadraticCost ∨ b.kind = .linearEquality) :
    ∀ b ∈ p.bindings, b.kind.isSupported := by
  intro b hb
  rcases h b hb with hkind | hkind
  · rw [hkind]
    rfl
  · rw [hkind]
    rfl

theorem checkSupported_eq_ok (h : ∀ b ∈ p.bindings, b.kind.isSupported) :
    p.checkSupported = .ok () := by
  have hnone : p.unsupportedKinds = [] := by
    rw [unsupportedKinds, List.filter_eq_nil_iff]
    intro k hk
    obtain ⟨-, hk⟩ := List.mem_filter.mp hk
    obtain ⟨b, hb, hbk⟩ := Array.any_eq_true'.mp hk
    rw [← of_decide_eq_true hbk, h b hb]
    simp
  rw [checkSupported, hnone]
  rfl

/-- The outcome of a supported program is that of its assembled problem. -/
theorem solveOutcome_of_assembled (h : ∀ b ∈ p.bindings, b.kind.isSupported) {P : AnyProblem α}
    (hP : p.assemble.result = .ok P) {F : Factorizations α} {checks : Bool}
    {u : Outcome α P.numVars P.numConstraints} (hu : (P.problem.solve F checks).result = .ok u) :
    (p.solveOutcome F checks).result = .ok ⟨P.numVars, P.numConstraints, P.problem, u⟩ := by
  rw [solveOutcome_assembled, checkSupported_eq_ok h, Logged.result_bind, Logged.result_ofExcept]
  change (p.assemble >>= _).result = _
  rw [Logged.result_bind, hP]
  change (P.problem.solve F checks >>= _).result = _
  rw [Logged.result_bind, hu]
  rfl

section Solved

variable {F : Factorizations α} {checks : Bool}

theorem solveInPlace_of_outcome (h : (p.solveOutcome F checks).result = .ok o) :
    (solveInPlace F checks).run p =
      (p.written o, ⟨(p.solveOutcome F checks).events, .ok .solutionFound⟩) := by
  have hwrites := writeParts_writes (solveOutcome_numVars h)
  rw [solveInPlace, InPlace.observe_bind_of_ok h, InPlace.bind_pure_run, hwrites]
  exact congrArg (fun events => (p.written o, Logged.mk events _)) (List.append_nil _)

/-- A failed solve writes nothing. -/
theorem solveInPlace_of_error {e : Fault α} (h : (p.solveOutcome F checks).result = .error e) :
    (solveInPlace F checks).run p = (p, ⟨(p.solveOutcome F checks).events, .error e⟩) :=
  InPlace.observe_bind_of_error h _

theorem solve_of_outcome (h : (p.solveOutcome F checks).result = .ok o) :
    (p.solve F checks).result = .ok (p.written o, .solutionFound) := by
  rw [solve, InPlace.outcome, solveInPlace_of_outcome h]
  rfl

end Solved

/-- The position of a variable depends on the variables of the program only. -/
theorem index_rebound (p : Program α) (bindings values cost result) :
    (⟨p.vars, bindings, values, cost, result⟩ : Program α).index = p.index := by
  funext v
  unfold index
  dsimp only
  cases p.vars.findFinIdx? fun w => w.id == v.id with
  | none => rfl
  | some i => rfl

/-- A solve depends on the variables and the bindings of the program only. -/
theorem solveOutcome_rebound (p : Program α) (values : Array (Option α)) (cost : Option α)
    (result : Option SolverResult) (F : Factorizations α) (checks : Bool) :
    (⟨p.vars, p.bindings, values, cost, result⟩ : Program α).solveOutcome F checks =
      p.solveOutcome F checks := by
  unfold solveOutcome
  rw [index_rebound]
  rfl

end Program

end Parts

end QuadraticProgram
