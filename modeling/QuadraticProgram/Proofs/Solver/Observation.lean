import QuadraticProgram.Proofs.Binary.Comparison
import QuadraticProgram.Proofs.Logging.Level
import QuadraticProgram.Proofs.Solver.Execution

/-! # Checks and logging only observe -/

namespace QuadraticProgram

section Runs

variable {α : Type} [Scalar α] {n m : ℕ}

/-- The run of a problem that has a candidate. -/
theorem Problem.solve_of_candidate {F : Factorizations α} {P : Problem α n m}
    {s : Candidate α n m} (hs : (findCandidate F P).result = .ok s) :
    ∃ o : Outcome α n m, o.primalResidual = constraintResidual P.matrix P.target s.x ∧
      P.solve F false = ⟨(findCandidate F P).events ++
        missedEvents o.primalResidual (residualTolerance P.target), .ok o⟩ ∧
      (isSymmetric P.hessian symmetryTolerance = true → P.solve F true =
        ⟨(P.solve F false).events ++ [.residuals o.path ⟨o.primalResidual, o.dualResidual⟩],
          (assertWithin o.primalResidual
            (.real (residualTolerance P.target))).map fun _ => o⟩) := by
  obtain ⟨o, hprimal, hfalse, htrue⟩ := concludeCandidate_cases P s
  have hplain : P.solve F false = ⟨(findCandidate F P).events ++
      missedEvents o.primalResidual (residualTolerance P.target), .ok o⟩ := by
    change findCandidate F P >>= concludeCandidate false P = _
    rw [Logged.bind_of_ok hs, hfalse]
  refine ⟨o, hprimal, hplain, fun hsymmetric => ?_⟩
  have hassert := assertSymmetric_eq_ok_iff.mpr hsymmetric
  change (Logged.ofExcept (assertSymmetric P.hessian (.real symmetryTolerance)) >>= fun _ =>
    findCandidate F P >>= concludeCandidate true P) = _
  rw [hassert, Logged.bind_of_ok (b := ()) rfl, Logged.bind_of_ok hs, htrue, hplain]
  simp only [Logged.events_ofExcept, List.nil_append, List.append_assoc]

/-- What the checks let through. -/
theorem Problem.exists_candidate_of_solve {F : Factorizations α} {P : Problem α n m}
    {o : Outcome α n m} (h : (P.solve F true).result = .ok o) :
    isSymmetric P.hessian symmetryTolerance = true ∧ ∃ s, (findCandidate F P).result = .ok s := by
  obtain ⟨_, hassert, h⟩ := Logged.result_bind_eq_ok h
  obtain ⟨s, hs, -⟩ := Logged.result_bind_eq_ok h
  exact ⟨assertSymmetric_eq_ok_iff.mp hassert, s, hs⟩

end Runs

section Reading

variable {δ α : Type} [ArraySource δ α] [Scalar α] {hessian gradient : δ} {matrix : Option δ}
  {target : δ}

theorem solveDense_of_unread {e : Fault α}
    (h : AnyProblem.read hessian gradient matrix target = .error e) (F : Factorizations α)
    (checks : Bool) : solveDense F checks hessian gradient matrix target = ⟨[], .error e⟩ := by
  rw [solveDense, h]
  rfl

theorem solveDense_of_read {P : AnyProblem α}
    (h : AnyProblem.read hessian gradient matrix target = .ok P) (F : Factorizations α)
    (checks : Bool) : solveDense F checks hessian gradient matrix target =
      ⟨(P.problem.solve F checks).events,
        (P.problem.solve F checks).result.map fun o => ⟨_, _, P.problem, o⟩⟩ := by
  rw [solveDense, h, Logged.bind_of_ok (b := P) rfl]
  cases hsolve : (P.problem.solve F checks).result with
  | error e => rw [Logged.bind_of_error hsolve]; rfl
  | ok o => rw [Logged.bind_of_ok hsolve, Logged.events_pure, List.append_nil]; rfl

end Reading

/-- What passes the checks is returned without them too, without a warning. The checks add one
report at the end. -/
theorem Problem.solve_of_checked {n m : ℕ} {F : Factorizations Float} {P : Problem Float n m}
    {o : Outcome Float n m} (h : (P.solve F true).result = .ok o) :
    (P.solve F false).result = .ok o ∧ (P.solve F false).Quiet ∧
      (P.solve F true).events = (P.solve F false).events ++
        [.residuals o.path ⟨o.primalResidual, o.dualResidual⟩] := by
  obtain ⟨hsymmetric, s, hs⟩ := exists_candidate_of_solve h
  obtain ⟨o', hprimal, hplain, hchecked⟩ := solve_of_candidate hs
  rw [hchecked hsymmetric] at h ⊢
  obtain ⟨_, hwithin, rfl⟩ := map_eq_ok h
  have hle := assertWithin_eq_ok_iff.mp hwithin
  refine ⟨by rw [hplain], ?_, rfl⟩
  rw [hplain, missedEvents, if_neg (Binary.not_lt_of_le hle), List.append_nil]
  exact findCandidate_quiet F P

/-- The report on the residuals of an outcome. -/
def AnyOutcome.report {α : Type} (o : AnyOutcome α) : Event α :=
  .residuals o.outcome.path ⟨o.outcome.primalResidual, o.outcome.dualResidual⟩

/-- What is observed of a run: its result and the lines written, each with its severity. -/
def Registry.observe {β : Type} (r : Registry) (run : Logged Float β) :
    Except (Fault Float) β × List (Severity × LogLine) :=
  (run.result, r.rankedLines run.events)

/-- What passes the checks is returned without them too, without a warning. The checks add one
report at the end. -/
theorem solveDense_of_checked {δ : Type} [ArraySource δ Float] {F : Factorizations Float}
    {hessian gradient : δ} {matrix : Option δ} {target : δ} {o : AnyOutcome Float}
    (h : (solveDense F true hessian gradient matrix target).result = .ok o) :
    let plain := solveDense F false hessian gradient matrix target
    plain.result = .ok o ∧ plain.Quiet ∧
      (solveDense F true hessian gradient matrix target).events = plain.events ++ [o.report] := by
  intro plain
  cases hread : AnyProblem.read hessian gradient matrix target with
  | error e =>
    rw [solveDense_of_unread hread] at h
    cases h
  | ok P =>
    simp only [plain, solveDense_of_read hread] at h ⊢
    obtain ⟨outcome, houtcome, rfl⟩ := map_eq_ok h
    obtain ⟨hplain, hquiet, hevents⟩ := Problem.solve_of_checked houtcome
    exact ⟨by rw [hplain]; rfl, hquiet, hevents⟩

/-- The line about the residuals, at a level that lets it through. -/
theorem Registry.rankedLines_report {r r' : Registry} (hr : r.Reachable) {level : Datum}
    {l : LogLevel} {sink : Target} (hread : LogLevel.read level = .ok (some l)) (hpos : 0 < l.rank)
    (hle : l.rank ≤ Severity.debug.rank) (happly : r.configure level .null sink = .ok r')
    (o : AnyOutcome Float) : r'.rankedLines [o.report] =
      [(.debug, ⟨sink, "[DEBUG] eqqp.convex.equality_qp: KKT residuals (" ++
        o.outcome.path.label ++ "): " ++
        Event.residualText ⟨o.outcome.primalResidual, o.outcome.dualResidual⟩⟩)] := by
  have hline := hr.linesOf_configure hread hpos happly (e := o.report) hle
  have hlabel : LogLevel.label (.number 10) = "DEBUG" := by decide
  have htext : o.report.text = "KKT residuals (" ++ o.outcome.path.label ++ "): " ++
      Event.residualText ⟨o.outcome.primalResidual, o.outcome.dualResidual⟩ := rfl
  have hjoin (a b : String) : "[" ++ "DEBUG" ++ "] " ++ "eqqp.convex.equality_qp" ++ ": " ++
      ("KKT residuals (" ++ a ++ "): " ++ b) =
      "[DEBUG] eqqp.convex.equality_qp: KKT residuals (" ++ a ++ "): " ++ b := by
    rw [← String.toList_inj]
    simp [String.toList_append]
  rw [rankedLines, List.flatMap_singleton, hline, htext, ← hjoin, ← hlabel]
  rfl

/-- Whatever has happened to the registry, logging and checks only observe a solve of any data. Of
two levels of positive rank, the higher one gives the same result and leaves out the lines below
it. What is returned with checks on is returned without them; the checks add one line at the end
of a log without warnings. What fails without checks fails with them. -/
theorem solveDense_only_observed {δ : Type} [ArraySource δ Float] (F : Factorizations Float)
    (hessian gradient : δ) (matrix : Option δ) (target : δ) {r : Registry} (hr : r.Reachable) :
    let run := fun checks => solveDense F checks hessian gradient matrix target
    (∀ (checks : Bool) (c : Registry.LevelChange) (level₁ level₂ : Datum) (l₁ l₂ : LogLevel)
      (r₁ r₂ : Registry), LogLevel.read level₁ = .ok (some l₁) →
        LogLevel.read level₂ = .ok (some l₂) → 0 < l₁.rank → l₁.rank ≤ l₂.rank →
        c.apply r level₁ = .ok r₁ → c.apply r level₂ = .ok r₂ →
        (r₂.observe (run checks)).1 = (r₁.observe (run checks)).1 ∧
          (r₂.observe (run checks)).2 =
            (r₁.observe (run checks)).2.filter fun p => l₂.rank ≤ p.1.rank) ∧
      (∀ o, (run true).result = .ok o → (run false).result = .ok o ∧
        (∀ s : Registry, (s.observe (run true)).2 =
            (s.observe (run false)).2 ++ s.rankedLines [o.report] ∧
          ∀ p ∈ (s.observe (run true)).2, p.1 ≠ .warning) ∧
        ∀ (level : Datum) (l : LogLevel) (sink : Target) (r' : Registry),
          LogLevel.read level = .ok (some l) → 0 < l.rank → l.rank ≤ Severity.debug.rank →
          r.configure level .null sink = .ok r' → r'.rankedLines [o.report] =
            [(.debug, ⟨sink, "[DEBUG] eqqp.convex.equality_qp: KKT residuals (" ++
              o.outcome.path.label ++ "): " ++
              Event.residualText ⟨o.outcome.primalResidual, o.outcome.dualResidual⟩⟩)]) ∧
      ∀ e, (run false).result = .error e → ∃ e', (run true).result = .error e' := by
  intro run
  refine ⟨?_, ?_, ?_⟩
  · intro checks c level₁ level₂ l₁ l₂ r₁ r₂ hread₁ hread₂ hpos hle happly₁ happly₂
    exact ⟨rfl, hr.rankedLines_filter hread₁ hread₂ hpos hle happly₁ happly₂ _⟩
  · intro o ho
    obtain ⟨hplain, hquiet, hevents⟩ := solveDense_of_checked ho
    refine ⟨hplain, fun s => ⟨?_, fun p hp => ?_⟩, fun level l sink r' hread hpos hle happly =>
      Registry.rankedLines_report hr hread hpos hle happly o⟩
    · change s.rankedLines (run true).events = _
      rw [hevents, Registry.rankedLines_append]
      rfl
    · obtain ⟨e, he, hseverity, -⟩ := Registry.mem_rankedLines_iff.mp hp
      rw [← hseverity]
      rw [hevents] at he
      rcases List.mem_append.mp he with he | he
      · exact hquiet e he
      · rw [List.mem_singleton.mp he]
        nofun
  · intro e he
    cases hresult : (run true).result with
    | error e' => exact ⟨e', rfl⟩
    | ok o => cases he.symm.trans (solveDense_of_checked hresult).1

/-- One variable at its target. With checks on, a log from level 10 on ends with its residuals. -/
theorem solveDense_only_observed_single :
    let run := fun checks => solveDense Factorizations.standard checks
      (NDArray.ofMat (Mat.ofFn ![![4]] : Mat Float 1 1))
      (NDArray.ofVec (Vec.ofFn ![-4] : Vec Float 1))
      (some (NDArray.ofMat (Mat.ofFn ![![1]] : Mat Float 1 1)))
      (NDArray.ofVec (Vec.ofFn ![1] : Vec Float 1))
    Registry.initial.Reachable ∧ ∃ o r', (run true).result = .ok o ∧ (run false).result = .ok o ∧
      Registry.initial.configure (.whole 10) .null .stream = .ok r' ∧
      (r'.observe (run true)).2 = (r'.observe (run false)).2 ++
        [(.debug, ⟨.stream, "[DEBUG] eqqp.convex.equality_qp: KKT residuals (range_space): " ++
          "\x7b'primal_eq': 0.0, 'dual': 0.0\x7d"⟩)] := by
  intro run
  have hvalue : ((run true).result.toOption.map fun o => (o.outcome.path.label,
      Event.residualText ⟨o.outcome.primalResidual, o.outcome.dualResidual⟩)) =
      some ("range_space", "\x7b'primal_eq': 0.0, 'dual': 0.0\x7d") := by decide +kernel
  cases ho : (run true).result with
  | error e =>
    rw [ho] at hvalue
    cases hvalue
  | ok o =>
    rw [ho] at hvalue
    obtain ⟨hlabel, htext⟩ := Prod.mk.inj (Option.some.inj hvalue)
    obtain ⟨r', hr'⟩ : ∃ r', Registry.initial.configure (.whole 10) .null .stream = .ok r' :=
      ⟨_, rfl⟩
    obtain ⟨-, hchecked, -⟩ := solveDense_only_observed Factorizations.standard
      (NDArray.ofMat (Mat.ofFn ![![4]] : Mat Float 1 1))
      (NDArray.ofVec (Vec.ofFn ![-4] : Vec Float 1))
      (some (NDArray.ofMat (Mat.ofFn ![![1]] : Mat Float 1 1)))
      (NDArray.ofVec (Vec.ofFn ![1] : Vec Float 1)) Registry.Reachable.initial
    obtain ⟨hplain, hlines, hline⟩ := hchecked o ho
    refine ⟨.initial, o, r', rfl, hplain, hr', ?_⟩
    rw [(hlines r').1, hline (.whole 10) (.number 10) .stream r' rfl (by decide) le_rfl hr',
      hlabel, htext]
    rfl

end QuadraticProgram
