import QuadraticProgram.Proofs.Program.Invariant
import QuadraticProgram.Proofs.Solver.Observation

/-! # Warnings and refusals

Without checks a residual beyond the tolerance gives a warning, and with checks it is refused. The
two agree on every residual that is a number. One that is none is refused, but gives no warning.
-/

namespace QuadraticProgram

namespace Registry

variable {r r' : Registry}

/-- A change of all loggers that were asked for changes the loggers above a name in the same way. -/
theorem Changed.parents {f : Logger → Logger} (h : Changed f r r') (name : String) :
    r'.parents name =
      (r.parents name).map fun l => if r.cached.contains l.name then f l else l := by
  unfold Registry.parents
  generalize name.toList.reverse = cs
  fun_induction parents.above r cs with
  | case1 c rest l hl ih =>
    have hfind := h.find? (String.ofList (c :: rest).reverse)
    rw [hl, Option.map_some] at hfind
    simp only [parents.above, hfind, ih, List.map_cons, name_of_find? hl]
  | case2 c rest hl ih =>
    have hfind := h.find? (String.ofList (c :: rest).reverse)
    rw [hl, Option.map_none] at hfind
    simp only [parents.above, hfind, ih]
  | case3 c rest hc ih =>
    rw [parents.above]
    · exact ih
    · exact hc
  | case4 => rfl

/-- From the start, the solver's logger has none above it. Without a level of its own it has the one
that loggers have before any is set. -/
theorem effectiveRank_of_changed {f : Logger → Logger} (h : Changed f initial r) {l : Logger}
    (hl : l.name = "eqqp.convex.equality_qp") :
    r.effectiveRank l = if l.level.rank = 0 then Severity.warning.rank else l.level.rank := by
  have hparents : initial.parents "eqqp.convex.equality_qp" = [] := by decide
  have hroot : initial.find? rootName = none := by decide
  have hstandard : LogLevel.standard.rank = Severity.warning.rank := rfl
  rw [effectiveRank, hl, h.parents, hparents, rootRank, h.find?, hroot]
  by_cases hzero : l.level.rank = 0
  · simp [hzero, hstandard]
  · simp [hzero]

/-- A warning is written at the level of warnings and at every level below, also at those that are
not of positive rank. -/
theorem linesOf_warning {level : Datum} {l : LogLevel} {sink : Target}
    (hread : LogLevel.read level = .ok (some l)) (hle : l.rank ≤ Severity.warning.rank)
    (hr : initial.configure level .null sink = .ok r) (residual tolerance : Float) :
    r.linesOf (.constraintsMissed residual tolerance) =
      [⟨sink, "[WARNING] eqqp.convex.equality_qp: " ++
        Event.text (.constraintsMissed residual tolerance)⟩] := by
  obtain ⟨f, hf, hchanged⟩ := changed_of_configure hread hr
  obtain rfl : RecordFormat.standard = f := Except.ok.inj hf
  obtain ⟨logger, hfind, hpropagate, hnew⟩ := (Reachable.initial.owns
    (.constraintsMissed residual tolerance)).find?_changed hchanged
  have heffective : r.effectiveRank (withHandler ⟨l, sink, RecordFormat.standard⟩ logger) ≤
      Severity.warning.rank := by
    rw [effectiveRank_of_changed hchanged (name_of_find? hnew)]
    split
    · exact le_rfl
    · exact hle
  have hpos : 0 < (eventRecord (.constraintsMissed residual tolerance)).level.rank := by
    change 0 < Severity.warning.rank
    decide
  have hlabel : LogLevel.label (.number 30) = "WARNING" := by decide
  rw [linesOf_of_find? hnew,
    emit_of_le (atLevel_withHandler hpropagate _) hpos heffective hle, withHandler,
    List.filterMap_cons, List.filterMap_nil, line?, RecordFormat.write_standard]
  change [LogLine.mk sink ("[" ++ LogLevel.label (.number 30) ++ "] " ++
    "eqqp.convex.equality_qp" ++ ": " ++ Event.text (.constraintsMissed residual tolerance))] = _
  rw [hlabel]
  rfl

end Registry

section Candidate

variable {δ : Type} [ArraySource δ Float] {F : Factorizations Float} {hessian gradient : δ}
  {matrix : Option δ} {target : δ} {P : AnyProblem Float}
  {s : Candidate Float P.numVars P.numConstraints}

/-- With checks, a candidate of a symmetric problem is an outcome if its residual is within the
tolerance. Otherwise it is refused. -/
theorem solveDense_checked_cases
    (hread : AnyProblem.read hessian gradient matrix target = .ok P)
    (hsymmetric : isSymmetric P.problem.hessian symmetryTolerance = true)
    (hs : (findCandidate F P.problem).result = .ok s) :
    let run := solveDense F true hessian gradient matrix target
    let residual := constraintResidual P.problem.matrix P.problem.target s.x
    let tolerance := residualTolerance P.problem.target
    (residual ≤ tolerance ∧ ∃ o, run.result = .ok o) ∨
      ¬residual ≤ tolerance ∧ run.result = .error (.infeasible residual (.real tolerance)) := by
  intro run residual tolerance
  obtain ⟨o, hprimal, -, hchecked⟩ := Problem.solve_of_candidate hs
  have hresult : run.result = (assertWithin residual (.real tolerance)).map
      fun _ => ⟨_, _, P.problem, o⟩ := by
    simp only [run, solveDense_of_read hread, hchecked hsymmetric, hprimal]
    cases assertWithin residual (.real tolerance) <;> rfl
  rw [hresult, assertWithin_real]
  by_cases hle : residual ≤ tolerance
  · rw [if_pos hle]
    exact .inl ⟨hle, _, rfl⟩
  · rw [if_neg hle]
    exact .inr ⟨hle, rfl⟩

/-- Without checks, the only warning is the one about a residual beyond the tolerance. -/
theorem warning_mem_observe_iff {level : Datum} {l : LogLevel} {sink : Target} {r : Registry}
    (hread : AnyProblem.read hessian gradient matrix target = .ok P)
    (hs : (findCandidate F P.problem).result = .ok s)
    (hlevel : LogLevel.read level = .ok (some l)) (hle : l.rank ≤ Severity.warning.rank)
    (hr : Registry.initial.configure level .null sink = .ok r) (line : LogLine) :
    let residual := constraintResidual P.problem.matrix P.problem.target s.x
    let tolerance := residualTolerance P.problem.target
    (.warning, line) ∈ (r.observe (solveDense F false hessian gradient matrix target)).2 ↔
      tolerance < residual ∧ line = ⟨sink, "[WARNING] eqqp.convex.equality_qp: " ++
        Event.text (.constraintsMissed residual tolerance)⟩ := by
  intro residual tolerance
  obtain ⟨o, hprimal, hplain, -⟩ := Problem.solve_of_candidate hs
  have hline := Registry.linesOf_warning hlevel hle hr residual tolerance
  have hevents : (solveDense F false hessian gradient matrix target).events =
      (findCandidate F P.problem).events ++ missedEvents residual tolerance := by
    simp only [solveDense_of_read hread, hplain, hprimal]
    rfl
  rw [Registry.observe, Registry.mem_rankedLines_iff, hevents]
  constructor
  · rintro ⟨e, he, hseverity, hmem⟩
    rcases List.mem_append.mp he with he | he
    · exact absurd hseverity (findCandidate_quiet F P.problem e he)
    · obtain ⟨hlt, rfl⟩ := mem_missedEvents_iff.mp he
      rw [hline] at hmem
      exact ⟨hlt, List.mem_singleton.mp hmem⟩
  · rintro ⟨hlt, rfl⟩
    refine ⟨.constraintsMissed residual tolerance, ?_, rfl, ?_⟩
    · exact List.mem_append_right _ (mem_missedEvents_iff.mpr ⟨hlt, rfl⟩)
    · rw [hline]
      exact List.mem_singleton_self _

end Candidate

/-- A candidate of a symmetric problem is refused by the checks exactly if it causes a warning
without them, as long as its residual is a number. A residual that is none is refused without such
a warning. The checks refuse the candidate for no other reason. -/
theorem solveDense_refuses_iff_warns {δ : Type} [ArraySource δ Float] {F : Factorizations Float}
    {hessian gradient : δ} {matrix : Option δ} {target : δ} {P : AnyProblem Float}
    (hread : AnyProblem.read hessian gradient matrix target = .ok P)
    (hsymmetric : isSymmetric P.problem.hessian symmetryTolerance = true)
    {s : Candidate Float P.numVars P.numConstraints}
    (hs : (findCandidate F P.problem).result = .ok s) {level : Datum} {l : LogLevel}
    (hlevel : LogLevel.read level = .ok (some l)) (hle : l.rank ≤ Severity.warning.rank)
    {sink : Target} {r : Registry} (hr : Registry.initial.configure level .null sink = .ok r) :
    let run := fun checks => solveDense F checks hessian gradient matrix target
    let residual := constraintResidual P.problem.matrix P.problem.target s.x
    let tolerance := residualTolerance P.problem.target
    let refused := (run true).result = .error (.infeasible residual (.real tolerance))
    let warned := (Severity.warning, ⟨sink, "[WARNING] eqqp.convex.equality_qp: " ++
      Event.text (.constraintsMissed residual tolerance)⟩) ∈ (r.observe (run false)).2
    (residual.isNaN = false → (refused ↔ warned)) ∧
      (residual.isNaN = true → refused ∧ ∀ line, (.warning, line) ∉ (r.observe (run false)).2) ∧
      ((∃ o, (run true).result = .ok o) ∨ refused) := by
  intro run residual tolerance refused warned
  have hcases : (residual ≤ tolerance ∧ ∃ o, (run true).result = .ok o) ∨
    ¬residual ≤ tolerance ∧ refused := solveDense_checked_cases hread hsymmetric hs
  have hrefused : refused ↔ ¬residual ≤ tolerance := by
    rcases hcases with ⟨hle, o, ho⟩ | ⟨hnot, h⟩
    · refine iff_of_false (fun h => ?_) (not_not_intro hle)
      cases ho.symm.trans h
    · exact iff_of_true h hnot
  have hwarned (line : LogLine) := warning_mem_observe_iff hread hs hlevel hle hr line
  have htolerance : tolerance.isNaN = false := Binary.residualTolerance_isNaN P.problem.target
  refine ⟨fun hnumber => ?_, fun hnan => ?_, ?_⟩
  · rw [hrefused, ← Binary.lt_iff_not_le htolerance hnumber]
    exact (hwarned _).trans (and_iff_left rfl) |>.symm
  · refine ⟨hrefused.mpr (Binary.not_le_of_isNaN (.inl hnan)), fun line hline => ?_⟩
    exact Binary.not_lt_of_isNaN (.inr hnan) ((hwarned line).mp hline).1
  · exact hcases.imp And.right And.right

/-- A solve of a problem given as arrays. -/
def Problem.solveArrays {n m : ℕ} (P : Problem Float n m) (checks : Bool) :
    Logged Float (AnyOutcome Float) :=
  solveDense Factorizations.standard checks (NDArray.ofMat P.hessian) (NDArray.ofVec P.gradient)
    (some (NDArray.ofMat P.matrix)) (NDArray.ofVec P.target)

/-- A variable that does not occur in its constraint. -/
def unreachable : Problem Float 1 1 :=
  ⟨Mat.ofFn ![![4]], Vec.ofFn ![0], Mat.ofFn ![![0]], Vec.ofFn ![1]⟩

/-- The constraint is missed by one, which is refused and causes a warning. -/
theorem solveDense_refuses_unreachable :
    isSymmetric unreachable.hessian symmetryTolerance = true ∧
      ∃ s r, (findCandidate Factorizations.standard unreachable).result = .ok s ∧
        Registry.initial.configure (.whole 30) .null .stream = .ok r ∧
        (constraintResidual unreachable.matrix unreachable.target s.x).isNaN = false ∧
        (∃ e, (unreachable.solveArrays true).result = .error e) ∧
        ∃ line, (.warning, line) ∈ (r.observe (unreachable.solveArrays false)).2 := by
  have hsymmetric : isSymmetric unreachable.hessian symmetryTolerance = true := by decide +kernel
  have hnumber : ((findCandidate Factorizations.standard unreachable).result.toOption.map fun s =>
      (constraintResidual unreachable.matrix unreachable.target s.x).isNaN) = some false := by
    decide +kernel
  have hfails : (unreachable.solveArrays true).result.isOk = false := by decide +kernel
  have hlevel : LogLevel.read (.whole 30) = .ok (some (.number 30)) := rfl
  obtain ⟨r, hr⟩ : ∃ r, Registry.initial.configure (.whole 30) .null .stream = .ok r := ⟨_, rfl⟩
  cases hs : (findCandidate Factorizations.standard unreachable).result with
  | error e =>
    rw [hs] at hnumber
    cases hnumber
  | ok s =>
    rw [hs] at hnumber
    have hnumber := Option.some.inj hnumber
    obtain ⟨hiff, -, hchecked⟩ := solveDense_refuses_iff_warns
      (P := ⟨1, 1, unreachable⟩) (AnyProblem.read_arrays unreachable) hsymmetric hs
      hlevel le_rfl hr
    have hrefused := hchecked.resolve_left fun ⟨o, ho⟩ => by
      change (unreachable.solveArrays true).result = _ at ho
      rw [ho] at hfails
      cases hfails
    exact ⟨hsymmetric, s, r, rfl, hr, hnumber, ⟨_, hrefused⟩, _, (hiff hnumber).mp hrefused⟩

/-- A variable whose weight is so small that its point overflows. -/
def overflowing : Problem Float 1 1 :=
  ⟨Mat.ofFn ![![1e-300]], Vec.ofFn ![1e300], Mat.ofFn ![![0]], Vec.ofFn ![0]⟩

/-- The residual is no number. It is refused, and without checks there is no warning. -/
theorem solveDense_refuses_without_warning :
    (∃ residual tolerance, (overflowing.solveArrays true).result =
      .error (.infeasible residual tolerance)) ∧
      (∃ o, (overflowing.solveArrays false).result = .ok o) ∧
      ∀ (r : Registry) (line : LogLine),
        (.warning, line) ∉ (r.observe (overflowing.solveArrays false)).2 := by
  have hrefused : (match (overflowing.solveArrays true).result with
      | .error (.infeasible _ _) => true
      | _ => false) = true := by decide +kernel
  have hquiet : (overflowing.solveArrays false).events.all
      (fun e => e.severity ≠ .warning) = true := by decide +kernel
  have hok : (overflowing.solveArrays false).result.isOk = true := by decide +kernel
  refine ⟨?_, ?_, fun r line hline => ?_⟩
  · split at hrefused
    · rename_i residual tolerance h
      exact ⟨residual, tolerance, h⟩
    · cases hrefused
  · cases h : (overflowing.solveArrays false).result with
    | error e =>
      rw [h] at hok
      cases hok
    | ok o => exact ⟨o, rfl⟩
  · obtain ⟨e, he, hseverity, -⟩ := Registry.mem_rankedLines_iff.mp hline
    exact absurd hseverity (of_decide_eq_true (List.all_eq_true.mp hquiet e he))

end QuadraticProgram
