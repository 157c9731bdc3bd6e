import Mathlib.Data.Fin.VecNotation
import QuadraticProgram.Proofs.Program.Atomicity
import QuadraticProgram.Session.Run

/-! # Solving in a session

A solve in a session changes the solved program as a whole or not at all, whatever the checks and
the state of logging. Solving once more changes nothing.
-/

namespace QuadraticProgram.Session

variable {s : Session} {i : ℕ} {p : Program Float}

/-- A refused operation answers the cause and leaves the workspace that it has left. -/
theorem perform_refused {w : Workspace Float} {op : ProgramOp Datum Float}
    {events : List (Event Float)} {e : Fault Float}
    (h : s.workspace.perform factorizations i op = (w, ⟨events, .error e⟩)) :
    (s.perform i op).2 = .fault e ∧ (s.perform i op).1.workspace = w := by
  rw [perform, h]
  exact ⟨rfl, rfl⟩

theorem perform_solved {w : Workspace Float} {op : ProgramOp Datum Float}
    {events : List (Event Float)} {status : Status}
    (h : s.workspace.perform factorizations i op = (w, ⟨events, .ok (.status status)⟩)) :
    (s.perform i op).2 = .status status ∧ (s.perform i op).1.workspace = w ∧
      (s.perform i op).1.checks = s.checks := by
  rw [perform, h]
  exact ⟨rfl, rfl, rfl⟩

/-- A solve that fails, for whatever cause, leaves every program as it was. One that does not fail
writes to the solved program the outcome that it has without being written, and leaves all else as
it was. None of the parts that are written can be refused, and solving again returns the same and
changes nothing. -/
theorem solve_atomic (hp : s.workspace.programs[i]? = some p) :
    match (p.solveOutcome factorizations s.checks).result with
    | .error e =>
      (s.step (.solve i)).2 = .fault e ∧ (s.step (.solve i)).1.workspace = s.workspace
    | .ok o => ∃ p' : Program Float,
      p.writeAll o.writes = (p', .ok ()) ∧
      (∀ k, ∃ q, p.writeAll (o.writes.take k) = (q, .ok ())) ∧
      p'.vars = p.vars ∧ p'.bindings = p.bindings ∧
      o.numVars = p.numVars ∧ p'.values = o.outcome.x.toArray.map some ∧
      p'.optimalCost = some o.outcome.cost ∧ p'.solverResult = some ⟨solverId, 0⟩ ∧
      (s.step (.solve i)).2 = .status .solutionFound ∧
      (s.step (.solve i)).1.workspace =
        { s.workspace with programs := s.workspace.programs.setIfInBounds i p' } ∧
      ((s.step (.solve i)).1.step (.solve i)).2 = .status .solutionFound ∧
      ((s.step (.solve i)).1.step (.solve i)).1.workspace =
        (s.step (.solve i)).1.workspace := by
  have h := Workspace.perform_solve_all_or_nothing (δ := Datum) hp factorizations s.checks
  cases ho : (p.solveOutcome factorizations s.checks).result with
  | error e =>
    rw [ho] at h
    rw [step]
    exact perform_refused h
  | ok o =>
    rw [ho] at h
    obtain ⟨p', hwrites, hprefix, hvars, hbindings, hn, hvalues, hcost, hresult, hsolved, hagain⟩ :=
      h
    obtain ⟨hstatus, hworkspace, hchecks⟩ := perform_solved hsolved
    refine ⟨p', hwrites, hprefix, hvars, hbindings, hn, hvalues, hcost, hresult, ?_⟩
    simp only [step]
    rw [hsolved, ← hworkspace] at hagain
    obtain ⟨hstatus', hworkspace', -⟩ := perform_solved hagain
    rw [hchecks]
    exact ⟨hstatus, hworkspace, hstatus', hworkspace'⟩

/-- A solved program to which a complementarity condition was added since. -/
def blocked : Program Float where
  vars := #[⟨"x(0)", 0⟩]
  bindings := #[⟨.linearComplementarity ⟨1, Mat.zero, Vec.zero⟩, [⟨"x(0)", 0⟩], rfl⟩]
  values := #[some 1]
  optimalCost := some 1
  solverResult := some ⟨solverId, 0⟩

/-- A cost with its least value at one, and an equality that asks for just that. -/
def fixed : Program Float where
  vars := #[⟨"y(0)", 1⟩]
  bindings := #[
    ⟨.quadraticCost ⟨1, Mat.ofFn ![![4]], Vec.ofFn ![-4]⟩, [⟨"y(0)", 1⟩], rfl⟩,
    ⟨.linearEquality ⟨1, 1, Mat.ofFn ![![1]], Vec.ofFn ![1]⟩, [⟨"y(0)", 1⟩], rfl⟩]
  values := #[none]
  optimalCost := none
  solverResult := none

/-- The two programs side by side, with checks on. -/
def sideBySide : Session :=
  { initial with workspace := ⟨#[blocked, fixed], 2⟩, checks := true }

theorem blocked_solveOutcome (checks : Bool) :
    (blocked.solveOutcome factorizations checks).result =
      .error (.unsupported [.linearComplementarity]) := by
  with_unfolding_all rfl

theorem fixed_solveOutcome : ((fixed.solveOutcome factorizations true).result.toOption.map fun o =>
    (o.outcome.x.toArray.toList.map Decimal.shortestText, Decimal.shortestText o.outcome.cost)) =
      some (["1.0"], "-2.0") := by
  decide +kernel

/-- The unsupported program is refused and keeps its solution. The other one is solved, and what is
written to it is not refused; solving it again changes nothing. -/
theorem sideBySide_solve :
    (sideBySide.step (.solve 0)).2 = .fault (.unsupported [.linearComplementarity]) ∧
      (sideBySide.step (.solve 0)).1.workspace = sideBySide.workspace ∧
      (sideBySide.step (.solve 1)).2 = .status .solutionFound ∧
      (∃ (o : AnyOutcome Float) (p' : Program Float), fixed.writeAll o.writes = (p', .ok ()) ∧
        p'.vars = fixed.vars ∧ p'.bindings = fixed.bindings ∧
        p'.values.toList.map (Option.map Decimal.shortestText) = [some "1.0"] ∧
        p'.optimalCost.map Decimal.shortestText = some "-2.0" ∧
        p'.solverResult = some ⟨solverId, 0⟩ ∧
        (sideBySide.step (.solve 1)).1.workspace = ⟨#[blocked, p'], 2⟩) ∧
      ((sideBySide.step (.solve 1)).1.step (.solve 1)).1.workspace =
        (sideBySide.step (.solve 1)).1.workspace := by
  have hblocked := solve_atomic (s := sideBySide) (i := 0) (p := blocked) rfl
  rw [blocked_solveOutcome] at hblocked
  have hfixed := solve_atomic (s := sideBySide) (i := 1) (p := fixed) rfl
  have hfound := fixed_solveOutcome
  rw [show sideBySide.checks = true from rfl] at hfixed
  cases ho : (fixed.solveOutcome factorizations true).result with
  | error e =>
    rw [ho] at hfound
    cases hfound
  | ok o =>
    rw [ho] at hfixed hfound
    obtain ⟨hpoint, hcost⟩ := Prod.mk.inj (Option.some.inj hfound)
    obtain ⟨p', hwrites, -, hvars, hbindings, -, hvalues, hcost', hresult, hstatus, hworkspace, -,
      hagain⟩ := hfixed
    refine ⟨hblocked.1, hblocked.2, hstatus, ⟨o, p', hwrites, hvars, hbindings, ?_, ?_, hresult,
      hworkspace⟩, hagain⟩
    · rw [hvalues, Array.toList_map, List.map_map, ← List.map_singleton (f := some), ← hpoint,
        List.map_map]
      rfl
    · rw [hcost', ← hcost]
      rfl

end QuadraticProgram.Session
