import QuadraticProgram.Proofs.Program.Renumbering
import QuadraticProgram.Proofs.Program.Requests

/-! # Programs do not interfere

Among requests to other programs, a program answers its own requests as if they came alone, with
variables of any other program in place of foreign ones: the two runs keep programs that show the
same. What is foreign stays foreign, and is refused.
-/

namespace QuadraticProgram

variable {δ α : Type} [Scalar α]

def Reply.unnumbered : Reply α → Reply α
  | .performed a => .performed a.unnumbered
  | reply => reply

namespace Workspace

variable [ArraySource δ α] {w u : Workspace α} {i j : ℕ} {p q : Program α}

/-- The answers of one program, without the numbers of variables. -/
def answersOf (i : ℕ) (answers : List (ℕ × Logged α (Reply α))) : List (Logged α (Reply α)) :=
  (answers.filter fun a => a.1 = i).map fun a => a.2.unnumbered Reply.unnumbered

/-- Refer to the own variables by another number of the program, and to others in place of foreign
ones. -/
def redirect (i j : ℕ) (other : VariableRef → VariableRef) (r : VariableRef) : VariableRef :=
  if r.program = i then ⟨j, r.place⟩ else other r

/-- A step of one program, as a step of the program of another number. -/
def Step.alone (i j : ℕ) (other : VariableRef → VariableRef) : Step δ α → Option (Step δ α)
  | .newProgram => none
  | .request l r => if l = i then some (.request j (r.map (redirect i j other))) else none

/-- The foreign variables that a step of one program speaks of. -/
def Step.foreignRefs (i : ℕ) : Step δ α → List VariableRef
  | .newProgram => []
  | .request l r => if l = i then r.vars.filter fun x => x.program ≠ i else []

section Mirrored

theorem program_eq (hp : w.programs[i]? = some p) : w.program i = .ok p := by
  rw [program, hp]

theorem unnumbered_performed {t t' : Transition α} (h : t.Alike t') :
    (⟨t'.run.events, t'.run.result.map .performed⟩ : Logged α (Reply α)).unnumbered
        Reply.unnumbered =
      (⟨t.run.events, t.run.result.map .performed⟩ : Logged α (Reply α)).unnumbered
        Reply.unnumbered := by
  have hfold : ∀ r : Logged α (ProgramAnswer α),
      (⟨r.events, r.result.map .performed⟩ : Logged α (Reply α)).unnumbered Reply.unnumbered =
        ⟨(r.unnumbered ProgramAnswer.unnumbered).events,
          (r.unnumbered ProgramAnswer.unnumbered).result.map .performed⟩ := by
    rintro ⟨events, result⟩
    cases result <;> rfl
  rw [hfold, hfold, h.run_eq]

/-- Answers from the same values are the same. -/
theorem unnumbered_read {β : Type} {x y : Except (Fault α) β} {f : β → Reply α}
    (hf : ∀ b, (f b).unnumbered = f b)
    (h : y.mapError Fault.unnumbered = x.mapError Fault.unnumbered) :
    (Logged.ofExcept (y.map f)).unnumbered Reply.unnumbered =
      (Logged.ofExcept (x.map f)).unnumbered Reply.unnumbered := by
  have hfold : ∀ x : Except (Fault α) β,
      (Logged.ofExcept (x.map f)).unnumbered Reply.unnumbered =
        Logged.ofExcept ((x.mapError Fault.unnumbered).map f) := by
    intro x
    cases x with
    | error e => rfl
    | ok b => exact congrArg (fun a => Logged.ofExcept (.ok a)) (hf b)
  rw [hfold, hfold, h]

/-- Two results that leave programs which show the same, with the same answer up to numbers. -/
structure Alike (i j : ℕ) (r r' : Workspace α × Logged α (Reply α)) : Prop where
  appearance_eq : ∃ p q, r.1.programs[i]? = some p ∧ r'.1.programs[j]? = some q ∧
    q.appearance = p.appearance
  answer_eq : r'.2.unnumbered Reply.unnumbered = r.2.unnumbered Reply.unnumbered

variable {F : Factorizations α}

theorem answer_alike (hw : w.Apart) (hu : u.Apart) (hp : w.programs[i]? = some p)
    (hq : u.programs[j]? = some q) (h : q.appearance = p.appearance) {op op' : ProgramOp δ α}
    (hop : Program.OpCorresponds p q op op') : Alike i j (w.answer F i op) (u.answer F j op') := by
  have halike := Program.perform_alike (F := F) (hw.consistent hp) (hu.consistent hq) h hop
  constructor
  · refine ⟨_, _, ?_, ?_, halike.appearance_eq⟩
    · exact (programs_perform hp F op i).trans (if_pos rfl)
    · exact (programs_perform hq F op' j).trans (if_pos rfl)
  · simp only [answer, perform_eq hp, perform_eq hq]
    exact unnumbered_performed halike

/-- A request over corresponding variables is answered as the original one. -/
theorem respond_alike (hw : w.Apart) (hu : u.Apart) (hp : w.programs[i]? = some p)
    (hq : u.programs[j]? = some q) (h : q.appearance = p.appearance)
    {s s' : Request δ α Variable} (hs : s.Related (Program.Corresponds p q) s') :
    Alike i j (w.respond F i s) (u.respond F j s') := by
  cases hs with
  | perform op hnot => exact answer_alike hw hu hp hq h (.same hnot)
  | add spec hvs => exact answer_alike hw hu hp hq h (.add spec hvs)
  | index hv =>
    refine ⟨⟨p, q, hp, hq, h⟩, ?_⟩
    simp only [respond, program_eq hp, program_eq hq]
    exact unnumbered_read (fun _ => rfl) (Program.index_alike hv)
  | solution hv =>
    refine ⟨⟨p, q, hp, hq, h⟩, ?_⟩
    simp only [respond, program_eq hp, program_eq hq]
    exact unnumbered_read (fun _ => rfl) (Program.solution_alike h hv)
  | solutions hvs =>
    refine ⟨⟨p, q, hp, hq, h⟩, ?_⟩
    simp only [respond, program_eq hp, program_eq hq]
    exact unnumbered_read (fun _ => rfl) (Program.solutions_alike h hvs)

end Mirrored

section Runs

variable {F : Factorizations α} {w' : Workspace α} {a answers : List (ℕ × Logged α (Reply α))}
  {steps : List (Step δ α)} {other : VariableRef → VariableRef}

/-- A variable of another program is foreign. -/
theorem Apart.index_foreign (h : w.Apart) {i' : ℕ} {p' : Program α} (hne : i' ≠ i)
    (hp : w.programs[i]? = some p) (hp' : w.programs[i']? = some p') {v : Variable}
    (hv : v ∈ p'.vars) : p.index v = .error (.foreignVariable v) :=
  Program.index_of_foreign fun x hx => h.disjoint hne.symm hp hp' x hx v hv

/-- Two workspaces of which each has a program, and these show the same. -/
structure Mirrors (w : Workspace α) (i : ℕ) (u : Workspace α) (j : ℕ) : Prop where
  apart : w.Apart
  apart_alone : u.Apart
  appearance_eq : ∃ q, u.programs[j]? = some q ∧
    q.appearance = (w.programs[i]?.getD Program.empty).appearance

/-- References that stand for variables of programs other than that of a number. -/
def Elsewhere (u : Workspace α) (j : ℕ) (x : VariableRef) : Prop :=
  x.program ≠ j ∧ (u.deref x).isSome

/-- What an own reference is redirected to corresponds to what it stands for, and so does any
variable of another program to a foreign one. -/
theorem corresponds_redirect (hw : w.Apart) (hu : u.Apart) (hp : w.programs[i]? = some p)
    (hq : u.programs[j]? = some q) (h : q.appearance = p.appearance) {x : VariableRef}
    (hother : x.program ≠ i → u.Elsewhere j (other x)) {v : Variable} (hv : w.deref x = some v) :
    ∃ v', u.deref (redirect i j other x) = some v' ∧ Program.Corresponds p q v v' := by
  obtain ⟨p', hp', hv⟩ := deref_eq_some_iff.mp hv
  by_cases hx : x.program = i
  · rw [hx] at hp'
    obtain rfl : p' = p := Option.some_inj.mp (hp'.symm.trans hp)
    have hlt : x.place < q.vars.size := by
      have hsize : q.vars.size = p'.vars.size := Program.numVars_eq_of_appearance h
      rw [hsize]
      exact (Array.getElem?_eq_some_iff.mp hv).1
    have hv' := Array.getElem?_eq_getElem hlt
    rw [redirect, if_pos hx]
    exact ⟨_, deref_eq_some_iff.mpr ⟨q, hq, hv'⟩,
      (hw.consistent hp).corresponds (hu.consistent hq) h hv hv'⟩
  · obtain ⟨hne, hsome⟩ := hother hx
    obtain ⟨v', hv'⟩ := Option.isSome_iff_exists.mp hsome
    obtain ⟨q', hq', hmem⟩ := deref_eq_some_iff.mp hv'
    rw [redirect, if_neg hx]
    exact ⟨v', hv', .foreign (hw.index_foreign hx hp hp' (Array.mem_of_getElem? hv))
      (hu.index_foreign hne hq hq' (Array.mem_of_getElem? hmem))⟩

theorem answersOf_single (i : ℕ) (run : Logged α (Reply α)) :
    answersOf i [(i, run)] = [run.unnumbered Reply.unnumbered] := by
  simp [answersOf]

theorem answersOf_append (i : ℕ) (as bs : List (ℕ × Logged α (Reply α))) :
    answersOf i (as ++ bs) = answersOf i as ++ answersOf i bs := by
  rw [answersOf, List.filter_append, List.map_append]
  rfl

/-- An own request is carried out alone as among others. -/
theorem Mirrors.request (h : Mirrors w i u j) {r : Request δ α VariableRef}
    (hother : ∀ x ∈ r.vars, x.program ≠ i → u.Elsewhere j (other x))
    (hstep : w.step? F (.request i r) = some (w', a)) :
    ∃ u' b, u.step? F (.request j (r.map (redirect i j other))) = some (u', b) ∧
      Mirrors w' i u' j ∧ answersOf j b = answersOf i a ∧
      ∀ x, u.Elsewhere j x → u'.Elsewhere j x := by
  obtain ⟨p, s, hp, hs, rfl, rfl⟩ := step?_request_eq_some hstep
  obtain ⟨q, hq, happearance⟩ := h.appearance_eq
  rw [hp] at happearance
  have hredirect := fun x hx v hv =>
    corresponds_redirect h.apart h.apart_alone hp hq happearance (hother x hx) (v := v) hv
  obtain ⟨s', hs', hrelated⟩ :=
    Request.resolve_related (g := u.deref ∘ redirect i j other) hredirect hs
  obtain ⟨⟨p', q', hp', hq', hsame⟩, hanswer⟩ :=
    respond_alike (F := F) h.apart h.apart_alone hp hq happearance hrelated
  refine ⟨_, [(j, (u.respond F j s').2)], ?_,
    ⟨h.apart.respond hp F s, h.apart_alone.respond hq F s', q', hq', ?_⟩, ?_, ?_⟩
  · rw [step?, Request.resolve_map, hs', hq]
    rfl
  · rw [hsame, hp']
    rfl
  · rw [answersOf_single, answersOf_single, hanswer]
  · rintro x ⟨hne, hsome⟩
    refine ⟨hne, ?_⟩
    rw [deref, programs_respond_of_ne hq F s' hne]
    exact hsome

/-- What happens to other programs does not show. -/
theorem Mirrors.pass (h : Mirrors w i u j) {l : ℕ} {r : Request δ α VariableRef} (hl : l ≠ i)
    (hstep : w.step? F (.request l r) = some (w', a)) :
    Mirrors w' i u j ∧ answersOf i a = [] := by
  obtain ⟨p, s, hp, -, rfl, rfl⟩ := step?_request_eq_some hstep
  refine ⟨⟨h.apart.respond hp F s, h.apart_alone, ?_⟩, ?_⟩
  · rw [programs_respond_of_ne hp F s hl.symm]
    exact h.appearance_eq
  · simp [answersOf, hl]

theorem Mirrors.newProgram (h : Mirrors w i u j) : Mirrors w.newProgram i u j := by
  refine ⟨h.apart.newProgram, h.apart_alone, ?_⟩
  have hget : w.newProgram.programs[i]?.getD Program.empty =
      w.programs[i]?.getD Program.empty := by
    rw [Workspace.newProgram, Array.getElem?_push]
    split
    · subst i
      rw [Array.getElem?_size]
      rfl
    · rfl
  rw [hget]
  exact h.appearance_eq

/-- A program among others is carried along by its own steps alone. -/
theorem Mirrors.run (h : Mirrors w i u j)
    (hother : ∀ step ∈ steps, ∀ x ∈ step.foreignRefs i, u.Elsewhere j (other x))
    (hrun : w.run? F steps = some (w', answers)) :
    ∃ u' alone, u.run? F (steps.filterMap (Step.alone i j other)) = some (u', alone) ∧
      Mirrors w' i u' j ∧ answersOf j alone = answersOf i answers := by
  induction steps generalizing w u answers with
  | nil =>
    cases hrun
    exact ⟨u, [], rfl, h, rfl⟩
  | cons step steps ih =>
    obtain ⟨w₁, a, as, hstep, hrest, rfl⟩ := run?_cons_eq_some hrun
    have hrest' : ∀ {u' : Workspace α}, (∀ x, u.Elsewhere j x → u'.Elsewhere j x) →
        ∀ step ∈ steps, ∀ x ∈ step.foreignRefs i, u'.Elsewhere j (other x) :=
      fun hkept step hmem x hx => hkept _ (hother step (List.mem_cons_of_mem _ hmem) x hx)
    cases step with
    | newProgram =>
      cases hstep
      exact ih h.newProgram (hrest' fun _ => id) hrest
    | request l r =>
      by_cases hl : l = i
      · subst l
        have hforeign : ∀ x ∈ r.vars, x.program ≠ i → u.Elsewhere j (other x) := by
          intro x hx hne
          refine hother _ List.mem_cons_self x ?_
          rw [Step.foreignRefs, if_pos rfl]
          exact List.mem_filter.mpr ⟨hx, decide_eq_true hne⟩
        obtain ⟨u₁, b, hstep', h₁, hb, hkept⟩ := h.request hforeign hstep
        obtain ⟨u', bs, hrun', h', hbs⟩ := ih h₁ (hrest' hkept) hrest
        have halone : Step.alone i j other (.request i r : Step δ α) =
          some (.request j (r.map (redirect i j other))) := if_pos rfl
        refine ⟨u', b ++ bs, ?_, h', ?_⟩
        · rw [List.filterMap_cons_some halone, run?, hstep']
          change (u₁.run? F _ >>= _) = _
          rw [hrun']
          rfl
        · rw [answersOf_append, answersOf_append, hb, hbs]
      · obtain ⟨h₁, ha⟩ := h.pass hl hstep
        obtain ⟨u', bs, hrun', h', hbs⟩ := ih h₁ (hrest' fun _ => id) hrest
        have halone : Step.alone i j other (.request l r : Step δ α) = none := if_neg hl
        refine ⟨u', bs, ?_, h', ?_⟩
        · rw [List.filterMap_cons_none halone]
          exact hrun'
        · rw [answersOf_append, ha, hbs]
          rfl

end Runs

section Isolation

/-- Programs that show the same, have variables of the same names at the same positions, are
assembled to the same problem and are solved to the same outcome. -/
structure ShowsSame (F : Factorizations α) (p q : Program α) : Prop where
  appearance_eq : q.appearance = p.appearance
  numVars_eq : q.numVars = p.numVars
  positions_eq : ∀ (l : ℕ) (v v' : Variable), p.vars[l]? = some v → q.vars[l]? = some v' →
    v'.name = v.name ∧ (p.index v).map Fin.val = .ok l ∧ (q.index v').map Fin.val = .ok l
  assemble_eq : q.assemble = p.assemble
  solveOutcome_eq : ∀ checks, q.solveOutcome F checks = p.solveOutcome F checks

/-- A lookup of a variable, or a binding to it that fails for no other reason, is refused because
the variable is foreign, and changes nothing. -/
structure Refuses (δ : Type) [ArraySource δ α] (F : Factorizations α) (w : Workspace α) (i : ℕ)
    (v : Variable) : Prop where
  index_eq : w.respond F i (.index v : Request δ α Variable) =
    (w, ⟨[], .error (.foreignVariable v)⟩)
  solution_eq : w.respond F i (.solution v : Request δ α Variable) =
    (w, ⟨[], .error (.foreignVariable v)⟩)
  solutions_eq : ∀ vs, v ∈ vs → ∃ v' ∈ vs,
    w.respond F i (.solutions vs : Request δ α Variable) = (w, ⟨[], .error (.foreignVariable v')⟩)
  add_eq : ∀ (spec : EvaluatorSpec δ α) (e : Evaluator α) (vs : List Variable),
    Evaluator.read spec = .ok e → (vs.length : ℤ) = e.numVars → v ∈ vs → ∃ v' ∈ vs,
      w.respond F i (.add spec vs) = (w, ⟨[], .error (.foreignVariable v')⟩)

variable {F : Factorizations α}

theorem refuses_of_foreign (hp : w.programs[i]? = some p) {v : Variable}
    (h : p.index v = .error (.foreignVariable v)) : w.Refuses δ F i v := by
  constructor
  · simp only [respond, program_eq hp]
    change (w, Logged.ofExcept (((p.index v).map Fin.val).map Reply.position)) = _
    rw [h]
    rfl
  · simp only [respond, program_eq hp]
    change (w, Logged.ofExcept ((p.index v >>= fun l => p.valueAt l).map Reply.value)) = _
    rw [h]
    rfl
  · intro vs hv
    obtain ⟨v', hmem, hv'⟩ := Program.exists_mapM_index_eq_error hv h
    refine ⟨v', hmem, ?_⟩
    simp only [respond, program_eq hp]
    change (w, Logged.ofExcept ((vs.mapM p.index >>= fun is => is.mapM fun l => p.valueAt l.val).map
      Reply.values)) = _
    rw [hv']
    rfl
  · intro spec e vs hread hlength hv
    obtain ⟨v', hmem, hv'⟩ := Program.exists_mapM_index_eq_error hv h
    refine ⟨v', hmem, ?_⟩
    have haccept : p.acceptSpec spec vs = .error (.foreignVariable v') := by
      rw [Program.acceptSpec_of_read hread, Program.accept_of_made (b := ⟨e, vs, hlength⟩)
        (dif_pos hlength), checkFound_of_error hv']
      rfl
    simp only [respond, answer, perform_eq hp, Program.perform_add_of_error (F := F) haccept,
      setIfInBounds_self hp]
    rfl

/-- Programs do not interfere. In a run of steps on any number of programs, in any order, take the
own steps of one program, and carry them out alone on a program without variables, after any other
run: with any variables of other programs in place of foreign ones, the answers are the same, and so
is all that the program shows in the end. And wherever the programs have got to, each refuses the
variables of the others. -/
theorem run_isolated {steps before : List (Step δ α)} {w u : Workspace α}
    {answers earlier : List (ℕ × Logged α (Reply α))}
    (hw : initial.run? F steps = some (w, answers)) (hu : initial.run? F before = some (u, earlier))
    (hp : w.programs[i]? = some p) (hj : u.programs[j]? = some Program.empty)
    (other : VariableRef → VariableRef)
    (hother : ∀ step ∈ steps, ∀ x ∈ step.foreignRefs i, u.Elsewhere j (other x)) :
    (∃ u' alone q, u.run? F (steps.filterMap (Step.alone i j other)) = some (u', alone) ∧
      u'.programs[j]? = some q ∧ ShowsSame F p q ∧ answersOf j alone = answersOf i answers) ∧
    ∀ (i' : ℕ) (p' : Program α), i' ≠ i → w.programs[i']? = some p' →
      ∀ v ∈ p'.vars, w.Refuses δ F i v := by
  have hfirst : (initial : Workspace α).programs[i]?.getD Program.empty = Program.empty := by
    cases i with
    | zero => rfl
    | succ i => rfl
  have hstart : Mirrors initial i u j :=
    ⟨apart_initial, apart_initial.run hu, Program.empty, hj, by rw [hfirst]⟩
  obtain ⟨u', alone, hrun, hend, hanswers⟩ := hstart.run hother hw
  obtain ⟨q, hq, happearance⟩ := hend.appearance_eq
  rw [hp] at happearance
  have hpc := hend.apart.consistent hp
  have hqc := hend.apart_alone.consistent hq
  constructor
  · refine ⟨u', alone, q, hrun, hq, ⟨happearance, Program.numVars_eq_of_appearance happearance,
      fun l v v' hv hv' => ⟨Program.name_eq_of_appearance happearance hv hv', hpc.map_index hv,
        hqc.map_index hv'⟩, hpc.closed.assemble_eq hqc.closed happearance,
      hpc.closed.solveOutcome_eq hqc.closed happearance F⟩, hanswers⟩
  · intro i' p' hne hp' v hv
    exact refuses_of_foreign hp (hend.apart.index_foreign hne hp hp' hv)

/-- A request for new variables. -/
def create (count : ℤ) (name : String) : Request (NDArray ℝ) ℝ VariableRef :=
  .perform (.newVariables (.number count) name) fun _ _ h => nomatch h

/-- A request for a cost on one variable that is zero everywhere. -/
noncomputable def addZeroCost (x : VariableRef) : Request (NDArray ℝ) ℝ VariableRef :=
  .add (.genericCost (.ok fun _ => .ok 0) (.ok 1)) [x]

/-- Two programs get a variable each. The first is asked for the value of the variable of the
second and for a cost on it, and then for those of its own. -/
noncomputable def meddling : List (Step (NDArray ℝ) ℝ) :=
  [.newProgram, .request 0 (create 1 "x"), .request 1 (create 1 "y"),
    .request 0 (.solution ⟨1, 0⟩), .request 0 (addZeroCost ⟨1, 0⟩),
    .request 0 (addZeroCost ⟨0, 0⟩), .request 0 (.solution ⟨0, 0⟩)]

/-- The first program does the same as the second of two programs, with the last of three variables
of the other one in place of the foreign variable. -/
theorem meddling_isolated : ∃ (w u u' : Workspace ℝ) (p q : Program ℝ) (v : Variable)
    (answers earlier alone : List (ℕ × Logged ℝ (Reply ℝ))),
    initial.run? Factorizations.standard meddling = some (w, answers) ∧
      initial.run? Factorizations.standard [.newProgram, .request 0 (create 3 "z")] =
        some (u, earlier) ∧
      u.run? Factorizations.standard [.request 1 (create 1 "x"), .request 1 (.solution ⟨0, 2⟩),
        .request 1 (addZeroCost ⟨0, 2⟩), .request 1 (addZeroCost ⟨1, 0⟩),
        .request 1 (.solution ⟨1, 0⟩)] = some (u', alone) ∧
      w.programs[0]? = some p ∧ u'.programs[1]? = some q ∧
      ShowsSame Factorizations.standard p q ∧ answersOf 1 alone = answersOf 0 answers ∧
      w.deref ⟨1, 0⟩ = some v ∧ w.Refuses (NDArray ℝ) Factorizations.standard 0 v := by
  obtain ⟨w, answers, p, p', v, hw, hp, hp', hv⟩ : ∃ (w : Workspace ℝ) (answers : _)
      (p p' : Program ℝ) (v : Variable),
      initial.run? Factorizations.standard meddling = some (w, answers) ∧
      w.programs[0]? = some p ∧ w.programs[1]? = some p' ∧ p'.vars[0]? = some v := by
    refine ⟨?_, ?_, ?_, ?_, ?_, ?_, ?_, ?_, ?_⟩
    rotate_left 5
    all_goals with_unfolding_all rfl
  obtain ⟨u, earlier, hu, hj, hother⟩ : ∃ (u : Workspace ℝ) (earlier : _),
      initial.run? Factorizations.standard
        ([.newProgram, .request 0 (create 3 "z")] : List (Step (NDArray ℝ) ℝ)) =
          some (u, earlier) ∧
      u.programs[1]? = some Program.empty ∧ (u.deref ⟨0, 2⟩).isSome := by
    refine ⟨?_, ?_, ?_, ?_, ?_⟩
    rotate_left 2
    all_goals with_unfolding_all rfl
  obtain ⟨⟨u', alone, q, hrun, hq, hsame, hanswers⟩, hrefuses⟩ :=
    run_isolated hw hu hp hj (fun _ => ⟨0, 2⟩) fun _ _ _ _ => ⟨by decide, hother⟩
  exact ⟨w, u, u', p, q, v, answers, earlier, alone, hw, hu, hrun, hp, hq, hsame, hanswers,
    deref_eq_some_iff.mpr ⟨p', hp', hv⟩,
    hrefuses 1 p' (by decide) hp' v (Array.mem_of_getElem? hv)⟩

end Isolation

end Workspace

end QuadraticProgram
