import QuadraticProgram.Proofs.Program.Atomicity
import QuadraticProgram.Proofs.Program.Invariant

/-! # Requests to several programs

Requests to several programs are carried out one after the other, in any order. They speak of
variables by the numbers of their programs, so of own and of foreign ones. The programs share the
supply of variable numbers, and however the requests are interleaved, the variables of different
programs never have the same number.
-/

namespace QuadraticProgram

variable {δ α ν ν' : Type}

section Requests

/-- A variable by the number of its program and its place there. -/
structure VariableRef where
  program : ℕ
  place : ℕ
  deriving DecidableEq, Repr

/-- What can be asked of a program. Only additions and lookups speak of variables. -/
inductive Request (δ α ν : Type)
  | perform (op : ProgramOp δ α) (h : ∀ spec vs, op ≠ .add spec vs)
  | add (spec : EvaluatorSpec δ α) (vs : List ν)
  | index (v : ν)
  | solution (v : ν)
  | solutions (vs : List ν)

namespace Request

def vars : Request δ α ν → List ν
  | perform _ _ => []
  | add _ vs => vs
  | index v => [v]
  | solution v => [v]
  | solutions vs => vs

/-- The same request over other variables. -/
def map (f : ν → ν') : Request δ α ν → Request δ α ν'
  | perform op h => perform op h
  | add spec vs => add spec (vs.map f)
  | index v => index (f v)
  | solution v => solution (f v)
  | solutions vs => solutions (vs.map f)

/-- The request over what its variables stand for, if each stands for something. -/
def resolve (f : ν → Option ν') : Request δ α ν → Option (Request δ α ν')
  | perform op h => some (perform op h)
  | add spec vs => do some (add spec (← vs.mapM f))
  | index v => do some (index (← f v))
  | solution v => do some (solution (← f v))
  | solutions vs => do some (solutions (← vs.mapM f))

/-- Requests that differ in their variables only, and these are related. -/
inductive Related (R : ν → ν' → Prop) : Request δ α ν → Request δ α ν' → Prop
  | perform (op : ProgramOp δ α) (h) : Related R (.perform op h) (.perform op h)
  | add (spec : EvaluatorSpec δ α) {vs vs'} (h : List.Forall₂ R vs vs') :
    Related R (.add spec vs) (.add spec vs')
  | index {v v'} (h : R v v') : Related R (.index v) (.index v')
  | solution {v v'} (h : R v v') : Related R (.solution v) (.solution v')
  | solutions {vs vs'} (h : List.Forall₂ R vs vs') : Related R (.solutions vs) (.solutions vs')

variable {η : Type} {R : ν → ν' → Prop} {f : η → Option ν} {g : η → Option ν'}

theorem mapM_related {xs : List η} {vs : List ν}
    (h : ∀ x ∈ xs, ∀ v, f x = some v → ∃ v', g x = some v' ∧ R v v')
    (hvs : xs.mapM f = some vs) : ∃ vs', xs.mapM g = some vs' ∧ List.Forall₂ R vs vs' := by
  induction xs generalizing vs with
  | nil =>
    cases hvs
    exact ⟨[], rfl, .nil⟩
  | cons x xs ih =>
    rw [List.mapM_cons] at hvs ⊢
    obtain ⟨v, hv, hvs⟩ := Option.bind_eq_some_iff.mp hvs
    obtain ⟨ws, hws, hvs⟩ := Option.bind_eq_some_iff.mp hvs
    cases hvs
    obtain ⟨v', hv', hR⟩ := h x List.mem_cons_self v hv
    obtain ⟨ws', hws', hRs⟩ := ih (fun y hy => h y (List.mem_cons_of_mem _ hy)) hws
    refine ⟨v' :: ws', ?_, .cons hR hRs⟩
    rw [hv', hws']
    rfl

theorem resolve_related {r : Request δ α η} {s : Request δ α ν}
    (h : ∀ x ∈ r.vars, ∀ v, f x = some v → ∃ v', g x = some v' ∧ R v v')
    (hs : r.resolve f = some s) : ∃ s', r.resolve g = some s' ∧ s.Related R s' := by
  cases r with
  | perform op hop =>
    cases hs
    exact ⟨_, rfl, .perform op hop⟩
  | add spec xs =>
    have h' : ∀ x ∈ xs, ∀ v, f x = some v → ∃ v', g x = some v' ∧ R v v' := h
    obtain ⟨vs, hvs, hs⟩ := Option.bind_eq_some_iff.mp hs
    cases hs
    obtain ⟨vs', hvs', hR⟩ := mapM_related h' hvs
    exact ⟨.add spec vs', by rw [resolve, hvs']; rfl, .add spec hR⟩
  | index x =>
    obtain ⟨v, hv, hs⟩ := Option.bind_eq_some_iff.mp hs
    cases hs
    obtain ⟨v', hv', hR⟩ := h x List.mem_cons_self v hv
    exact ⟨.index v', by rw [resolve, hv']; rfl, .index hR⟩
  | solution x =>
    obtain ⟨v, hv, hs⟩ := Option.bind_eq_some_iff.mp hs
    cases hs
    obtain ⟨v', hv', hR⟩ := h x List.mem_cons_self v hv
    exact ⟨.solution v', by rw [resolve, hv']; rfl, .solution hR⟩
  | solutions xs =>
    have h' : ∀ x ∈ xs, ∀ v, f x = some v → ∃ v', g x = some v' ∧ R v v' := h
    obtain ⟨vs, hvs, hs⟩ := Option.bind_eq_some_iff.mp hs
    cases hs
    obtain ⟨vs', hvs', hR⟩ := mapM_related h' hvs
    exact ⟨.solutions vs', by rw [resolve, hvs']; rfl, .solutions hR⟩

theorem resolve_map (h : η → ν) (f : ν → Option ν') (r : Request δ α η) :
    (r.map h).resolve f = r.resolve (f ∘ h) := by
  cases r <;> simp only [map, resolve, List.mapM_map, Function.comp_apply]

end Request

/-- What a request is answered with. -/
inductive Reply (α : Type) [Scalar α]
  | performed (a : ProgramAnswer α)
  | position (i : ℕ)
  | value (x : Option α)
  | values (xs : List (Option α))

end Requests

namespace Workspace

variable [Scalar α] {w : Workspace α} {i : ℕ} {p : Program α}

/-- The variable that is referred to, if there is one. -/
def deref (w : Workspace α) (r : VariableRef) : Option Variable := do
  (← w.programs[r.program]?).vars[r.place]?

variable [ArraySource δ α]

/-- Carry out an operation, and answer as to a request. -/
def answer (F : Factorizations α) (w : Workspace α) (i : ℕ) (op : ProgramOp δ α) :
    Workspace α × Logged α (Reply α) :=
  let (w, run) := w.perform F i op
  (w, ⟨run.events, run.result.map .performed⟩)

/-- Carry out a request to one program. Lookups change nothing. -/
def respond (F : Factorizations α) (w : Workspace α) (i : ℕ) :
    Request δ α Variable → Workspace α × Logged α (Reply α)
  | .perform op _ => w.answer F i op
  | .add spec vs => w.answer F i (.add spec vs)
  | .index v => (w, Logged.ofExcept do
    let p ← w.program i
    ((p.index v).map Fin.val).map .position)
  | .solution v => (w, Logged.ofExcept do
    let p ← w.program i
    (p.solution v).map .value)
  | .solutions vs => (w, Logged.ofExcept do
    let p ← w.program i
    (p.solutions vs).map .values)

/-- What happens side by side: there is a new program, or a request to the program of a number. -/
inductive Step (δ α : Type)
  | newProgram
  | request (i : ℕ) (r : Request δ α VariableRef)

/-- Carry out a step, if its program and its variables are there. Each answer comes with the number
of the program. -/
def step? (F : Factorizations α) (w : Workspace α) :
    Step δ α → Option (Workspace α × List (ℕ × Logged α (Reply α)))
  | .newProgram => some (w.newProgram, [])
  | .request i r => do
    let _ ← w.programs[i]?
    let s ← r.resolve w.deref
    some ((w.respond F i s).1, [(i, (w.respond F i s).2)])

/-- Carry out steps one after the other. -/
def run? (F : Factorizations α) (w : Workspace α) :
    List (Step δ α) → Option (Workspace α × List (ℕ × Logged α (Reply α)))
  | [] => some (w, [])
  | step :: steps => do
    let (w, answered) ← w.step? F step
    let (w, answers) ← run? F w steps
    some (w, answered ++ answers)

section Apart

/-- The numbers of the variables of different programs differ, and are all given out. -/
structure Apart (w : Workspace α) : Prop where
  consistent : ∀ {i : ℕ} {p : Program α}, w.programs[i]? = some p → p.Consistent w.nextId
  disjoint : ∀ {i i' : ℕ} {p p' : Program α}, i ≠ i' → w.programs[i]? = some p →
    w.programs[i']? = some p' → ∀ v ∈ p.vars, ∀ v' ∈ p'.vars, v.id ≠ v'.id

/-- A request is an operation, or it changes nothing. -/
theorem respond_cases (F : Factorizations α) (w : Workspace α) (i : ℕ) (s : Request δ α Variable) :
    (w.respond F i s).1 = w ∨ ∃ op : ProgramOp δ α, (w.respond F i s).1 = (w.perform F i op).1 := by
  cases s with
  | perform op h => exact .inr ⟨op, rfl⟩
  | add spec vs => exact .inr ⟨.add spec vs, rfl⟩
  | index v => exact .inl rfl
  | solution v => exact .inl rfl
  | solutions vs => exact .inl rfl

theorem programs_perform (hp : w.programs[i]? = some p) (F : Factorizations α)
    (op : ProgramOp δ α) (l : ℕ) : (w.perform F i op).1.programs[l]? =
      if i = l then some (p.perform F w.nextId op).program else w.programs[l]? := by
  obtain ⟨hlt, -⟩ := Array.getElem?_eq_some_iff.mp hp
  rw [perform_eq hp, Array.getElem?_setIfInBounds, if_pos hlt]

theorem programs_respond_of_ne (hp : w.programs[i]? = some p) (F : Factorizations α)
    (s : Request δ α Variable) {l : ℕ} (hl : l ≠ i) :
    (w.respond F i s).1.programs[l]? = w.programs[l]? := by
  rcases w.respond_cases F i s with h | ⟨op, h⟩
  · rw [h]
  · rw [h, programs_perform hp, if_neg hl.symm]

/-- A program without variables has none in common with the others. -/
theorem Apart.newProgram (h : w.Apart) : w.newProgram.Apart := by
  have hprograms : ∀ {i : ℕ} {p : Program α}, w.newProgram.programs[i]? = some p →
      w.programs[i]? = some p ∨ p = Program.empty := by
    intro i p hp
    rw [Workspace.newProgram, Array.getElem?_push] at hp
    split at hp
    · exact .inr (Option.some_inj.mp hp).symm
    · exact .inl hp
  constructor
  · intro i p hp
    rcases hprograms hp with hp | rfl
    · exact h.consistent hp
    · exact Program.consistent_empty _
  · intro i i' p p' hne hp hp' v hv v' hv'
    rcases hprograms hp with hp | rfl
    · rcases hprograms hp' with hp' | rfl
      · exact h.disjoint hne hp hp' v hv v' hv'
      · exact absurd hv' (Array.not_mem_empty v')
    · exact absurd hv (Array.not_mem_empty v)

theorem apart_initial : (initial : Workspace α).Apart :=
  Apart.newProgram (w := ⟨#[], 0⟩) ⟨nofun, nofun⟩

/-- New variables have numbers of their own. -/
theorem Apart.perform (h : w.Apart) (hp : w.programs[i]? = some p) (F : Factorizations α)
    (op : ProgramOp δ α) : (w.perform F i op).1.Apart := by
  obtain ⟨count, name, hvars, hnext⟩ := p.exists_perform_vars F w.nextId op
  have hnew : ∀ {l r}, l ≠ i → w.programs[l]? = some r →
      ∀ v ∈ (p.perform F w.nextId op).program.vars, ∀ v' ∈ r.vars, v.id ≠ v'.id := by
    intro l r hl hr v hv v' hv'
    rw [hvars, Array.mem_append] at hv
    rcases hv with hv | hv
    · exact h.disjoint hl.symm hp hr v hv v' hv'
    · have hfresh := (Program.id_of_mem_freshVariables hv).1
      have hold := (h.consistent hr).id_lt v' hv'
      omega
  have hnextId : (w.perform F i op).1.nextId = (p.perform F w.nextId op).nextId := by
    rw [perform_eq hp]
  constructor
  · intro l r hr
    rw [programs_perform hp] at hr
    rw [hnextId]
    split at hr
    · cases hr
      exact (h.consistent hp).perform F op
    · exact (h.consistent hr).mono (by omega)
  · intro l l' r r' hne hr hr'
    rw [programs_perform hp] at hr hr'
    split at hr
    · subst l
      cases hr
      rw [if_neg hne] at hr'
      exact hnew hne.symm hr'
    · split at hr'
      · subst l'
        cases hr'
        exact fun v hv v' hv' => (hnew hne hr v' hv' v hv).symm
      · exact h.disjoint hne hr hr'

theorem Apart.respond (h : w.Apart) (hp : w.programs[i]? = some p) (F : Factorizations α)
    (s : Request δ α Variable) : (w.respond F i s).1.Apart := by
  rcases w.respond_cases F i s with hs | ⟨op, hs⟩
  · rwa [hs]
  · rw [hs]
    exact h.perform hp F op

variable {F : Factorizations α} {w' : Workspace α} {a answers : List (ℕ × Logged α (Reply α))}
  {steps : List (Step δ α)}

theorem deref_eq_some_iff {x : VariableRef} {v : Variable} : w.deref x = some v ↔
    ∃ p, w.programs[x.program]? = some p ∧ p.vars[x.place]? = some v :=
  Option.bind_eq_some_iff

/-- Carrying out a request finds its program and its variables. -/
theorem step?_request_eq_some {r : Request δ α VariableRef}
    (h : w.step? F (.request i r) = some (w', a)) : ∃ p s, w.programs[i]? = some p ∧
      r.resolve w.deref = some s ∧ w' = (w.respond F i s).1 ∧ a = [(i, (w.respond F i s).2)] := by
  obtain ⟨p, hp, h⟩ := Option.bind_eq_some_iff.mp h
  obtain ⟨s, hs, h⟩ := Option.bind_eq_some_iff.mp h
  cases h
  exact ⟨p, s, hp, hs, rfl, rfl⟩

theorem run?_cons_eq_some {step : Step δ α} (h : w.run? F (step :: steps) = some (w', answers)) :
    ∃ w₁ a as, w.step? F step = some (w₁, a) ∧ w₁.run? F steps = some (w', as) ∧
      answers = a ++ as := by
  obtain ⟨⟨w₁, a⟩, hstep, h⟩ := Option.bind_eq_some_iff.mp h
  obtain ⟨⟨w₂, as⟩, hrun, h⟩ := Option.bind_eq_some_iff.mp h
  cases h
  exact ⟨w₁, a, as, hstep, hrun, rfl⟩

theorem Apart.step (h : w.Apart) {step : Step δ α} (hstep : w.step? F step = some (w', a)) :
    w'.Apart := by
  cases step with
  | newProgram =>
    cases hstep
    exact h.newProgram
  | request l r =>
    obtain ⟨p, s, hp, -, rfl, -⟩ := step?_request_eq_some hstep
    exact h.respond hp F s

/-- However steps are interleaved, no two programs get variables of the same number. -/
theorem Apart.run (h : w.Apart) (hrun : w.run? F steps = some (w', answers)) : w'.Apart := by
  induction steps generalizing w answers with
  | nil =>
    cases hrun
    exact h
  | cons step steps ih =>
    obtain ⟨w₁, a, as, hstep, hrest, -⟩ := run?_cons_eq_some hrun
    exact ih (h.step hstep) hrest

end Apart

end Workspace

end QuadraticProgram
