import QuadraticProgram.Proofs.Program.Operations

/-! # Programs that operations can build

Bindings are only added, and only to variables that the program has by then; variables are only
added. So every variable of a binding is found in every program that operations can build.
-/

namespace QuadraticProgram

namespace Program

variable {δ α : Type} [Scalar α] {p p' : Program α}

theorem index_eq_ok_iff (p : Program α) (v : Variable) :
    (∃ i, p.index v = .ok i) ↔ ∃ w ∈ p.vars, w.id = v.id := by
  unfold index
  cases h : p.vars.findFinIdx? fun w => w.id == v.id with
  | none =>
    rw [Array.findFinIdx?_eq_none_iff] at h
    constructor
    · rintro ⟨i, hi⟩
      cases hi
    · rintro ⟨w, hw, hid⟩
      exact absurd (beq_iff_eq.mpr hid) (h w hw)
  | some i =>
    rw [Array.findFinIdx?_eq_some_iff] at h
    constructor
    · intro _
      exact ⟨p.vars[i], Array.getElem_mem i.isLt, beq_iff_eq.mp h.1⟩
    · intro _
      exact ⟨i, rfl⟩

/-- Every variable of every binding is among the variables of the program. -/
def Closed (p : Program α) : Prop :=
  ∀ b ∈ p.bindings, ∀ v ∈ b.vars, ∃ w ∈ p.vars, w.id = v.id

theorem Closed.appendVars (h : p.Closed) (fresh : Array Variable) :
    (p.appendVars fresh).Closed := by
  intro b hb v hv
  obtain ⟨w, hw, hid⟩ := h b hb v hv
  exact ⟨w, Array.mem_append_left _ hw, hid⟩

/-- No change leaves a binding without its variables. -/
theorem Change.closed {k k' : Nat} (h : p.Closed) (hc : Change p k p' k') : p'.Closed := by
  cases hc with
  | none => exact h
  | grown count name => exact h.appendVars _
  | bound b hb =>
    intro b' hmem v hv
    rcases Array.mem_push.mp hmem with hmem | rfl
    · exact h b' hmem v hv
    · exact (p.index_eq_ok_iff v).mp (hb v hv)
  | stored values cost result hsize => exact h

theorem Closed.perform [ArraySource δ α] (h : p.Closed) (F : Factorizations α) (k : Nat)
    (op : ProgramOp δ α) : (p.perform F k op).program.Closed := by
  by_cases hop : ∃ name, op = .newVariables (.truth true) name
  · obtain ⟨name, rfl⟩ := hop
    exact h.appendVars _
  · exact (perform_change F op fun name hname => hop ⟨name, hname⟩).closed h

/-- The programs that operations can build, with the next free variable number. Numbers may be given
out elsewhere between two operations. -/
inductive Reachable (δ : Type) [ArraySource δ α] (F : Factorizations α) : Program α → Nat → Prop
  | empty (k : Nat) : Reachable δ F Program.empty k
  | perform {p : Program α} {k k' : Nat} (hp : Reachable δ F p k) (hk : k ≤ k')
      (op : ProgramOp δ α) :
      Reachable δ F (p.perform F k' op).program (p.perform F k' op).nextId

/-- The programs that operations can build of which none asks for a truth value's worth of
variables. -/
inductive NumericallyReachable (δ : Type) [ArraySource δ α] (F : Factorizations α) :
    Program α → Nat → Prop
  | empty (k : Nat) : NumericallyReachable δ F Program.empty k
  | perform {p : Program α} {k k' : Nat} (hp : NumericallyReachable δ F p k) (hk : k ≤ k')
      (op : ProgramOp δ α) (hop : ∀ name, op ≠ .newVariables (.truth true) name) :
      NumericallyReachable δ F (p.perform F k' op).program (p.perform F k' op).nextId

theorem NumericallyReachable.reachable [ArraySource δ α] {F : Factorizations α} {k : Nat}
    (hp : NumericallyReachable δ F p k) : Reachable δ F p k := by
  induction hp with
  | empty k => exact .empty k
  | perform hp hk op hop ih => exact ih.perform hk op

theorem Reachable.closed [ArraySource δ α] {F : Factorizations α} {k : Nat}
    (h : Reachable δ F p k) : p.Closed := by
  induction h with
  | empty k =>
    exact fun b hb => absurd hb (Array.not_mem_empty b)
  | perform hp hk op ih => exact ih.perform F _ op

/-- Variables that a program has can be bound to whatever can be read. -/
theorem perform_add [ArraySource δ α] (F : Factorizations α) (k : Nat)
    {spec : EvaluatorSpec δ α} (b : Binding α) (hread : Evaluator.read spec = .ok b.evaluator)
    (hvars : ∀ v ∈ b.vars, ∃ w ∈ p.vars, w.id = v.id) :
    p.perform F k (.add spec b.vars : ProgramOp δ α) =
      ⟨{ p with bindings := p.bindings.push b }, k, [], .ok (.binding b)⟩ := by
  have hfound : checkFound p.index b.vars = .ok () := checkFound_eq_ok_iff.mpr
    (exists_mapM_eq_ok fun v hv => (p.index_eq_ok_iff v).mpr (hvars v hv))
  have haccept : p.acceptSpec spec b.vars = .ok b := by
    rw [acceptSpec_of_read hread, accept_of_made (dif_pos b.length_eq), hfound]
    rfl
  exact perform_add_of_ok haccept k

theorem Reachable.add [ArraySource δ α] {F : Factorizations α} {k : Nat}
    (hp : Reachable δ F p k) {spec : EvaluatorSpec δ α} (b : Binding α)
    (hread : Evaluator.read spec = .ok b.evaluator)
    (hvars : ∀ v ∈ b.vars, ∃ w ∈ p.vars, w.id = v.id) :
    Reachable δ F { p with bindings := p.bindings.push b } k := by
  have hnext := hp.perform (Nat.le_refl k) (.add spec b.vars)
  rwa [perform_add F k b hread hvars] at hnext

theorem NumericallyReachable.add [ArraySource δ α] {F : Factorizations α} {k : Nat}
    (hp : NumericallyReachable δ F p k) {spec : EvaluatorSpec δ α} (b : Binding α)
    (hread : Evaluator.read spec = .ok b.evaluator)
    (hvars : ∀ v ∈ b.vars, ∃ w ∈ p.vars, w.id = v.id) :
    NumericallyReachable δ F { p with bindings := p.bindings.push b } k := by
  have hnext := hp.perform (Nat.le_refl k) (.add spec b.vars) fun _ => nofun
  rwa [perform_add F k b hread hvars] at hnext

theorem locate_eq {vs : List Variable} {places : List (Fin p.numVars)}
    (h : List.Forall₂ (fun v i => p.index v = .ok i) vs places) {k : Nat}
    (hk : places.toArray.size = k) : p.locate vs k = .ok ⟨⟨places.toArray, hk⟩⟩ := by
  rw [locate, locateBy, mapM_eq_ok_iff.mpr h]
  exact dif_pos hk

/-- The variables of a binding are located. -/
theorem Closed.exists_locate (h : p.Closed) {b : Binding α} (hb : b ∈ p.bindings) {k : Nat}
    (hk : b.vars.length = k) : ∃ place, p.locate b.vars k = .ok place := by
  obtain ⟨places, hplaces⟩ := exists_mapM_eq_ok fun v hv =>
    (p.index_eq_ok_iff v).mpr (h b hb v hv)
  have hindex := mapM_eq_ok_iff.mp hplaces
  have hsize : places.toArray.size = k := by
    rw [List.size_toArray, ← hindex.length_eq, hk]
  exact ⟨_, locate_eq hindex hsize⟩

end Program

end QuadraticProgram
