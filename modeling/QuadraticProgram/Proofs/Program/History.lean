import QuadraticProgram.Proofs.Program.Invariant

/-! # Histories of programs

What has happened to a program is a list of operations, the latest first. Variables and bindings of
earlier times stay where they were, in front of all newer ones.
-/

namespace QuadraticProgram

variable {δ α : Type} [Scalar α] [ArraySource δ α]

/-- The operations on a program, the latest first. Each comes with how many variable numbers were
given out elsewhere right before it. -/
abbrev History (δ α : Type) := List (ℕ × ProgramOp δ α)

namespace History

/-- The program and the next free variable number after a history. -/
def after (F : Factorizations α) (start : Program α × ℕ) : History δ α → Program α × ℕ
  | [] => start
  | (gap, op) :: earlier =>
    let t := (after F start earlier).1.perform F ((after F start earlier).2 + gap) op
    (t.program, t.nextId)

variable {F : Factorizations α} {start : Program α × ℕ} {p : Program α} {k : ℕ}

/-- Operations can build what histories of the empty program lead to. -/
theorem reachable_iff_exists_after : p.Reachable δ F k ↔
    ∃ (k₀ : ℕ) (h : History δ α), after F (Program.empty, k₀) h = (p, k) := by
  constructor
  · intro hp
    induction hp with
    | empty k => exact ⟨k, [], rfl⟩
    | @perform p k k' _ hk op ih =>
      obtain ⟨k₀, h, hh⟩ := ih
      refine ⟨k₀, (k' - k, op) :: h, ?_⟩
      rw [after, hh]
      dsimp only
      rw [Nat.add_sub_cancel' hk]
  · rintro ⟨k₀, h, hh⟩
    induction h generalizing p k with
    | nil =>
      cases hh
      exact .empty k₀
    | cons step earlier ih =>
      cases hh
      exact (ih rfl).perform (Nat.le_add_right _ _) step.2

theorem consistent_after (k : ℕ) (h : History δ α) :
    (after F (Program.empty, k) h).1.Consistent (after F (Program.empty, k) h).2 :=
  (reachable_iff_exists_after.mpr ⟨k, h, rfl⟩).consistent

end History

namespace Program

variable (F : Factorizations α)

/-- An operation adds bindings behind those of the program. -/
theorem exists_perform_bindings (p : Program α) (k : ℕ) (op : ProgramOp δ α) :
    ∃ newer, (p.perform F k op).program.bindings = p.bindings ++ newer := by
  by_cases hop : ∃ name, op = .newVariables (.truth true) name
  · obtain ⟨name, rfl⟩ := hop
    exact ⟨#[], Array.append_empty.symm⟩
  · have hchange := perform_change (p := p) (k := k) F op fun name h => hop ⟨name, h⟩
    generalize (p.perform F k op).program = p' at hchange ⊢
    generalize (p.perform F k op).nextId = k' at hchange
    cases hchange with
    | bound b _ => exact ⟨#[b], Array.push_eq_append⟩
    | _ => exact ⟨#[], Array.append_empty.symm⟩

end Program

namespace History

variable (F : Factorizations α) (start : Program α × ℕ)

theorem exists_after_bindings (h : History δ α) :
    ∃ newer, (after F start h).1.bindings = start.1.bindings ++ newer := by
  induction h with
  | nil => exact ⟨#[], Array.append_empty.symm⟩
  | cons step earlier ih =>
    obtain ⟨older, holder⟩ := ih
    obtain ⟨newer, hnewer⟩ := (after F start earlier).1.exists_perform_bindings F
      ((after F start earlier).2 + step.1) step.2
    refine ⟨older ++ newer, ?_⟩
    rw [← Array.append_assoc, ← holder]
    exact hnewer

end History

end QuadraticProgram
