import Mathlib.Data.List.Forall2
import QuadraticProgram.Solver.Event

/-! # Runs that report events

A run made of two parts has a result if both parts have, and reports what both report. A part that
comes after a failure does not run.
-/

namespace QuadraticProgram

variable {ε α β γ : Type}

theorem bind_eq_ok {x : Except ε β} {f : β → Except ε γ} {c : γ} (h : x >>= f = .ok c) :
    ∃ b, x = .ok b ∧ f b = .ok c := by
  cases x with
  | error e => cases h
  | ok b => exact ⟨b, rfl, h⟩

theorem map_eq_ok {x : Except ε β} {f : β → γ} {c : γ} (h : x.map f = .ok c) :
    ∃ b, x = .ok b ∧ f b = c := by
  cases x with
  | error e => cases h
  | ok b => exact ⟨b, rfl, Except.ok.inj h⟩

/-- A list is mapped if each of its elements is. -/
theorem mapM_eq_ok_iff {f : β → Except ε γ} {xs : List β} {ys : List γ} :
    xs.mapM f = .ok ys ↔ List.Forall₂ (fun x y => f x = .ok y) xs ys := by
  induction xs generalizing ys with
  | nil =>
    constructor
    · intro h
      cases h
      exact .nil
    · intro h
      cases h
      rfl
  | cons x xs ih =>
    rw [List.mapM_cons]
    constructor
    · intro h
      obtain ⟨y, hy, h⟩ := bind_eq_ok h
      obtain ⟨zs, hzs, h⟩ := bind_eq_ok h
      cases h
      exact .cons hy (ih.mp hzs)
    · intro h
      cases h with
      | cons hy hys =>
        rw [hy]
        change (xs.mapM f >>= fun ys => pure (_ :: ys)) = _
        rw [ih.mpr hys]
        rfl

theorem exists_mapM_eq_ok {f : β → Except ε γ} {xs : List β} (h : ∀ x ∈ xs, ∃ y, f x = .ok y) :
    ∃ ys, xs.mapM f = .ok ys := by
  induction xs with
  | nil => exact ⟨[], rfl⟩
  | cons x xs ih =>
    obtain ⟨y, hy⟩ := h x List.mem_cons_self
    obtain ⟨ys, hys⟩ := ih fun x hx => h x (List.mem_cons_of_mem _ hx)
    exact ⟨y :: ys, mapM_eq_ok_iff.mpr (.cons hy (mapM_eq_ok_iff.mp hys))⟩

theorem exists_of_mem_left {R : β → γ → Prop} {xs : List β} {ys : List γ}
    (h : List.Forall₂ R xs ys) {x : β} (hx : x ∈ xs) : ∃ y ∈ ys, R x y := by
  induction h with
  | nil => cases hx
  | cons hxy _ ih =>
    cases hx with
    | head => exact ⟨_, List.mem_cons_self, hxy⟩
    | tail _ hx =>
      obtain ⟨y, hy, hR⟩ := ih hx
      exact ⟨y, List.mem_cons_of_mem _ hy, hR⟩

theorem exists_of_mem_right {R : β → γ → Prop} {xs : List β} {ys : List γ}
    (h : List.Forall₂ R xs ys) {y : γ} (hy : y ∈ ys) : ∃ x ∈ xs, R x y :=
  exists_of_mem_left h.flip hy

/-- Lists that match element by element have the same images. -/
theorem map_eq_of_forall₂ {β γ η : Type*} {R : β → γ → Prop} {f : β → η} {g : γ → η}
    (hfg : ∀ x y, R x y → f x = g y) {xs : List β} {ys : List γ} (h : List.Forall₂ R xs ys) :
    xs.map f = ys.map g := by
  rw [← List.forall₂_eq_eq_eq, List.forall₂_map_left_iff, List.forall₂_map_right_iff]
  exact h.imp fun x y => hfg x y

namespace Logged

theorem result_bind (r : Logged α β) (f : β → Logged α γ) :
    (r >>= f).result = (r.result >>= fun b => (f b).result) := by
  cases h : r.result with
  | error e => rw [bind_of_error h]; rfl
  | ok b => rw [bind_of_ok h]; rfl

theorem result_bind_eq_ok {r : Logged α β} {f : β → Logged α γ} {c : γ}
    (h : (r >>= f).result = .ok c) : ∃ b, r.result = .ok b ∧ (f b).result = .ok c :=
  bind_eq_ok ((result_bind r f).symm.trans h)

theorem report_bind (e : Event α) (f : Unit → Logged α β) :
    report e >>= f = ⟨e :: (f ()).events, (f ()).result⟩ := rfl

theorem ofExcept_bind_pure (r : Except (Fault α) β) (f : β → γ) :
    (ofExcept r >>= fun b => pure (f b)) = ⟨[], r.map f⟩ := by
  cases r <;> rfl

/-- A run that reports no warning. -/
def Quiet (r : Logged α β) : Prop := ∀ e ∈ r.events, e.severity ≠ .warning

theorem quiet_pure (b : β) : (pure b : Logged α β).Quiet := by
  intro e he
  cases he

theorem quiet_ofExcept (r : Except (Fault α) β) : (ofExcept r).Quiet := by
  intro e he
  cases he

theorem quiet_report {e : Event α} (h : e.severity ≠ .warning) : (report e).Quiet := by
  intro e' he'
  cases he' with
  | head => exact h
  | tail _ hnil => cases hnil

/-- Quiet runs make a quiet run. -/
theorem Quiet.bind {r : Logged α β} {f : β → Logged α γ} (hr : r.Quiet)
    (hf : ∀ b, r.result = .ok b → (f b).Quiet) : (r >>= f).Quiet := by
  intro e he
  cases h : r.result with
  | error fault =>
    rw [bind_of_error h] at he
    exact hr e he
  | ok b =>
    rw [bind_of_ok h] at he
    rcases List.mem_append.mp he with he | he
    · exact hr e he
    · exact hf b h e he

end Logged

end QuadraticProgram
