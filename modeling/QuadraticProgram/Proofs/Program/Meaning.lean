import QuadraticProgram.Proofs.Program.Assembly
import QuadraticProgram.Proofs.Program.Reachable

/-! # What a program asks for

A point of all variables gives every binding the values of its variables, in the order in which the
binding names them. The assembled problem asks for the same as the bindings one by one.
-/

namespace QuadraticProgram

section Evaluation

variable {α : Type} [Scalar α] (p : Program α)

/-- The value of a binding at a point of all variables. -/
def Program.evalAt (b : Binding α) (z : Vec α p.numVars) : Except (Fault α) (Value α) := do
  let place ← p.locate b.vars b.vars.length
  b.evaluator.eval ⟨b.vars.length, z.select place⟩

/-- Whether every equality has its target as its value. -/
def Program.Meets (z : Vec α p.numVars) : Prop :=
  ∀ b ∈ p.bindings, ∀ e, b.evaluator = .linearEquality e →
    p.evalAt b z = .ok (.vector ⟨e.numRows, e.target⟩)

/-- The values of the quadratic costs, in the order in which they were added. -/
def Program.costValues (z : Vec α p.numVars) : Except (Fault α) (List α) :=
  (p.bindings.toList.filter fun b => b.kind = .quadraticCost).mapM fun b => do
    match ← p.evalAt b z with
    | .number a => .ok a
    | .vector _ => .error .notSingle

omit [Scalar α] in
theorem AnyVec.ofSize_mk {k : ℕ} (v : Vec α k) : AnyVec.ofSize ⟨k, v⟩ k = .ok v := by
  rw [ofSize, dif_pos rfl]
  rfl

theorem Binding.vars_length_of_eq {b : Binding α} {k : ℕ} (h : b.evaluator.numVars = k) :
    b.vars.length = k := by
  have := b.length_eq
  omega

theorem Program.evalAt_of_length {b : Binding α} {k : ℕ} (h : b.vars.length = k)
    (z : Vec α p.numVars) :
    p.evalAt b z = p.locate b.vars k >>= fun place => b.evaluator.eval ⟨k, z.select place⟩ := by
  subst h
  rfl

theorem Program.evalAt_quadraticCost {b : Binding α} {e : QuadraticCost α}
    (h : b.evaluator = .quadraticCost e) (z : Vec α p.numVars) :
    p.evalAt b z =
      (p.locate b.vars e.numVars).map fun place => .number (e.eval (z.select place)) := by
  rw [p.evalAt_of_length (Binding.vars_length_of_eq (by rw [h]; rfl)), h]
  cases p.locate b.vars e.numVars with
  | error f => rfl
  | ok place =>
    change (AnyVec.ofSize _ _ >>= _) = _
    rw [AnyVec.ofSize_mk]
    rfl

theorem Program.evalAt_linearEquality {b : Binding α} {e : LinearEquality α}
    (h : b.evaluator = .linearEquality e) (z : Vec α p.numVars) :
    p.evalAt b z = (p.locate b.vars e.numVars).map fun place =>
      .vector ⟨e.numRows, e.eval (z.select place)⟩ := by
  rw [p.evalAt_of_length (Binding.vars_length_of_eq (by rw [h]; rfl)), h]
  cases p.locate b.vars e.numVars with
  | error f => rfl
  | ok place =>
    change (AnyVec.ofSize _ _ >>= _) = _
    rw [AnyVec.ofSize_mk]
    rfl

theorem Program.mem_quadraticCosts_iff (e : QuadraticCost α) (vs : List Variable) :
    (e, vs) ∈ p.quadraticCosts ↔
      ∃ b ∈ p.bindings, b.evaluator = .quadraticCost e ∧ b.vars = vs := by
  rw [quadraticCosts, List.mem_filterMap]
  constructor
  · rintro ⟨b, hb, h⟩
    split at h
    · rename_i hev
      cases h
      exact ⟨b, Array.mem_toList_iff.mp hb, hev, rfl⟩
    · cases h
  · rintro ⟨b, hb, hev, rfl⟩
    exact ⟨b, Array.mem_toList_iff.mpr hb, by rw [hev]⟩

theorem Program.mem_linearEqualities_iff (e : LinearEquality α) (vs : List Variable) :
    (e, vs) ∈ p.linearEqualities ↔
      ∃ b ∈ p.bindings, b.evaluator = .linearEquality e ∧ b.vars = vs := by
  rw [linearEqualities, List.mem_filterMap]
  constructor
  · rintro ⟨b, hb, h⟩
    split at h
    · rename_i hev
      cases h
      exact ⟨b, Array.mem_toList_iff.mp hb, hev, rfl⟩
    · cases h
  · rintro ⟨b, hb, hev, rfl⟩
    exact ⟨b, Array.mem_toList_iff.mpr hb, by rw [hev]⟩

theorem map_mapM {ε β γ η : Type} (f : β → Except ε γ) (g : γ → η) (xs : List β) :
    (xs.mapM f).map (List.map g) = xs.mapM fun x => (f x).map g := by
  induction xs with
  | nil => rfl
  | cons x xs ih =>
    rw [List.mapM_cons, List.mapM_cons, ← ih]
    cases f x with
    | error e => rfl
    | ok y =>
      cases xs.mapM f with
      | error e => rfl
      | ok ys => rfl

/-- A list filtered and mapped, if the mapping reads no more than what is selected. -/
theorem mapM_filter_eq {ε β γ η : Type} {keep : β → Bool} {select : β → Option γ}
    {f : β → Except ε η} {g : γ → Except ε η} (hkeep : ∀ b, keep b = (select b).isSome)
    (hfg : ∀ b c, select b = some c → f b = g c) (bs : List β) :
    (bs.filter keep).mapM f = (bs.filterMap select).mapM g := by
  induction bs with
  | nil => rfl
  | cons b bs ih =>
    cases hb : select b with
    | none =>
      rw [List.filter_cons_of_neg (by simp [hkeep, hb]), List.filterMap_cons_none hb, ih]
    | some c =>
      rw [List.filter_cons_of_pos (by simp [hkeep, hb]), List.filterMap_cons_some hb,
        List.mapM_cons, List.mapM_cons, ih, hfg b c hb]

/-- The costs one by one are the located costs at the same point. -/
theorem Program.costValues_eq (z : Vec α p.numVars) :
    p.costValues z = p.placedCosts.map (List.map fun c => c.cost.eval (z.select c.place)) := by
  have hplaced : p.placedCosts = p.quadraticCosts.mapM fun c =>
      (p.locate c.2 c.1.numVars).map fun place => (⟨c.1, place⟩ : PlacedCost α p.numVars) := rfl
  rw [hplaced, map_mapM, costValues, quadraticCosts]
  refine mapM_filter_eq (fun b => ?_) (fun b c hb => ?_) _
  · rw [Binding.kind]
    cases b.evaluator with
    | _ => rfl
  · split at hb
    · rename_i e he
      cases hb
      rw [p.evalAt_quadraticCost he]
      cases p.locate b.vars e.numVars with
      | error f => rfl
      | ok place => rfl
    · cases hb

/-- An equality has its target as its value where the located equality has. -/
theorem Program.evalAt_eq_target_iff {b : Binding α} {e : LinearEquality α}
    (hev : b.evaluator = .linearEquality e) {y : PlacedEquality α p.numVars}
    (hy : (p.locate b.vars e.numVars).map (fun place => ⟨e, place⟩) = .ok y)
    (z : Vec α p.numVars) : p.evalAt b z = .ok (.vector ⟨e.numRows, e.target⟩) ↔
      y.equality.eval (z.select y.place) = y.equality.target := by
  rw [p.evalAt_linearEquality hev]
  cases hl : p.locate b.vars e.numVars with
  | error f =>
    rw [hl] at hy
    cases hy
  | ok place =>
    rw [hl] at hy
    cases hy
    constructor
    · intro h
      injection h with h
      injection h with h
      injection h with _ h
    · exact congrArg fun v => Except.ok (Value.vector ⟨e.numRows, v⟩)

theorem Program.meets_iff {es : List (PlacedEquality α p.numVars)}
    (h : p.placedEqualities = .ok es) (z : Vec α p.numVars) :
    p.Meets z ↔ ∀ e ∈ es, e.equality.eval (z.select e.place) = e.equality.target := by
  have hplaced : List.Forall₂ (fun (x : LinearEquality α × List Variable)
      (y : PlacedEquality α p.numVars) =>
        (p.locate x.2 x.1.numVars).map (fun place => (⟨x.1, place⟩ : PlacedEquality α _)) = .ok y)
      p.linearEqualities es := mapM_eq_ok_iff.mp h
  constructor
  · intro hz y hy
    obtain ⟨⟨e, vs⟩, hx, hy⟩ := exists_of_mem_right hplaced hy
    obtain ⟨b, hb, hev, rfl⟩ := (p.mem_linearEqualities_iff e vs).mp hx
    exact (p.evalAt_eq_target_iff hev hy z).mp (hz b hb e hev)
  · intro hes b hb e hev
    have hx := (p.mem_linearEqualities_iff e b.vars).mpr ⟨b, hb, hev, rfl⟩
    obtain ⟨y, hy, hplace⟩ := exists_of_mem_left hplaced hx
    exact (p.evalAt_eq_target_iff hev hplace z).mpr (hes y hy)

/-- Data that stand beside the variables of bindings are located with them. -/
theorem Program.Closed.exists_mapM_locate {p : Program α} (h : p.Closed) {β γ : Type} {size : β → ℕ}
    (place : (e : β) → Vec (Fin p.numVars) (size e) → γ) {xs : List (β × List Variable)}
    (hx : ∀ x ∈ xs, ∃ b ∈ p.bindings, b.vars = x.2 ∧ b.evaluator.numVars = size x.1) :
    ∃ ys, (xs.mapM fun x => (p.locate x.2 (size x.1)).map (place x.1)) = .ok ys := by
  apply exists_mapM_eq_ok
  intro x hmem
  obtain ⟨b, hb, hvars, hsize⟩ := hx x hmem
  obtain ⟨v, hv⟩ := h.exists_locate hb (Binding.vars_length_of_eq hsize)
  refine ⟨place x.1 v, ?_⟩
  rw [← hvars, hv]
  rfl

/-- The bindings of a program whose variables are all known can be located. -/
theorem Program.Closed.exists_placed {p : Program α} (h : p.Closed) :
    (∃ cs, p.placedCosts = .ok cs) ∧ ∃ es, p.placedEqualities = .ok es := by
  constructor
  · apply h.exists_mapM_locate PlacedCost.mk
    intro x hx
    obtain ⟨b, hb, hev, hvars⟩ := (p.mem_quadraticCosts_iff x.1 x.2).mp hx
    exact ⟨b, hb, hvars, by rw [hev]; rfl⟩
  · apply h.exists_mapM_locate PlacedEquality.mk
    intro x hx
    obtain ⟨b, hb, hev, hvars⟩ := (p.mem_linearEqualities_iff x.1 x.2).mp hx
    exact ⟨b, hb, hvars, by rw [hev]; rfl⟩

end Evaluation

section Exact

variable (p : Program ℝ)

/-- The sum of the quadratic costs at a point of all variables. -/
noncomputable def Program.totalCost (z : Vec ℝ p.numVars) : Except (Fault ℝ) ℝ :=
  (p.costValues z).map List.sum

theorem Program.assemble_eq {p : Program ℝ} {cs : List (PlacedCost ℝ p.numVars)}
    {es : List (PlacedEquality ℝ p.numVars)} (hcs : p.placedCosts = .ok cs)
    (hes : p.placedEqualities = .ok es) :
    p.assemble.result = .ok ⟨p.numVars, _, placedProblem cs es⟩ := by
  rw [assemble_of_placed hcs hes]
  rfl

/-- The assembled objective is the total cost. -/
theorem Program.totalCost_eq {p : Program ℝ} {cs : List (PlacedCost ℝ p.numVars)}
    (hcs : p.placedCosts = .ok cs) (es : List (PlacedEquality ℝ p.numVars)) (z : Vec ℝ p.numVars) :
    p.totalCost z =
      .ok (quadraticCost (placedProblem cs es).hessian (placedProblem cs es).gradient z) := by
  rw [totalCost, p.costValues_eq, hcs, placedProblem_cost]
  rfl

/-- Assembly succeeds if the variables of all bindings are known. The assembled problem has the
total cost as its objective, and its constraints hold where the program's equalities do. -/
theorem Program.Closed.assemble_spec {p : Program ℝ} (h : p.Closed) :
    ∃ m, ∃ P : Problem ℝ p.numVars m, p.assemble.result = .ok ⟨p.numVars, m, P⟩ ∧
      (∀ z, p.totalCost z = .ok (quadraticCost P.hessian P.gradient z)) ∧
      ∀ z, p.Meets z ↔ P.matrix.mulVec z = P.target := by
  rcases h.exists_placed with ⟨⟨cs, hcs⟩, es, hes⟩
  refine ⟨_, placedProblem cs es, assemble_eq hcs hes, totalCost_eq hcs es, fun z => ?_⟩
  rw [p.meets_iff hes, placedProblem_mulVec_eq_iff]

/-- The origin meets equalities whose targets are zero. -/
theorem Program.meets_zero {es : List (PlacedEquality ℝ p.numVars)}
    (h : p.placedEqualities = .ok es) (ht : ∀ e ∈ es, e.equality.target = Vec.zero) :
    p.Meets Vec.zero := by
  rw [p.meets_iff h]
  intro e he
  apply Vec.coe_injective
  have hselect : ((Vec.zero : Vec ℝ p.numVars).select e.place).get = 0 := by
    rw [Vec.coe_select, Vec.coe_zero, Pi.zero_comp]
  rw [ht e he, LinearEquality.eval, Mat.coe_mulVec, hselect, Matrix.mulVec_zero, Vec.coe_zero]

end Exact

end QuadraticProgram
