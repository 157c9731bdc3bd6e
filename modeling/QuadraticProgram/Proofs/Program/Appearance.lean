import QuadraticProgram.Proofs.Program.CostFunction
import QuadraticProgram.Proofs.Program.Invariant

/-! # What a program shows

The names of its variables in their order, its bindings with the positions of their variables, and
what was written to it last are what a program shows of itself. The numbers of its variables are not
part of it. What is assembled, solved and read depends on what is shown alone.
-/

namespace QuadraticProgram

variable {α : Type} [Scalar α]

/-- What a program shows. -/
structure Appearance (α : Type) [Scalar α] where
  names : Array String
  bindings : Array (Evaluator α × List (Option ℕ))
  values : Array (Option α)
  optimalCost : Option α
  solverResult : Option SolverResult

namespace Program

def appearance (p : Program α) : Appearance α where
  names := p.vars.map Variable.name
  bindings := p.bindings.map fun b => (b.evaluator, p.positionsOf b.vars)
  values := p.values
  optimalCost := p.optimalCost
  solverResult := p.solverResult

variable {p q : Program α}

theorem numVars_eq_of_appearance (h : q.appearance = p.appearance) : q.numVars = p.numVars := by
  have hsize := congrArg (fun a => a.names.size) h
  rwa [appearance, appearance, Array.size_map, Array.size_map] at hsize

section Kinds

theorem any_kind_eq (p : Program α) (k : Kind) :
    (p.bindings.any fun b => b.kind = k) = p.appearance.bindings.any fun b => b.1.kind = k := by
  rw [appearance, Array.any_map]
  rfl

theorem checkSupported_eq_of_appearance (h : q.appearance = p.appearance) :
    q.checkSupported = p.checkSupported := by
  have hkinds : q.kinds = p.kinds := by
    unfold kinds
    simp only [any_kind_eq, h]
  rw [checkSupported, checkSupported, unsupportedKinds, unsupportedKinds, hkinds]

end Kinds

section Assembled

/-- A located cost or equality with the positions of its variables. -/
def located {κ : Type} {n k : ℕ} (e : κ) (place : Vec (Fin n) k) : κ × List (Option ℕ) :=
  (e, List.ofFn fun i => some (place i).val)

theorem place_eq_of_located {κ : Type} {n k : ℕ} {e : κ} {place place' : Vec (Fin n) k}
    (h : located e place = located e place') : place = place' :=
  Vec.ext_get fun i =>
    Fin.ext (Option.some_inj.mp (congrFun (List.ofFn_injective (Prod.mk.inj h).2) i))

omit [Scalar α] in
theorem located_cost_injective (n : ℕ) :
    Function.Injective fun c : PlacedCost α n => located c.cost c.place := by
  rintro ⟨e, place⟩ ⟨e', place'⟩ h
  obtain rfl : e = e' := (Prod.mk.inj h).1
  obtain rfl : place = place' := place_eq_of_located h
  rfl

omit [Scalar α] in
theorem located_equality_injective (n : ℕ) :
    Function.Injective fun e : PlacedEquality α n => located e.equality e.place := by
  rintro ⟨e, place⟩ ⟨e', place'⟩ h
  obtain rfl : e = e' := (Prod.mk.inj h).1
  obtain rfl : place = place' := place_eq_of_located h
  rfl

/-- Locating costs or equalities finds the positions that are shown. -/
theorem map_located {κ π : Type} {size : κ → ℕ} {mk : (e : κ) → Vec (Fin p.numVars) (size e) → π}
    {shown : π → κ × List (Option ℕ)} (hshown : ∀ e place, shown (mk e place) = located e place)
    {xs : List (κ × List Variable)} {ys : List π}
    (h : xs.mapM (fun x => do .ok (mk x.1 (← p.locate x.2 (size x.1)))) = .ok ys) :
    ys.map shown = xs.map fun x => (x.1, p.positionsOf x.2) := by
  refine (map_eq_of_forall₂ ?_ (mapM_eq_ok_iff.mp h)).symm
  intro x y hy
  obtain ⟨place, hplace, hy⟩ := bind_eq_ok hy
  cases hy
  rw [hshown, positionsOf_of_locate hplace]
  rfl

theorem quadraticCosts_positions (p : Program α) :
    (p.quadraticCosts.map fun x => (x.1, p.positionsOf x.2)) =
      p.appearance.bindings.toList.filterMap fun b =>
        match b.1 with
        | .quadraticCost e => some (e, b.2)
        | _ => none := by
  rw [appearance, Array.toList_map, List.filterMap_map, quadraticCosts, List.map_filterMap]
  apply List.filterMap_congr
  intro b _
  dsimp only [Function.comp]
  cases b.evaluator <;> rfl

theorem linearEqualities_positions (p : Program α) :
    (p.linearEqualities.map fun x => (x.1, p.positionsOf x.2)) =
      p.appearance.bindings.toList.filterMap fun b =>
        match b.1 with
        | .linearEquality e => some (e, b.2)
        | _ => none := by
  rw [appearance, Array.toList_map, List.filterMap_map, linearEqualities, List.map_filterMap]
  apply List.filterMap_congr
  intro b _
  dsimp only [Function.comp]
  cases b.evaluator <;> rfl

/-- Costs and equalities at the same positions make the same problem. -/
theorem assemblePlaced_congr {n n' : ℕ} (h : n' = n) {cs : List (PlacedCost α n)}
    {es : List (PlacedEquality α n)} {cs' : List (PlacedCost α n')}
    {es' : List (PlacedEquality α n')}
    (hcs : (cs'.map fun c => located c.cost c.place) = cs.map fun c => located c.cost c.place)
    (hes : (es'.map fun e => located e.equality e.place) =
      es.map fun e => located e.equality e.place) :
    assemblePlaced cs' es' = assemblePlaced cs es ∧ cs'.length = cs.length ∧
      es'.length = es.length := by
  subst h
  obtain rfl := List.map_injective_iff.mpr (located_cost_injective n') hcs
  obtain rfl := List.map_injective_iff.mpr (located_equality_injective n') hes
  exact ⟨rfl, rfl, rfl⟩

/-- Programs that show the same are assembled to the same problem. -/
theorem Closed.assemble_eq (hp : p.Closed) (hq : q.Closed) (h : q.appearance = p.appearance) :
    q.assemble = p.assemble := by
  obtain ⟨⟨cs, hcs⟩, es, hes⟩ := hp.exists_placed
  obtain ⟨⟨cs', hcs'⟩, es', hes'⟩ := hq.exists_placed
  have hcosts : (cs'.map fun c => located c.cost c.place) =
      cs.map fun c => located c.cost c.place := by
    rw [map_located (fun _ _ => rfl) hcs, map_located (fun _ _ => rfl) hcs',
      quadraticCosts_positions, quadraticCosts_positions, h]
  have hequalities : (es'.map fun e => located e.equality e.place) =
      es.map fun e => located e.equality e.place := by
    rw [map_located (fun _ _ => rfl) hes, map_located (fun _ _ => rfl) hes',
      linearEqualities_positions, linearEqualities_positions, h]
  obtain ⟨hP, hcslength, heslength⟩ :=
    assemblePlaced_congr (numVars_eq_of_appearance h) hcosts hequalities
  rw [assemble_of_placed hcs hes, assemble_of_placed hcs' hes', hP, hcslength, heslength,
    numVars_eq_of_appearance h]

/-- Programs that show the same have the same outcomes. -/
theorem Closed.solveOutcome_eq (hp : p.Closed) (hq : q.Closed) (h : q.appearance = p.appearance)
    (F : Factorizations α) (checks : Bool) : q.solveOutcome F checks = p.solveOutcome F checks := by
  rw [solveOutcome_assembled, solveOutcome_assembled, hp.assemble_eq hq h,
    checkSupported_eq_of_appearance h]

end Assembled

end Program

end QuadraticProgram
