import Mathlib.Algebra.Module.LinearMap.Prod
import QuadraticProgram.Proofs.Exact.Matrix

/-! # Runs that are linear in their data

Real vectors form a vector space. A run is linear if its data never decide whether it fails, and its
result is a linear function of them otherwise. Loops of linear steps are linear, and linear runs
compose.
-/

namespace QuadraticProgram
open Matrix

variable {m n k : ℕ}

namespace Vec

noncomputable instance : Zero (Vec ℝ n) := ⟨zero⟩
noncomputable instance : Add (Vec ℝ n) := ⟨add⟩
noncomputable instance : Neg (Vec ℝ n) := ⟨neg⟩
noncomputable instance : Sub (Vec ℝ n) := ⟨sub⟩
noncomputable instance {R : Type} [SMul R ℝ] : SMul R (Vec ℝ n) := ⟨fun a x => x.map (a • ·)⟩

theorem coe_smul {R : Type} [SMul R ℝ] (a : R) (x : Vec ℝ n) : (a • x).get = a • x.get :=
  funext (get_map _ x)

noncomputable instance : AddCommGroup (Vec ℝ n) :=
  coe_injective.addCommGroup get coe_zero coe_add coe_neg coe_sub (fun x a => coe_smul a x)
    fun x a => coe_smul a x

noncomputable instance : Module ℝ (Vec ℝ n) :=
  coe_injective.module ℝ ⟨⟨get, coe_zero⟩, coe_add⟩ coe_smul

@[simp] theorem add_apply (x y : Vec ℝ n) (i : Fin n) : (x + y) i = x i + y i := get_add x y i

@[simp] theorem neg_apply (x : Vec ℝ n) (i : Fin n) : (-x) i = -x i := get_neg x i

@[simp] theorem smul_apply (a : ℝ) (x : Vec ℝ n) (i : Fin n) : (a • x) i = a * x i :=
  get_map _ x i

end Vec

namespace Mat

noncomputable instance : SMul ℝ (Mat ℝ m n) := ⟨fun a M => ofFn fun i j => a * M i j⟩

@[simp] theorem smul_apply (a : ℝ) (M : Mat ℝ m n) (i : Fin m) (j : Fin n) :
    (a • M) i j = a * M i j := get_ofFn _ i j

@[simp] theorem toMatrix_smul (a : ℝ) (M : Mat ℝ m n) : (a • M).toMatrix = a • M.toMatrix := by
  ext i j
  exact smul_apply a M i j

end Mat

section Maps

variable {V W U : Type} [AddCommGroup V] [Module ℝ V] [AddCommGroup W] [Module ℝ W]
  [AddCommGroup U] [Module ℝ U]

theorem isLinearMap_comp {g : W → U} {f : V → W} (hg : IsLinearMap ℝ g) (hf : IsLinearMap ℝ f) :
    IsLinearMap ℝ fun v => g (f v) :=
  ((hg.mk' g).comp (hf.mk' f)).isLinear

theorem isLinearMap_fst : IsLinearMap ℝ fun p : V × W => p.1 := (LinearMap.fst ℝ V W).isLinear

theorem isLinearMap_snd : IsLinearMap ℝ fun p : V × W => p.2 := (LinearMap.snd ℝ V W).isLinear

theorem isLinearMap_id : IsLinearMap ℝ fun v : V => v := LinearMap.id.isLinear

theorem isLinearMap_prod {f : V → W} {g : V → U} (hf : IsLinearMap ℝ f) (hg : IsLinearMap ℝ g) :
    IsLinearMap ℝ fun v => (f v, g v) :=
  ((hf.mk' f).prod (hg.mk' g)).isLinear

theorem isLinearMap_sub {f g : V → W} (hf : IsLinearMap ℝ f) (hg : IsLinearMap ℝ g) :
    IsLinearMap ℝ fun v => f v - g v :=
  (hf.mk' f - hg.mk' g).isLinear

/-- A loop from zero is linear in the data that its steps use, if every step is linear in these data
and the state together. -/
theorem isLinearMap_foldl {f : V → W → Fin k → W}
    (h : ∀ i, IsLinearMap ℝ fun p : V × W => f p.1 p.2 i) :
    IsLinearMap ℝ fun v => Fin.foldl k (f v) 0 := by
  induction k with
  | zero =>
    simp only [Fin.foldl_zero]
    exact (0 : V →ₗ[ℝ] W).isLinear
  | succ k ih =>
    simp only [Fin.foldl_succ_last]
    exact isLinearMap_comp (h (Fin.last k)) (isLinearMap_prod isLinearMap_id
      (ih (f := fun v w i => f v w i.castSucc) fun i => h i.castSucc))

theorem isLinearMap_foldr {f : V → Fin k → W → W}
    (h : ∀ i, IsLinearMap ℝ fun p : V × W => f p.1 i p.2) :
    IsLinearMap ℝ fun v => Fin.foldr k (f v) 0 := by
  induction k with
  | zero =>
    simp only [Fin.foldr_zero]
    exact (0 : V →ₗ[ℝ] W).isLinear
  | succ k ih =>
    simp only [Fin.foldr_succ]
    exact isLinearMap_comp (h 0) (isLinearMap_prod isLinearMap_id
      (ih (f := fun v i w => f v i.succ w) fun i => h i.succ))

end Maps

namespace Vec

variable {V : Type} [AddCommGroup V] [Module ℝ V]

theorem isLinearMap_of_apply {f : V → Vec ℝ n} (h : ∀ i, IsLinearMap ℝ fun v => f v i) :
    IsLinearMap ℝ f where
  map_add v w := ext_get fun i => ((h i).map_add v w).trans (add_apply _ _ i).symm
  map_smul a v := ext_get fun i => ((h i).map_smul a v).trans (smul_apply a _ i).symm

theorem isLinearMap_apply {f : V → Vec ℝ n} (h : IsLinearMap ℝ f) (i : Fin n) :
    IsLinearMap ℝ fun v => f v i where
  map_add v w := by rw [h.map_add, add_apply]
  map_smul a v := by rw [h.map_smul, smul_apply, smul_eq_mul]

/-- What acts as a matrix is linear. -/
theorem isLinearMap_of_mulVec {f : Vec ℝ n → Vec ℝ m} (M : Matrix (Fin m) (Fin n) ℝ)
    (h : ∀ x, (f x).get = M *ᵥ x.get) : IsLinearMap ℝ f where
  map_add x y := coe_injective <| by
    change _ = ((f x).add (f y)).get
    rw [h, coe_add, h, h, ← mulVec_add]
    congr 1
    exact coe_add x y
  map_smul a x := coe_injective <| by rw [h, coe_smul, coe_smul, h, mulVec_smul]

theorem isLinearMap_set {f : V → Vec ℝ n} {a : V → ℝ} (hf : IsLinearMap ℝ f)
    (ha : IsLinearMap ℝ a) (i : Fin n) : IsLinearMap ℝ fun v => (f v).set i (a v) := by
  apply isLinearMap_of_apply
  intro j
  simp only [get_set]
  by_cases hj : j = i
  · simp only [if_pos hj]
    exact ha
  · simp only [if_neg hj]
    exact isLinearMap_apply hf j

theorem isLinearMap_append {f : V → Vec ℝ m} {g : V → Vec ℝ n} (hf : IsLinearMap ℝ f)
    (hg : IsLinearMap ℝ g) : IsLinearMap ℝ fun v => (f v).append (g v) := by
  apply isLinearMap_of_apply
  intro i
  refine Fin.addCases (fun i => ?_) (fun i => ?_) i
  · simp only [get_append_castAdd]
    exact isLinearMap_apply hf i
  · simp only [get_append_natAdd]
    exact isLinearMap_apply hg i

theorem isLinearMap_div (d : Vec ℝ n) : IsLinearMap ℝ fun x : Vec ℝ n => x.div d := by
  apply isLinearMap_of_apply
  intro i
  simp only [get_div]
  exact ⟨fun x y => by rw [add_apply]; exact add_div _ _ _,
    fun a x => by rw [smul_apply]; exact mul_div_assoc _ _ _⟩

theorem isLinearMap_select (p : Vec (Fin n) k) :
    IsLinearMap ℝ fun x : Vec ℝ n => x.select p := by
  apply isLinearMap_of_apply
  intro i
  simp only [get_select]
  exact isLinearMap_apply isLinearMap_id (p i)

/-- Values that are written to fixed positions enter linearly, even if a position occurs twice. -/
theorem isLinearMap_scatter (p : Vec (Fin n) k) : IsLinearMap ℝ (scatter p : Vec ℝ k → Vec ℝ n) :=
  isLinearMap_foldl fun i =>
    isLinearMap_set isLinearMap_snd (isLinearMap_apply isLinearMap_fst i) (p i)

end Vec

section Runs

variable {V W U : Type} [AddCommGroup V] [Module ℝ V] [AddCommGroup W] [Module ℝ W]
  [AddCommGroup U] [Module ℝ U]

/-- The data of a run never decide whether it fails; otherwise its result is linear in them. -/
def LinearRun (run : V → Except (Fault ℝ) W) : Prop :=
  ∃ r : Except (Fault ℝ) (V →ₗ[ℝ] W), ∀ v, run v = r.map fun T => T v

namespace LinearRun

theorem ok {f : V → W} (hf : IsLinearMap ℝ f) : LinearRun fun v => .ok (f v) :=
  ⟨.ok (hf.mk' f), fun _ => rfl⟩

theorem error (e : Fault ℝ) : LinearRun fun _ : V => (.error e : Except (Fault ℝ) W) :=
  ⟨.error e, fun _ => rfl⟩

theorem congr {run run' : V → Except (Fault ℝ) W} (hr : LinearRun run)
    (h : ∀ v, run' v = run v) : LinearRun run' := funext h ▸ hr

/-- A linear run on data that are linear in others. -/
theorem comp {run : W → Except (Fault ℝ) U} (hr : LinearRun run) {f : V → W}
    (hf : IsLinearMap ℝ f) : LinearRun fun v => run (f v) := by
  obtain ⟨r, hr⟩ := hr
  refine ⟨r.map fun T => T.comp (hf.mk' f), fun v => ?_⟩
  dsimp only
  rw [hr]
  cases r with
  | error e => rfl
  | ok T => rfl

/-- What is made linearly of the data and the result of a linear run. -/
theorem map {run : V → Except (Fault ℝ) W} (hr : LinearRun run) {f : V → W → U}
    (hf : IsLinearMap ℝ fun p : V × W => f p.1 p.2) : LinearRun fun v => (run v).map (f v) := by
  obtain ⟨r, hr⟩ := hr
  refine ⟨r.map fun T => (hf.mk' _).comp (LinearMap.id.prod T), fun v => ?_⟩
  dsimp only
  rw [hr]
  cases r with
  | error e => rfl
  | ok T => rfl

/-- Linear runs on two data and on a combination of them all fail, or the last result is the same
combination of the others. -/
theorem superpose {run : V → Except (Fault ℝ) W} (hr : LinearRun run) (s t : ℝ) (v₁ v₂ : V) :
    (∃ e, run v₁ = .error e ∧ run v₂ = .error e ∧ run (s • v₁ + t • v₂) = .error e) ∨
      ∃ w₁ w₂, run v₁ = .ok w₁ ∧ run v₂ = .ok w₂ ∧
        run (s • v₁ + t • v₂) = .ok (s • w₁ + t • w₂) := by
  obtain ⟨r, hr⟩ := hr
  rw [hr, hr, hr]
  cases r with
  | error e => exact .inl ⟨e, rfl, rfl, rfl⟩
  | ok T =>
    refine .inr ⟨T v₁, T v₂, rfl, rfl, ?_⟩
    rw [← map_smul, ← map_smul, ← map_add]
    rfl

end LinearRun

end Runs

end QuadraticProgram
