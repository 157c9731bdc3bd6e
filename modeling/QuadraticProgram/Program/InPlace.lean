import QuadraticProgram.Solver.Event

/-! # Runs that write in place

A run starts from a state and writes to it on the way. If a step fails, the steps behind it do not
run, and what was written before stays written.
-/

namespace QuadraticProgram

/-- A run that leaves a state behind, whether it has a result or fails. -/
structure InPlace (σ α β : Type) where
  run : σ → σ × Logged α β

namespace InPlace

variable {σ τ α β γ : Type}

/-- Go on from the state that a run has left, if the run has a result. -/
def andThen (r : InPlace σ α β) (f : β → InPlace σ α γ) : InPlace σ α γ where
  run s :=
    let (s, first) := r.run s
    match first.result with
    | .ok b =>
      let (s, rest) := (f b).run s
      (s, ⟨first.events ++ rest.events, rest.result⟩)
    | .error e => (s, ⟨first.events, .error e⟩)

instance : Monad (InPlace σ α) where
  pure b := ⟨fun s => (s, pure b)⟩
  bind := andThen

/-- Run on the state without writing to it. -/
def observe (f : σ → Logged α β) : InPlace σ α β := ⟨fun s => (s, f s)⟩

/-- Look at the state and go on, or fail. -/
def check (f : σ → Except (Fault α) β) : InPlace σ α β := observe fun s => Logged.ofExcept (f s)

/-- A step that has nothing to do with the state. -/
def ofExcept (r : Except (Fault α) β) : InPlace σ α β := check fun _ => r

/-- Write to the state. -/
def write (f : σ → σ) : InPlace σ α Unit := ⟨fun s => (f s, pure ())⟩

/-- Run on a part of the state and put back what becomes of it. -/
def focus (get : σ → τ) (put : τ → σ → σ) (r : InPlace τ α β) : InPlace σ α β where
  run s :=
    let (t, done) := r.run (get s)
    (put t s, done)

/-- The result of a run together with the state that it leaves. -/
def outcome (r : InPlace σ α β) (s : σ) : Logged α (σ × β) :=
  let (s, done) := r.run s
  ⟨done.events, done.result.map fun b => (s, b)⟩

end InPlace

end QuadraticProgram
