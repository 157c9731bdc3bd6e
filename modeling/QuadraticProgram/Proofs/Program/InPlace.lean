import QuadraticProgram.Program.InPlace

/-! # What a failed run leaves behind

A run is a sequence of steps. If whatever can fail comes before the first write, a run that fails
leaves the state as it was. This is read off the order of the steps: steps that do not write may
come in front, and steps that cannot fail may come behind.
-/

namespace QuadraticProgram.InPlace

variable {σ τ α β γ : Type}

section Steps

variable {s : σ} {b : β} {e : Fault α} {r : InPlace σ α β} {f : β → InPlace σ α γ}

theorem bind_of_ok (h : (r.run s).2.result = .ok b) (f : β → InPlace σ α γ) :
    (r >>= f).run s = (((f b).run (r.run s).1).1,
      ⟨(r.run s).2.events ++ ((f b).run (r.run s).1).2.events,
        ((f b).run (r.run s).1).2.result⟩) := by
  simp only [bind, andThen, h]

theorem bind_of_error (h : (r.run s).2.result = .error e) (f : β → InPlace σ α γ) :
    (r >>= f).run s = ((r.run s).1, ⟨(r.run s).2.events, .error e⟩) := by
  simp only [bind, andThen, h]

/-- A run that fails, fails in its first part or in its second one. -/
theorem bind_cases (h : ((r >>= f).run s).2.result = .error e) :
    ((r.run s).2.result = .error e ∧ ((r >>= f).run s).1 = (r.run s).1) ∨
      ∃ b, (r.run s).2.result = .ok b ∧ ((f b).run (r.run s).1).2.result = .error e ∧
        ((r >>= f).run s).1 = ((f b).run (r.run s).1).1 := by
  cases hr : (r.run s).2.result with
  | error e' =>
    rw [bind_of_error hr] at h ⊢
    cases h
    exact .inl ⟨rfl, rfl⟩
  | ok b =>
    rw [bind_of_ok hr] at h ⊢
    exact .inr ⟨b, rfl, h, rfl⟩

theorem observe_bind_of_ok {g : σ → Logged α β} (h : (g s).result = .ok b)
    (f : β → InPlace σ α γ) : (observe g >>= f).run s =
      (((f b).run s).1, ⟨(g s).events ++ ((f b).run s).2.events, ((f b).run s).2.result⟩) :=
  bind_of_ok (r := observe g) h f

theorem observe_bind_of_error {g : σ → Logged α β} (h : (g s).result = .error e)
    (f : β → InPlace σ α γ) : (observe g >>= f).run s = (s, ⟨(g s).events, .error e⟩) :=
  bind_of_error (r := observe g) h f

theorem check_bind_of_ok {g : σ → Except (Fault α) β} (h : g s = .ok b) (f : β → InPlace σ α γ) :
    (check g >>= f).run s = (f b).run s :=
  bind_of_ok (r := check g) h f

theorem check_bind_of_error {g : σ → Except (Fault α) β} (h : g s = .error e)
    (f : β → InPlace σ α γ) : (check g >>= f).run s = (s, ⟨[], .error e⟩) :=
  bind_of_error (r := check g) h f

@[simp] theorem ofExcept_ok_bind (b : β) (f : β → InPlace σ α γ) : ofExcept (.ok b) >>= f = f b :=
  rfl

theorem bind_pure_run (r : InPlace σ α β) (f : β → γ) (s : σ) :
    (r >>= fun b => pure (f b)).run s =
      ((r.run s).1, ⟨(r.run s).2.events, (r.run s).2.result.map f⟩) := by
  cases hr : (r.run s).2.result with
  | error e => exact bind_of_error hr _
  | ok b =>
    rw [bind_of_ok hr]
    simp only [pure, List.append_nil, Except.map]

end Steps

/-- A run that writes nothing. -/
def Reads (r : InPlace σ α β) : Prop := ∀ s, (r.run s).1 = s

/-- A run that cannot fail. -/
def Sure (r : InPlace σ α β) : Prop := ∀ s, ∃ b, (r.run s).2.result = .ok b

/-- A run that leaves the state as it was if it fails. -/
def Guarded (r : InPlace σ α β) : Prop := ∀ s e, (r.run s).2.result = .error e → (r.run s).1 = s

section Order

variable {r : InPlace σ α β} {f : β → InPlace σ α γ}

theorem reads_observe (g : σ → Logged α β) : (observe g).Reads := fun _ => rfl

theorem reads_check (g : σ → Except (Fault α) β) : (check g).Reads := fun _ => rfl

theorem reads_ofExcept (x : Except (Fault α) β) : (ofExcept x : InPlace σ α β).Reads :=
  reads_check _

theorem sure_write (g : σ → σ) : (write g : InPlace σ α Unit).Sure := fun _ => ⟨(), rfl⟩

/-- A check that is passed in every state. -/
theorem sure_check {g : σ → Except (Fault α) β} (hg : ∀ s, ∃ b, g s = .ok b) : (check g).Sure := hg

theorem sure_ofExcept (b : β) : (ofExcept (.ok b) : InPlace σ α β).Sure := fun _ => ⟨b, rfl⟩

theorem sure_pure (b : β) : (pure b : InPlace σ α β).Sure := fun _ => ⟨b, rfl⟩

theorem Sure.bind (hr : r.Sure) (hf : ∀ b, (f b).Sure) : (r >>= f).Sure := by
  intro s
  obtain ⟨b, hb⟩ := hr s
  obtain ⟨c, hc⟩ := hf b (r.run s).1
  exact ⟨c, by rw [bind_of_ok hb, hc]⟩

/-- A run that keeps what can be read off the state, whether it has a result or fails. -/
def Keeps (get : σ → τ) (r : InPlace σ α β) : Prop := ∀ s, get (r.run s).1 = get s

theorem Reads.keeps (hr : r.Reads) (get : σ → τ) : r.Keeps get := fun s => congrArg get (hr s)

theorem keeps_write {get : σ → τ} {g : σ → σ} (hg : ∀ s, get (g s) = get s) :
    (write g : InPlace σ α Unit).Keeps get := hg

theorem Keeps.bind {get : σ → τ} (hr : r.Keeps get) (hf : ∀ b, (f b).Keeps get) :
    (r >>= f).Keeps get := by
  intro s
  cases hresult : (r.run s).2.result with
  | error e => rw [bind_of_error hresult, hr s]
  | ok b => rw [bind_of_ok hresult, hf b, hr s]

theorem Reads.guarded (hr : r.Reads) : r.Guarded := fun s _ _ => hr s

theorem Sure.guarded (hr : r.Sure) : r.Guarded := by
  intro s e he
  obtain ⟨b, hb⟩ := hr s
  cases hb.symm.trans he

/-- What comes in front of a guarded run may fail if it does not write. -/
theorem Reads.bind_guarded (hr : r.Reads) (hf : ∀ b, (f b).Guarded) : (r >>= f).Guarded := by
  intro s e he
  rcases bind_cases he with ⟨-, hs⟩ | ⟨b, -, hfails, hs⟩
  · exact hs.trans (hr s)
  · exact hs.trans ((hf b _ e hfails).trans (hr s))

/-- What comes behind a guarded run may write if it cannot fail. -/
theorem Guarded.bind_sure (hr : r.Guarded) (hf : ∀ b, (f b).Sure) : (r >>= f).Guarded := by
  intro s e he
  rcases bind_cases he with ⟨hfails, hs⟩ | ⟨b, -, hfails, -⟩
  · exact hs.trans (hr s e hfails)
  · obtain ⟨c, hc⟩ := hf b (r.run s).1
    cases hc.symm.trans hfails

theorem Sure.focus {r : InPlace τ α β} (hr : r.Sure) (get : σ → τ) (put : τ → σ → σ) :
    (InPlace.focus get put r).Sure := fun s => hr (get s)

/-- A run on a part of the state that has been left as it was leaves the state as it was. -/
theorem Guarded.focus {r : InPlace τ α β} (hr : r.Guarded) {get : σ → τ} {put : τ → σ → σ}
    (hput : ∀ s, put (get s) s = s) : (InPlace.focus get put r).Guarded := by
  intro s e he
  change put (r.run (get s)).1 s = s
  rw [hr (get s) e he, hput]

end Order

section Simulation

/-- Two runs that report and return the same and leave related states. -/
def Agree (R : σ → τ → Prop) (r : InPlace σ α β) (r' : InPlace τ α β) (s : σ) (t : τ) : Prop :=
  (r.run s).2 = (r'.run t).2 ∧ R (r.run s).1 (r'.run t).1

/-- A run that does in every state what another run does in a related state. -/
def Simulates (R : σ → τ → Prop) (r : InPlace σ α β) (r' : InPlace τ α β) : Prop :=
  ∀ s t, R s t → Agree R r r' s t

variable {R : σ → τ → Prop}

theorem simulates_observe {g : σ → Logged α β} {g' : τ → Logged α β}
    (hg : ∀ s t, R s t → g s = g' t) : Simulates R (observe g) (observe g') :=
  fun s t h => ⟨hg s t h, h⟩

theorem simulates_check {g : σ → Except (Fault α) β} {g' : τ → Except (Fault α) β}
    (hg : ∀ s t, R s t → g s = g' t) : Simulates R (check g) (check g') :=
  simulates_observe fun s t h => congrArg Logged.ofExcept (hg s t h)

theorem simulates_ofExcept (x : Except (Fault α) β) : Simulates R (ofExcept x) (ofExcept x) :=
  simulates_check fun _ _ _ => rfl

theorem simulates_pure (b : β) : Simulates R (pure b : InPlace σ α β) (pure b) :=
  fun _ _ h => ⟨rfl, h⟩

theorem Agree.bind {r : InPlace σ α β} {r' : InPlace τ α β} {s : σ} {t : τ}
    (hr : Agree R r r' s t) {f : β → InPlace σ α γ} {f' : β → InPlace τ α γ}
    (hf : ∀ b, Simulates R (f b) (f' b)) : Agree R (r >>= f) (r' >>= f') s t := by
  obtain ⟨hrun, hleft⟩ := hr
  cases hresult : (r.run s).2.result with
  | error e =>
    rw [Agree, bind_of_error hresult, bind_of_error (hrun ▸ hresult), hrun]
    exact ⟨rfl, hleft⟩
  | ok b =>
    obtain ⟨hrest, hleft'⟩ := hf b _ _ hleft
    rw [Agree, bind_of_ok hresult, bind_of_ok (hrun ▸ hresult), hrun, hrest]
    exact ⟨rfl, hleft'⟩

theorem Simulates.bind {r : InPlace σ α β} {r' : InPlace τ α β} (hr : Simulates R r r')
    {f : β → InPlace σ α γ} {f' : β → InPlace τ α γ} (hf : ∀ b, Simulates R (f b) (f' b)) :
    Simulates R (r >>= f) (r' >>= f') := fun s t h => (hr s t h).bind hf

end Simulation

end QuadraticProgram.InPlace
