import QuadraticProgram.Logging.Registry
import QuadraticProgram.Proofs.Solver.Logged

/-! # What the registry keeps

The loggers of assembly and of the solver are there from the start. Whatever is asked for and
however levels are changed, they stay set up by the package: they never pass a record on to the
loggers above them.
-/

namespace QuadraticProgram.Registry

section Lookup

theorem name_of_find? {r : Registry} {name : String} {l : Logger} (h : r.find? name = some l) :
    l.name = name := by
  simpa using List.find?_some h

/-- Changes that keep the names of loggers do not change where they are found. -/
theorem find?_map {f : Logger → Logger} (hf : ∀ l, (f l).name = l.name) (loggers : List Logger)
    (name : String) : (loggers.map f).find? (fun l => l.name = name) =
      (loggers.find? fun l => l.name = name).map f := by
  have hname : (fun l : Logger => decide (l.name = name)) ∘ f =
      fun l => decide (l.name = name) := by
    funext l
    simp only [Function.comp_apply, hf]
  rw [List.find?_map, hname]

/-- The logger put in place is found under its name, all others as before. -/
theorem find?_put (r : Registry) (l : Logger) (name : String) :
    (r.put l).find? name = if l.name = name then some l else r.find? name := by
  unfold put
  split
  · rename_i hany
    have hkeeps : ∀ l' : Logger, (if l'.name = l.name then l else l').name = l'.name := by
      intro l'
      split
      · exact Eq.symm ‹_›
      · rfl
    change (r.loggers.map _).find? _ = _
    rw [find?_map hkeeps]
    change (r.find? name).map _ = _
    cases hfind : r.find? name with
    | none =>
      rw [if_neg]
      · rfl
      · rintro rfl
        obtain ⟨l', hl', hl'name⟩ := List.any_eq_true.mp hany
        exact List.find?_eq_none.mp hfind l' hl' hl'name
    | some l' =>
      rw [Option.map_some, name_of_find? hfind]
      split
      · rw [if_pos (Eq.symm ‹_›)]
      · rw [if_neg (Ne.symm ‹_›)]
  · rename_i hany
    have hnew : r.find? l.name = none := by
      apply List.find?_eq_none.mpr
      intro l' hl' hname
      exact hany (List.any_eq_true.mpr ⟨l', hl', hname⟩)
    change (r.loggers ++ [l]).find? _ = _
    rw [List.find?_append]
    change (r.find? name).or _ = _
    by_cases hname : l.name = name
    · rw [if_pos hname, ← hname, hnew]
      simp
    · rw [if_neg hname]
      simp [hname]

end Lookup

/-- A logger at another level, with all its handlers. -/
def withLevel (level : LogLevel) (l : Logger) : Logger :=
  { l with level, handlers := l.handlers.map fun h => { h with level } }

/-- A logger with one handler, at the level of that handler. -/
def withHandler (h : Handler) (l : Logger) : Logger := { l with level := h.level, handlers := [h] }

/-- All loggers that were asked for are changed by `f`. -/
structure Changed (f : Logger → Logger) (r r' : Registry) : Prop where
  cached : r'.cached = r.cached
  find? (name : String) : r'.find? name =
    (r.find? name).map fun l => if r.cached.contains name then f l else l

section Steps

variable {r r' : Registry}

theorem changed_mapCached {f : Logger → Logger} (hf : ∀ l, (f l).name = l.name) (r : Registry)
    (level : LogLevel) : Changed f r { r.mapCached f with defaultLevel := level } := by
  refine ⟨rfl, fun name => ?_⟩
  have hkeeps : ∀ l : Logger, (if r.cached.contains l.name then f l else l).name = l.name := by
    intro l
    split
    · exact hf l
    · rfl
  change (r.loggers.map _).find? _ = _
  rw [find?_map hkeeps]
  change (r.find? name).map _ = _
  cases hfind : r.find? name with
  | none => rfl
  | some l => rw [Option.map_some, Option.map_some, name_of_find? hfind]

@[simp] theorem cached_put (r : Registry) (l : Logger) : (r.put l).cached = r.cached := by
  unfold put
  split <;> rfl

/-- Asking for a logger changes nothing if it was asked for before, and puts it in place otherwise.
-/
theorem request_cases (r : Registry) (name : String) :
    (r.request name).1 = r ∨ (r.cached.contains name → r.find? name = none) ∧
      ∃ l, l.name = name ∧ (r.request name).1 = { r.put l with cached := r.cached ++ [name] } := by
  unfold request
  cases hfind : r.find? name with
  | none => exact .inr ⟨fun _ => rfl, setUp r.defaultLevel name, rfl, by simp only [cached_put]⟩
  | some l =>
    dsimp only
    split
    · exact .inl rfl
    · refine .inr ⟨fun h => absurd h ‹_›,
        if l.handlers.isEmpty then setUp r.defaultLevel name else l, ?_, by simp only [cached_put]⟩
      split
      · rfl
      · exact name_of_find? hfind

/-- What a change of level makes of a registry. -/
theorem setLevel_spec {level : Datum} (h : r.setLevel level = .ok r') :
    ∃ l, LogLevel.read level = .ok (some l) ∧
      r' = { r.mapCached (withLevel l) with defaultLevel := l } := by
  unfold setLevel LogLevel.require at h
  obtain ⟨l, hl, h⟩ := bind_eq_ok h
  obtain ⟨level?, hread, hl⟩ := bind_eq_ok hl
  cases level? with
  | none => cases hl
  | some l' =>
    obtain rfl := Except.ok.inj hl
    exact ⟨l', hread, (Except.ok.inj h).symm⟩

/-- A change of level changes the loggers that were asked for. -/
theorem setLevel_cases {level : Datum} (h : r.setLevel level = .ok r') :
    ∃ l, LogLevel.read level = .ok (some l) ∧ Changed (withLevel l) r r' := by
  obtain ⟨l, hread, rfl⟩ := setLevel_spec h
  exact ⟨l, hread, changed_mapCached (f := withLevel l) (fun _ => rfl) r l⟩

/-- What a configuration makes of a registry. -/
theorem configure_spec {level format : Datum} {target : Target}
    (h : r.configure level format target = .ok r') :
    ∃ l f, LogLevel.read level = .ok (some l) ∧ chooseFormat format = .ok f ∧
      r' = { r.mapCached (withHandler ⟨l, target, f⟩) with defaultLevel := l } := by
  unfold configure at h
  obtain ⟨level?, hread, h⟩ := bind_eq_ok h
  obtain ⟨f, hf, h⟩ := bind_eq_ok h
  cases level? with
  | none => cases h
  | some l => exact ⟨l, f, hread, hf, (Except.ok.inj h).symm⟩

/-- A configuration changes the loggers that were asked for. -/
theorem configure_cases {level format : Datum} {target : Target}
    (h : r.configure level format target = .ok r') :
    ∃ l f, LogLevel.read level = .ok (some l) ∧ chooseFormat format = .ok f ∧
      Changed (withHandler ⟨l, target, f⟩) r r' := by
  obtain ⟨l, f, hread, hf, rfl⟩ := configure_spec h
  exact ⟨l, f, hread, hf, changed_mapCached (f := withHandler ⟨l, target, f⟩) (fun _ => rfl) r l⟩

/-- The level that is set is the one read. -/
theorem changed_of_setLevel {level : Datum} {l : LogLevel}
    (hread : LogLevel.read level = .ok (some l)) (h : r.setLevel level = .ok r') :
    Changed (withLevel l) r r' := by
  obtain ⟨l', hread', hchanged⟩ := setLevel_cases h
  obtain rfl := Option.some.inj (Except.ok.inj (hread.symm.trans hread'))
  exact hchanged

/-- The level that is configured is the one read. -/
theorem changed_of_configure {level format : Datum} {target : Target} {l : LogLevel}
    (hread : LogLevel.read level = .ok (some l)) (h : r.configure level format target = .ok r') :
    ∃ f, chooseFormat format = .ok f ∧ Changed (withHandler ⟨l, target, f⟩) r r' := by
  obtain ⟨l', f, hread', hf, hchanged⟩ := configure_cases h
  obtain rfl := Option.some.inj (Except.ok.inj (hread.symm.trans hread'))
  exact ⟨f, hf, hchanged⟩

/-- What is set up from outside is the logger of a name, new or as it was, apart from its level and
its handlers. -/
theorem setUpOutside_cases {name level : Datum} {handlers : Nat}
    (h : r.setUpOutside name level handlers = .ok r') :
    ∃ l l', r' = r.put l' ∧ l'.name = l.name ∧ l'.propagate = l.propagate ∧
      (r.find? l.name = some l ∨ r.find? l.name = none) := by
  unfold setUpOutside at h
  obtain ⟨name, -, h⟩ := bind_eq_ok h
  obtain ⟨level, -, h⟩ := bind_eq_ok h
  refine ⟨(r.find? name).getD ⟨name, level, [], true⟩, _, (Except.ok.inj h).symm, rfl, rfl, ?_⟩
  cases hfind : r.find? name with
  | none => exact .inr hfind
  | some l =>
    refine .inl ?_
    change r.find? l.name = some l
    rw [name_of_find? hfind, hfind]

end Steps

/-- The logger of a name was set up by the package: it follows the changes of level, and does not
pass records on. -/
def Owns (r : Registry) (name : String) : Prop :=
  r.cached.contains name ∧ ∃ l, r.find? name = some l ∧ l.propagate = false

section Owns

variable {r r' : Registry} {name : String}

/-- A change of all loggers asked for reaches a logger that the package has set up. -/
theorem Owns.find?_changed (h : r.Owns name) {f : Logger → Logger} (hr : Changed f r r') :
    ∃ l, r.find? name = some l ∧ l.propagate = false ∧ r'.find? name = some (f l) := by
  obtain ⟨hcached, l, hfind, hpropagate⟩ := h
  refine ⟨l, hfind, hpropagate, ?_⟩
  rw [hr.find?, hfind, Option.map_some, if_pos hcached]

theorem Owns.changed (h : r.Owns name) {f : Logger → Logger} (hr : Changed f r r')
    (hf : ∀ l, (f l).propagate = l.propagate) : r'.Owns name := by
  obtain ⟨l, -, hpropagate, hfind⟩ := h.find?_changed hr
  exact ⟨by rw [hr.cached]; exact h.1, f l, hfind, (hf l).trans hpropagate⟩

theorem Owns.request (h : r.Owns name) (other : String) : (r.request other).1.Owns name := by
  obtain ⟨hcached, l, hfind, hpropagate⟩ := h
  rcases request_cases r other with hr | ⟨hnew, l', rfl, hr⟩
  · rw [hr]
    exact ⟨hcached, l, hfind, hpropagate⟩
  · have hname : l'.name ≠ name := by
      rintro rfl
      cases (hnew hcached).symm.trans hfind
    rw [hr]
    refine ⟨?_, l, ?_, hpropagate⟩
    · simp only [List.contains_append, hcached, Bool.true_or]
    · change (r.put l').find? name = _
      rw [find?_put, if_neg hname, hfind]

theorem Owns.setLevel (h : r.Owns name) {level : Datum} (hr : r.setLevel level = .ok r') :
    r'.Owns name := by
  obtain ⟨l, -, hchanged⟩ := setLevel_cases hr
  exact h.changed hchanged fun _ => rfl

theorem Owns.configure (h : r.Owns name) {level format : Datum} {target : Target}
    (hr : r.configure level format target = .ok r') : r'.Owns name := by
  obtain ⟨l, f, -, -, hchanged⟩ := configure_cases hr
  exact h.changed hchanged fun _ => rfl

theorem Owns.setUpOutside (h : r.Owns name) {other level : Datum} {handlers : Nat}
    (hr : r.setUpOutside other level handlers = .ok r') : r'.Owns name := by
  obtain ⟨hcached, l, hfind, hpropagate⟩ := h
  obtain ⟨old, new, rfl, hname, hkept, hold⟩ := setUpOutside_cases hr
  refine ⟨by rwa [cached_put], ?_⟩
  rw [find?_put]
  split
  · rename_i heq
    subst heq
    rw [← hname] at hold
    refine ⟨new, rfl, ?_⟩
    rcases hold with hold | hold
    · cases hfind.symm.trans hold
      rw [hkept, hpropagate]
    · cases hfind.symm.trans hold
  · exact ⟨l, hfind, hpropagate⟩

end Owns

/-- The registries that the package can get to. -/
inductive Reachable : Registry → Prop
  | initial : Reachable initial
  | request {r : Registry} (h : Reachable r) (name : String) : Reachable (r.request name).1
  | setLevel {r r' : Registry} (h : Reachable r) {level : Datum} (hr : r.setLevel level = .ok r') :
    Reachable r'
  | configure {r r' : Registry} (h : Reachable r) {level format : Datum} {target : Target}
    (hr : r.configure level format target = .ok r') : Reachable r'
  | setUpOutside {r r' : Registry} (h : Reachable r) {name level : Datum} {handlers : Nat}
    (hr : r.setUpOutside name level handlers = .ok r') : Reachable r'

/-- From the start, the sources of events are loggers that the package has set up. -/
theorem initial_owns (e : Event Float) : initial.Owns e.source := by
  have hassembly : initial.Owns "eqqp.convex.assemble" :=
    ⟨by decide, setUp .standard "eqqp.convex.assemble", by decide, rfl⟩
  have hsolver : initial.Owns "eqqp.convex.equality_qp" :=
    ⟨by decide, setUp .standard "eqqp.convex.equality_qp", by decide, rfl⟩
  cases e with
  | assembled => exact hassembly
  | positiveDefinite | notPositiveDefinite | constraintsMissed | residuals => exact hsolver

/-- Whatever happens to the registry, the sources of events are loggers that the package has set up.
-/
theorem Reachable.owns {r : Registry} (h : Reachable r) (e : Event Float) : r.Owns e.source := by
  induction h with
  | initial => exact initial_owns e
  | request _ name ih => exact ih.request name
  | setLevel _ hr ih => exact ih.setLevel hr
  | configure _ hr ih => exact ih.configure hr
  | setUpOutside _ hr ih => exact ih.setUpOutside hr

end QuadraticProgram.Registry
