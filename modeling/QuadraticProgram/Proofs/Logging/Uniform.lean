import Mathlib.Data.List.Nodup
import QuadraticProgram.Proofs.Logging.Registry

/-! # All loggers of the package are alike

As long as nobody else sets up loggers of the package, each one that was asked for has one handler,
is at the level that was set last together with that handler, and does not pass records on. It makes
no difference whether it was first asked for before or after the level was set.
-/

namespace QuadraticProgram.Registry

/-- The names of the loggers that belong to the package. -/
def PackageName (name : String) : Prop := name = "eqqp" ∨ "eqqp.".toList <+: name.toList

theorem packageName_fullName (name : Option String) : PackageName (fullName name) := by
  cases name with
  | none => exact .inl rfl
  | some n =>
    unfold fullName
    dsimp only
    split
    · rename_i h
      rw [Bool.or_eq_true, decide_eq_true_iff, List.isPrefixOf_iff_prefix] at h
      exact h
    · refine .inr ?_
      rw [String.toList_append]
      exact List.prefix_append _ _

/-- The loggers of the package are those that were asked for, each under its own name, and all are
at the level that new ones get: with one handler, of the same level, and without propagation. -/
structure Uniform (r : Registry) (level : LogLevel) : Prop where
  defaultLevel : r.defaultLevel = level
  nodup : r.cached.Nodup
  package : ∀ name ∈ r.cached, PackageName name
  logger : ∀ name ∈ r.cached, ∃ h : Handler, h.level = level ∧
    r.find? name = some ⟨name, level, [h], false⟩
  unknown : ∀ name, PackageName name → name ∉ r.cached → r.find? name = none

section Steps

variable {r r' : Registry} {level : LogLevel}

theorem uniform_nil (level : LogLevel) : Uniform ⟨[], [], level⟩ level :=
  ⟨rfl, List.nodup_nil, nofun, nofun, fun _ _ _ => rfl⟩

theorem request_of_cached {name : String} {l : Logger} (hmem : name ∈ r.cached)
    (hfind : r.find? name = some l) : r.request name = (r, l) := by
  rw [request, hfind]
  exact if_pos (List.contains_iff_mem.mpr hmem)

theorem request_of_unknown {name : String} (hfind : r.find? name = none) :
    r.request name = ({ r.put (setUp r.defaultLevel name) with cached := r.cached ++ [name] },
      setUp r.defaultLevel name) := by
  rw [request, hfind]
  dsimp only
  rw [cached_put]

/-- The logger that was asked for is found under its name. -/
theorem find?_request (r : Registry) (name : String) :
    (r.request name).1.find? name = some (r.request name).2 := by
  have hput : ∀ (l : Logger) (cached : List String), l.name = name →
      Registry.find? { r.put l with cached } name = some l := by
    intro l cached hl
    exact (find?_put r l name).trans (if_pos hl)
  unfold request
  cases hfind : r.find? name with
  | none => exact hput _ _ rfl
  | some l =>
    dsimp only
    split
    · exact hfind
    · refine hput _ _ ?_
      split
      · rfl
      · exact name_of_find? hfind

@[simp] theorem defaultLevel_put (r : Registry) (l : Logger) :
    (r.put l).defaultLevel = r.defaultLevel := by
  unfold put
  split <;> rfl

/-- A logger of the package that is asked for is like all others, which stay as they are. -/
theorem Uniform.request (h : Uniform r level) {name : String} (hname : PackageName name) :
    Uniform (r.request name).1 level ∧ name ∈ (r.request name).1.cached ∧
      ∃ handler : Handler, handler.level = level ∧
        (r.request name).2 = ⟨name, level, [handler], false⟩ := by
  by_cases hmem : name ∈ r.cached
  · obtain ⟨handler, hlevel, hfind⟩ := h.logger name hmem
    rw [request_of_cached hmem hfind]
    exact ⟨h, hmem, handler, hlevel, rfl⟩
  · rw [request_of_unknown (h.unknown name hname hmem), h.defaultLevel]
    have hfind : ∀ other, Registry.find?
        { r.put (setUp level name) with cached := r.cached ++ [name] } other =
          if name = other then some (setUp level name) else r.find? other :=
      find?_put r (setUp level name)
    refine ⟨⟨(defaultLevel_put r _).trans h.defaultLevel, ?_, ?_, ?_, ?_⟩, ?_, _, rfl, rfl⟩
    · rw [← List.concat_eq_append]
      exact List.Nodup.concat hmem h.nodup
    · intro other hother
      rcases List.mem_append.mp hother with hother | hother
      · exact h.package other hother
      · rw [List.mem_singleton.mp hother]
        exact hname
    · -- The new logger is like the others, which are found as before.
      intro other hother
      rw [hfind]
      by_cases hsame : name = other
      · subst hsame
        exact ⟨_, rfl, if_pos rfl⟩
      · rw [if_neg hsame]
        exact h.logger other ((List.mem_append.mp hother).resolve_right
          fun hother => hsame (List.mem_singleton.mp hother).symm)
    · intro other hother hnew
      rw [hfind, if_neg]
      · exact h.unknown other hother fun hmem => hnew (List.mem_append_left _ hmem)
      · rintro rfl
        exact hnew (List.mem_append_right _ (List.mem_singleton_self name))
    · exact List.mem_append_right _ (List.mem_singleton_self name)

/-- A change that reaches all loggers of the package makes them alike at another level. -/
theorem Uniform.changed (h : Uniform r level) {f : Logger → Logger} (hr : Changed f r r')
    (hf : ∀ name (handler : Handler), ∃ handler' : Handler, handler'.level = r'.defaultLevel ∧
      f ⟨name, level, [handler], false⟩ = ⟨name, r'.defaultLevel, [handler'], false⟩) :
    Uniform r' r'.defaultLevel := by
  refine ⟨rfl, hr.cached ▸ h.nodup, hr.cached ▸ h.package, fun name hmem => ?_,
    fun name hname hnew => ?_⟩
  · rw [hr.cached] at hmem
    obtain ⟨handler, -, hfind⟩ := h.logger name hmem
    obtain ⟨handler', hlevel, hnew⟩ := hf name handler
    refine ⟨handler', hlevel, ?_⟩
    rw [hr.find?, hfind, Option.map_some, if_pos (List.contains_iff_mem.mpr hmem), hnew]
  · rw [hr.cached] at hnew
    rw [hr.find?, h.unknown name hname hnew]
    rfl

theorem Uniform.setLevel (h : Uniform r level) {d : Datum} (hr : r.setLevel d = .ok r') :
    ∃ l, LogLevel.read d = .ok (some l) ∧ Uniform r' l := by
  obtain ⟨l, hread, rfl⟩ := setLevel_spec hr
  refine ⟨l, hread, h.changed (changed_mapCached (f := withLevel l) (fun _ => rfl) r l)
    fun name handler => ?_⟩
  exact ⟨{ handler with level := l }, rfl, rfl⟩

theorem Uniform.configure (h : Uniform r level) {d format : Datum} {target : Target}
    (hr : r.configure d format target = .ok r') :
    ∃ l, LogLevel.read d = .ok (some l) ∧ Uniform r' l := by
  obtain ⟨l, f, hread, -, rfl⟩ := configure_spec hr
  refine ⟨l, hread, h.changed
    (changed_mapCached (f := withHandler ⟨l, target, f⟩) (fun _ => rfl) r l) fun name handler => ?_⟩
  exact ⟨⟨l, target, f⟩, rfl, rfl⟩

/-- Loggers of others make no difference to those of the package. -/
theorem Uniform.put (h : Uniform r level) {l : Logger} (hl : ¬PackageName l.name) :
    Uniform (r.put l) level := by
  have hfind : ∀ name, PackageName name → (r.put l).find? name = r.find? name := by
    intro name hname
    rw [find?_put, if_neg]
    rintro rfl
    exact hl hname
  refine ⟨(defaultLevel_put r l).trans h.defaultLevel, ?_, ?_, ?_, ?_⟩
  · rw [cached_put]
    exact h.nodup
  · rw [cached_put]
    exact h.package
  · intro name hmem
    rw [cached_put] at hmem
    rw [hfind name (h.package name hmem)]
    exact h.logger name hmem
  · intro name hname hnew
    rw [cached_put] at hnew
    rw [hfind name hname]
    exact h.unknown name hname hnew

theorem Uniform.setUpOutside (h : Uniform r level) {name d : Datum} {handlers : Nat}
    (hname : ∀ full, readFullName name = .ok full → ¬PackageName full)
    (hr : r.setUpOutside name d handlers = .ok r') : Uniform r' level := by
  unfold Registry.setUpOutside at hr
  obtain ⟨full, hfull, hr⟩ := bind_eq_ok hr
  obtain ⟨l, -, hr⟩ := bind_eq_ok hr
  obtain rfl := Except.ok.inj hr
  have hkept : ((r.find? full).getD ⟨full, l, [], true⟩).name = full := by
    cases hfind : r.find? full with
    | none => rfl
    | some l' => exact name_of_find? hfind
  refine h.put ?_
  dsimp only
  rw [hkept]
  exact hname full hfull

end Steps

section Runs

/-- What is asked of the loggers of the package. What is set up from outside belongs to others. -/
inductive Call
  | getLogger (name : Option String)
  | setLevel (level : Datum)
  | configure (level format : Datum) (target : Target)
  | setUpOutside (name level : Datum) (handlers : Nat)
    (h : ∀ full, readFullName name = .ok full → ¬PackageName full)

namespace Call

def perform (r : Registry) : Call → Except (Fault Float) Registry
  | getLogger name => .ok (r.getLogger name).1
  | setLevel level => r.setLevel level
  | configure level format target => r.configure level format target
  | setUpOutside name level handlers _ => r.setUpOutside name level handlers

/-- The level that a call sets for all loggers, if it is carried out. -/
def level? : Call → Option LogLevel
  | setLevel level | configure level _ _ =>
    match LogLevel.read level with
    | .ok l => l
    | .error _ => none
  | _ => none

end Call

/-- The registry after calls, the latest first. A call that is refused leaves it as it was. -/
def after : List Call → Registry
  | [] => initial
  | c :: earlier =>
    match c.perform (after earlier) with
    | .ok r => r
    | .error _ => after earlier

/-- The level that was set last by a call that was carried out. -/
def lastLevel : List Call → LogLevel
  | [] => LogLevel.standard
  | c :: earlier =>
    match c.perform (after earlier) with
    | .ok _ => c.level?.getD (lastLevel earlier)
    | .error _ => lastLevel earlier

theorem uniform_initial : Uniform initial LogLevel.standard := by
  have hassemble : PackageName "eqqp.convex.assemble" := .inr (by decide)
  have hsolver : PackageName "eqqp.convex.equality_qp" := .inr (by decide)
  exact (((uniform_nil LogLevel.standard).request hassemble).1.request hsolver).1

theorem Uniform.perform {r r' : Registry} {level : LogLevel} (h : Uniform r level) {c : Call}
    (hr : c.perform r = .ok r') : Uniform r' (c.level?.getD level) := by
  cases c with
  | getLogger name =>
    obtain rfl := Except.ok.inj hr
    exact (h.request (packageName_fullName name)).1
  | setLevel d =>
    obtain ⟨l, hread, hnew⟩ := h.setLevel hr
    rw [Call.level?, hread]
    exact hnew
  | configure d format target =>
    obtain ⟨l, hread, hnew⟩ := h.configure hr
    rw [Call.level?, hread]
    exact hnew
  | setUpOutside name d handlers hname => exact h.setUpOutside hname hr

theorem uniform_run (calls : List Call) : Uniform (after calls) (lastLevel calls) := by
  induction calls with
  | nil => exact uniform_initial
  | cons c earlier ih =>
    rw [after, lastLevel]
    cases hr : c.perform (after earlier) with
    | ok r => exact ih.perform hr
    | error e => exact ih

/-- After all calls, every logger that was asked for is kept under its own name, a name of the
package, with one handler and without propagation, and it and its handler are at the level that was
set last. So is every logger that is asked for then. Two names stand for one logger if and only if
their full names are the same. A call that is refused for a level that has no name changes
nothing. -/
theorem uniform_after (calls : List Call) :
    let r := after calls
    let level := lastLevel calls
    r.defaultLevel = level ∧ r.cached.Nodup ∧
    (∀ name ∈ r.cached, PackageName name ∧
      ∃ h : Handler, h.level = level ∧ r.find? name = some ⟨name, level, [h], false⟩) ∧
    (∀ name, fullName name ∈ (r.getLogger name).1.cached ∧
      ∃ h : Handler, h.level = level ∧ (r.getLogger name).2 = ⟨fullName name, level, [h], false⟩) ∧
    (∀ name name', ((r.getLogger name).1.getLogger name').2 = (r.getLogger name).2 ↔
      fullName name' = fullName name) ∧
    ∀ text format target, LogLevel.ofName? text = none →
      r.setLevel (.text text) = .error (.unknownLevel text) ∧
      r.configure (.text text) format target = .error (.unknownLevel text) ∧
      after (.setLevel (.text text) :: calls) = r ∧
      after (.configure (.text text) format target :: calls) = r := by
  intro r level
  have h : Uniform r level := uniform_run calls
  have hget := fun name => h.request (packageName_fullName name)
  refine ⟨h.defaultLevel, h.nodup, fun name hmem => ⟨h.package name hmem, h.logger name hmem⟩,
    fun name => (hget name).2, fun name name' => ?_, fun text format target hnone => ?_⟩
  · obtain ⟨hnew, hcached, handler, hlevel, hlogger⟩ := hget name
    constructor
    · intro hsame
      obtain ⟨-, -, handler', -, hlogger'⟩ := hnew.request (packageName_fullName name')
      exact congrArg Logger.name (hlogger'.symm.trans (hsame.trans hlogger))
    · intro hsame
      rw [getLogger, hsame]
      exact congrArg Prod.snd (request_of_cached hcached (find?_request r (fullName name)))
  · have hread : LogLevel.read (.text text) = .error (.unknownLevel text) := by
      rw [LogLevel.read, hnone]
    have hset : r.setLevel (.text text) = .error (.unknownLevel text) := by
      rw [Registry.setLevel, LogLevel.require, hread]
      rfl
    have hconfigure : r.configure (.text text) format target = .error (.unknownLevel text) := by
      rw [Registry.configure, hread]
      rfl
    refine ⟨hset, hconfigure, ?_, ?_⟩
    · rw [after, Call.perform, hset]
    · rw [after, Call.perform, hconfigure]

end Runs

end QuadraticProgram.Registry
