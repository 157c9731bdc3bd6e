import Mathlib.Data.List.Basic
import QuadraticProgram.Proofs.Logging.Registry

/-! # What is written at a level

Once the level of all loggers is changed to one of positive rank, the level only decides which
events are written: what is written for an event is the same at every level that lets it through.
-/

namespace QuadraticProgram

/-- A directive without width or precision shows a text as it is. -/
theorem Text.Directive.write_text {lookUp : String → Option Showable} {key s : String}
    (h : lookUp key = some (.text s)) (leftOver : Option Showable) :
    Directive.write lookUp ⟨some key, [], none, none, 's'⟩ leftOver = some s := by
  simp [Directive.write, h, resolve, convert, Layout.described, Layout.text, fill]

/-- A record in the standard format. -/
theorem RecordFormat.write_standard (r : LogRecord) : RecordFormat.write RecordFormat.standard r =
    some ("[" ++ r.level.label ++ "] " ++ r.logger ++ ": " ++ r.message) := by
  have hparse : Text.Piece.parseFrom standard.toList.length standard.toList = some
      [.literal '[', .directive ⟨some "levelname", [], none, none, 's'⟩, .literal ']', .literal ' ',
        .directive ⟨some "name", [], none, none, 's'⟩, .literal ':', .literal ' ',
        .directive ⟨some "message", [], none, none, 's'⟩] := by decide
  have hlevel : field r "levelname" = some (.text r.level.label) := rfl
  have hlogger : field r "name" = some (.text r.logger) := rfl
  have hmessage : field r "message" = some (.text r.message) := rfl
  rw [write, Text.writeTemplate, hparse]
  simp only [Option.bind_eq_bind, Option.bind_some, Text.Piece.writeAll,
    Text.Directive.write_text hlevel, Text.Directive.write_text hlogger,
    Text.Directive.write_text hmessage]
  simp only [Option.map_some, String.join, List.foldl, Option.some.injEq]
  apply String.toList_injective
  simp [String.toList_append]

namespace Registry

/-- The record of an event. -/
def eventRecord (e : Event Float) : LogRecord :=
  ⟨e.source, .number e.severity.rank, e.text, e.template, e.arguments⟩

/-- The line that a handler writes for a record that it lets through. -/
def line? (target : Target) (format : String) (record : LogRecord) : Option LogLine :=
  (RecordFormat.write format record).map fun text => ⟨target, text⟩

/-- A logger that is at a level, with all its handlers, and does not pass records on. -/
structure AtLevel (l : Logger) (level : LogLevel) : Prop where
  logger : l.level = level
  handlers : ∀ h ∈ l.handlers, h.level = level
  propagate : l.propagate = false

theorem reach_of_not_propagate {l : Logger} (h : l.propagate = false) (parents : List Logger) :
    reach l parents = l.handlers := by
  cases parents with
  | nil => rfl
  | cons p rest => simp only [reach, h, Bool.false_eq_true, if_false]

theorem effectiveRank_of_ne_zero {l : Logger} (h : l.level.rank ≠ 0) (r : Registry) :
    r.effectiveRank l = l.level.rank := by
  simp [effectiveRank, h]

theorem atLevel_withLevel {l : Logger} (h : l.propagate = false) (level : LogLevel) :
    AtLevel (withLevel level l) level := by
  refine ⟨rfl, fun handler hmem => ?_, h⟩
  obtain ⟨_, -, rfl⟩ := List.mem_map.mp hmem
  rfl

theorem atLevel_withHandler {l : Logger} (h : l.propagate = false) (handler : Handler) :
    AtLevel (withHandler handler l) handler.level := by
  refine ⟨rfl, fun handler' hmem => ?_, h⟩
  rw [List.mem_singleton.mp hmem]

/-- What is written for a record that gets through the logger and its handlers. -/
theorem emit_of_le {l : Logger} {level : LogLevel} (hl : AtLevel l level) {r : Registry}
    {record : LogRecord} (hpos : 0 < record.level.rank)
    (heffective : r.effectiveRank l ≤ record.level.rank) (hle : level.rank ≤ record.level.rank) :
    r.emit l record = l.handlers.filterMap fun h => line? h.target h.format record := by
  rw [emit, reach_of_not_propagate hl.propagate, if_pos ⟨hpos, heffective⟩]
  apply List.filterMap_congr
  intro h hh
  rw [hl.handlers h hh, if_pos hle]
  rfl

/-- At a level of positive rank the level decides alone which records are written. -/
theorem emit_of_atLevel {l : Logger} {level : LogLevel} (hl : AtLevel l level)
    (hpos : 0 < level.rank) (r : Registry) (record : LogRecord) :
    r.emit l record = if level.rank ≤ record.level.rank then
      l.handlers.filterMap fun h => line? h.target h.format record else [] := by
  have heffective : r.effectiveRank l = level.rank := by
    rw [effectiveRank_of_ne_zero (by rw [hl.logger]; omega), hl.logger]
  by_cases hle : level.rank ≤ record.level.rank
  · rw [if_pos hle, emit_of_le hl (by omega) (by omega) hle]
  · rw [if_neg hle, emit, heffective, if_neg fun h => hle h.2]

/-- The lines that a registry writes for one event. -/
def linesOf (r : Registry) (e : Event Float) : List LogLine := r.writeEvents [e]

/-- The lines written for the events of a run, each with the severity of its event. -/
def rankedLines (r : Registry) (events : List (Event Float)) : List (Severity × LogLine) :=
  events.flatMap fun e => (r.linesOf e).map fun line => (e.severity, line)

/-- What is written for a run is written for its events one after the other. -/
theorem writeEvents_eq_rankedLines (r : Registry) (events : List (Event Float)) :
    r.writeEvents events = (r.rankedLines events).map Prod.snd := by
  simp [writeEvents, rankedLines, linesOf, List.map_flatMap, Function.comp_def]

theorem linesOf_of_find? {r : Registry} {e : Event Float} {l : Logger}
    (h : r.find? e.source = some l) : r.linesOf e = r.emit l (eventRecord e) := by
  simp [linesOf, writeEvents, h, eventRecord, name_of_find? h]

/-- What a logger that the package has set up writes once all loggers are changed to a level. -/
theorem Owns.linesOf_changed {r r' : Registry} {e : Event Float} (h : r.Owns e.source)
    {f : Logger → Logger} {level : LogLevel}
    (hf : ∀ l, l.propagate = false → AtLevel (f l) level) (hpos : 0 < level.rank)
    (hr : Changed f r r') : ∃ l, r.find? e.source = some l ∧
      r'.linesOf e = if level.rank ≤ e.severity.rank then
        (f l).handlers.filterMap fun h => line? h.target h.format (eventRecord e) else [] := by
  obtain ⟨l, hfind, hpropagate, hnew⟩ := h.find?_changed hr
  refine ⟨l, hfind, ?_⟩
  rw [linesOf_of_find? hnew, emit_of_atLevel (hf l hpropagate) hpos]
  rfl

theorem rankedLines_append (r : Registry) (es es' : List (Event Float)) :
    r.rankedLines (es ++ es') = r.rankedLines es ++ r.rankedLines es' := List.flatMap_append

/-- Every line comes from an event of its severity. -/
theorem mem_rankedLines_iff {r : Registry} {events : List (Event Float)} {p : Severity × LogLine} :
    p ∈ r.rankedLines events ↔ ∃ e ∈ events, e.severity = p.1 ∧ p.2 ∈ r.linesOf e := by
  simp only [rankedLines, List.mem_flatMap, List.mem_map, Prod.ext_iff]
  constructor
  · rintro ⟨e, he, line, hline, hseverity, rfl⟩
    exact ⟨e, he, hseverity, hline⟩
  · rintro ⟨e, he, hseverity, hline⟩
    exact ⟨e, he, p.2, hline, hseverity, rfl⟩

/-- How the level of all loggers can be changed. -/
inductive LevelChange
  | set
  | configure (format : Datum) (target : Target)

/-- Change the level of all loggers that were asked for. -/
def LevelChange.apply (c : LevelChange) (r : Registry) (level : Datum) :
    Except (Fault Float) Registry :=
  match c with
  | set => r.setLevel level
  | configure format target => r.configure level format target

/-- The lines for an event once it gets through a changed level. -/
def LevelChange.lines (c : LevelChange) (r : Registry) (e : Event Float) : List LogLine :=
  match c with
  | set =>
    (((r.find? e.source).map Logger.handlers).getD []).filterMap fun h =>
      line? h.target h.format (eventRecord e)
  | configure format target =>
    match chooseFormat format with
    | .ok f => (line? target f (eventRecord e)).toList
    | .error _ => []

/-- After a change of level, what is written for an event does not depend on the level, as long as
the level lets it through. -/
theorem Reachable.linesOf_apply {r r' : Registry} (hr : r.Reachable) {c : LevelChange}
    {level : Datum} {l : LogLevel} (hread : LogLevel.read level = .ok (some l)) (hpos : 0 < l.rank)
    (happly : c.apply r level = .ok r') (e : Event Float) :
    r'.linesOf e = if l.rank ≤ e.severity.rank then c.lines r e else [] := by
  cases c with
  | set =>
    obtain ⟨logger, hfind, hlines⟩ := (hr.owns e).linesOf_changed
      (fun _ hl => atLevel_withLevel hl l) hpos (changed_of_setLevel hread happly)
    rw [hlines, LevelChange.lines, hfind, withLevel, List.filterMap_map]
    rfl
  | configure format target =>
    obtain ⟨f, hf, hchanged⟩ := changed_of_configure hread happly
    obtain ⟨logger, hfind, hlines⟩ := (hr.owns e).linesOf_changed
      (fun _ hl => atLevel_withHandler hl ⟨l, target, f⟩) hpos hchanged
    rw [hlines, LevelChange.lines, hf, withHandler, List.filterMap_cons, List.filterMap_nil]
    dsimp only
    cases line? target f (eventRecord e) <;> rfl

/-- Of two levels, what is written at the higher one is what is written at the lower one for events
of at least its rank. -/
theorem Reachable.rankedLines_filter {r r₁ r₂ : Registry} (hr : r.Reachable) {c : LevelChange}
    {level₁ level₂ : Datum} {l₁ l₂ : LogLevel} (hread₁ : LogLevel.read level₁ = .ok (some l₁))
    (hread₂ : LogLevel.read level₂ = .ok (some l₂)) (hpos : 0 < l₁.rank) (hle : l₁.rank ≤ l₂.rank)
    (happly₁ : c.apply r level₁ = .ok r₁) (happly₂ : c.apply r level₂ = .ok r₂)
    (events : List (Event Float)) :
    r₂.rankedLines events = (r₁.rankedLines events).filter fun p => l₂.rank ≤ p.1.rank := by
  induction events with
  | nil => rfl
  | cons e events ih =>
    change (r₂.linesOf e).map _ ++ r₂.rankedLines events =
      ((r₁.linesOf e).map _ ++ r₁.rankedLines events).filter _
    rw [List.filter_append, ih, hr.linesOf_apply hread₁ hpos happly₁,
      hr.linesOf_apply hread₂ (by omega) happly₂]
    congr 1
    by_cases h : l₂.rank ≤ e.severity.rank
    · rw [if_pos h, if_pos (by omega), List.filter_eq_self.mpr]
      intro p hp
      obtain ⟨line, -, rfl⟩ := List.mem_map.mp hp
      exact decide_eq_true h
    · rw [if_neg h, List.map_nil, List.filter_eq_nil_iff.mpr]
      intro p hp
      have hseverity : p.1 = e.severity := by
        obtain ⟨line, -, rfl⟩ := List.mem_map.mp hp
        rfl
      rwa [hseverity, decide_eq_true_iff]

/-- A configuration without a format writes one line for each event that gets through. -/
theorem Reachable.linesOf_configure {r r' : Registry} (hr : r.Reachable) {level : Datum}
    {l : LogLevel} {target : Target} (hread : LogLevel.read level = .ok (some l))
    (hpos : 0 < l.rank) (happly : r.configure level .null target = .ok r') {e : Event Float}
    (hle : l.rank ≤ e.severity.rank) :
    r'.linesOf e = [⟨target, "[" ++ LogLevel.label (.number e.severity.rank) ++ "] " ++ e.source ++
      ": " ++ e.text⟩] := by
  have hlines := hr.linesOf_apply (c := .configure .null target) hread hpos happly e
  have hformat : chooseFormat .null = .ok RecordFormat.standard := rfl
  rw [hlines, if_pos hle, LevelChange.lines, hformat]
  dsimp only
  rw [line?, RecordFormat.write_standard]
  rfl

end Registry

end QuadraticProgram
