import QuadraticProgram.Program.Indexed
import QuadraticProgram.Proofs.Program.Renumbering

/-! # The dictionary keeps up with the variables

A program with a dictionary does what the program does that searches its variables: they answer all
operations and lookups alike, whether these succeed or fail. For this the dictionary has to have
exactly the positions of the variables of the program. New variables are entered before they are
appended, under numbers that were not given out before, so no other entry is overwritten.
-/

namespace QuadraticProgram

section Dictionary

variable {positions : AList fun _ : ℕ => ℕ} {vars : List Variable}

/-- A dictionary that has the positions of the variables of a list, and no other entries. -/
def Locates (positions : AList fun _ : ℕ => ℕ) (vars : List Variable) : Prop :=
  ∀ id i, positions.lookup id = some i ↔ ∃ v, vars[i]? = some v ∧ v.id = id

theorem locates_nil : Locates ∅ [] := by
  intro id i
  simp

/-- One more variable, with a number that is not there yet. -/
theorem Locates.insert (h : Locates positions vars) {v : Variable}
    (hv : ∀ w ∈ vars, w.id ≠ v.id) :
    Locates (positions.insert v.id vars.length) (vars ++ [v]) := by
  intro id i
  by_cases hid : id = v.id
  · subst hid
    rw [AList.lookup_insert]
    constructor
    · rintro ⟨⟩
      exact ⟨v, List.getElem?_concat_length, rfl⟩
    · rintro ⟨w, hw, hwid⟩
      rw [List.getElem?_append] at hw
      split at hw
      · exact absurd hwid (hv w (List.mem_of_getElem? hw))
      · have hi := (List.getElem?_eq_some_iff.mp hw).1
        rw [List.length_singleton] at hi
        exact congrArg some (by omega)
  · rw [AList.lookup_insert_ne hid, h id i]
    constructor
    · rintro ⟨w, hw, hwid⟩
      have hi := (List.getElem?_eq_some_iff.mp hw).1
      exact ⟨w, (List.getElem?_append_left hi).trans hw, hwid⟩
    · rintro ⟨w, hw, rfl⟩
      rw [List.getElem?_append] at hw
      split at hw
      · exact ⟨w, hw, rfl⟩
      · rw [List.mem_singleton.mp (List.mem_of_getElem? hw)] at hid
        exact absurd rfl hid

/-- Variables with new numbers are entered one by one. -/
theorem Locates.enterPositions (h : Locates positions vars) {fresh : List Variable}
    (hids : ((vars ++ fresh).map Variable.id).Nodup) :
    Locates (enterPositions positions vars.length fresh) (vars ++ fresh) := by
  induction fresh generalizing positions vars with
  | nil => rwa [List.append_nil]
  | cons v fresh ih =>
    have hv : ∀ w ∈ vars, w.id ≠ v.id := by
      intro w hw
      rw [List.map_append, List.nodup_append] at hids
      exact hids.2.2 _ (List.mem_map_of_mem hw) _ (List.mem_map_of_mem List.mem_cons_self)
    have happend : vars ++ v :: fresh = (vars ++ [v]) ++ fresh := List.append_cons ..
    have hrest := ih (h.insert hv) (happend ▸ hids)
    rwa [List.length_append, List.length_singleton, ← happend] at hrest

end Dictionary

namespace IndexedProgram

variable {δ α : Type} [Scalar α] {s : IndexedProgram α} {p : Program α} {k : ℕ}

section Lookup

/-- The dictionary has the positions of the variables of the program, and no other entries. -/
def Exact (s : IndexedProgram α) : Prop := Locates s.positions s.vars.toList

theorem Exact.lookup_eq_some_iff (h : s.Exact) {id i : ℕ} :
    s.positions.lookup id = some i ↔ ∃ v, s.vars[i]? = some v ∧ v.id = id := by
  rw [h id i, Array.getElem?_toList]

/-- The position in the dictionary is the position that a search finds. -/
theorem Exact.position_eq (h : s.Exact) (v : Variable) :
    s.position v = (s.toProgram.index v).map Fin.val := by
  cases hv : s.toProgram.index v with
  | ok i =>
    have hlookup : s.positions.lookup v.id = some i.val :=
      h.lookup_eq_some_iff.mpr ⟨s.vars[i], Array.getElem?_eq_getElem i.isLt, Program.id_of_index hv⟩
    rw [position, hlookup]
    rfl
  | error e =>
    have hlookup : s.positions.lookup v.id = none := by
      rw [Option.eq_none_iff_forall_ne_some]
      intro i hi
      obtain ⟨w, hw, hid⟩ := h.lookup_eq_some_iff.mp hi
      obtain ⟨j, hj⟩ := (s.toProgram.index_eq_ok_iff v).mpr ⟨w, Array.mem_of_getElem? hw, hid⟩
      cases hj.symm.trans hv
    rw [position, hlookup, Program.eq_of_index_eq_error hv]
    rfl

theorem Exact.place_eq (h : s.Exact) : s.place = s.toProgram.index := by
  funext v
  rw [place, h.position_eq]
  cases s.toProgram.index v with
  | error e => rfl
  | ok i => exact dif_pos i.isLt

theorem Exact.mapM_position (h : s.Exact) (vs : List Variable) :
    vs.mapM s.position = (vs.mapM s.toProgram.index).map (List.map Fin.val) := by
  rw [map_mapM, funext h.position_eq]

theorem Exact.checkFound_position (h : s.Exact) (vs : List Variable) :
    checkFound s.position vs = checkFound s.toProgram.index vs := by
  rw [checkFound, checkFound, h.mapM_position]
  cases vs.mapM s.toProgram.index with
  | error e => rfl
  | ok places => rfl

theorem Exact.solution_eq (h : s.Exact) (v : Variable) :
    s.solution v = s.toProgram.solution v := by
  rw [solution, Program.solution, h.position_eq]
  cases s.toProgram.index v with
  | error e => rfl
  | ok i => rfl

theorem Exact.solutions_eq (h : s.Exact) (vs : List Variable) :
    s.solutions vs = s.toProgram.solutions vs := by
  rw [solutions, Program.solutions, h.mapM_position]
  cases vs.mapM s.toProgram.index with
  | error e => rfl
  | ok places => exact List.mapM_map

theorem Exact.solveOutcome_eq (h : s.Exact) (F : Factorizations α) (checks : Bool) :
    s.solveOutcome F checks = s.toProgram.solveOutcome F checks := by
  rw [solveOutcome, h.place_eq, Program.solveOutcome]

end Lookup

section Simulation

/-- A program with an exact dictionary, and the same program without the dictionary. -/
def Represents (s : IndexedProgram α) (p : Program α) : Prop := s.toProgram = p ∧ s.Exact

/-- The dictionary stays exact if no variables are added. -/
theorem onFields_simulates {β : Type} {r : InPlace (Program α) α β} (hr : r.Keeps Program.vars) :
    InPlace.Simulates Represents (onFields r) r := by
  rintro s _ ⟨rfl, hs⟩
  refine ⟨rfl, rfl, ?_⟩
  change Locates s.positions (r.run s.toProgram).1.vars.toList
  rwa [hr s.toProgram]

theorem keeps_vars_write (w : Write α) : (Program.write w).Keeps Program.vars := by
  cases w with
  | values x =>
    exact ((InPlace.reads_check _).keeps _).bind fun _ => InPlace.keeps_write fun _ => rfl
  | cost a => exact InPlace.keeps_write fun _ => rfl
  | result r => exact InPlace.keeps_write fun _ => rfl

theorem keeps_vars_writeParts (ws : List (Write α)) :
    (Program.writeParts ws).Keeps Program.vars := by
  induction ws with
  | nil => exact fun _ => rfl
  | cons w ws ih => exact (keeps_vars_write w).bind fun _ => ih

theorem bind_simulates (e : Evaluator α) (vs : List Variable) :
    InPlace.Simulates Represents (IndexedProgram.bind e vs) (Program.bind e vs) := by
  apply (InPlace.simulates_ofExcept _).bind
  intro b
  have hcheck : InPlace.Simulates Represents
      (InPlace.check fun s : IndexedProgram α => checkFound s.position b.vars)
      (InPlace.check fun p : Program α => checkFound p.index b.vars) := by
    apply InPlace.simulates_check
    rintro s _ ⟨rfl, hs⟩
    exact hs.checkFound_position b.vars
  apply hcheck.bind
  intro _
  have happend : (InPlace.write fun p : Program α => p.appendBinding b).Keeps (α := α)
      Program.vars := InPlace.keeps_write fun _ => rfl
  exact (onFields_simulates happend).bind fun _ => InPlace.simulates_pure b

theorem solveInPlace_simulates (F : Factorizations α) (checks : Bool) :
    InPlace.Simulates Represents (solveInPlace F checks) (Program.solveInPlace F checks) := by
  have houtcome : InPlace.Simulates Represents
      (InPlace.observe fun s : IndexedProgram α => s.solveOutcome F checks)
      (InPlace.observe fun p : Program α => p.solveOutcome F checks) := by
    apply InPlace.simulates_observe
    rintro s _ ⟨rfl, hs⟩
    exact hs.solveOutcome_eq F checks
  apply houtcome.bind
  intro o
  exact (onFields_simulates (keeps_vars_writeParts _)).bind fun _ => InPlace.simulates_pure _

/-- New variables are in the dictionary before they are among the variables. Whether the request is
refused after that or not, they are in both. -/
theorem enter_represents (h : s.Exact) (count : VariableCount) {fresh : Array Variable}
    (hids : ((s.vars ++ fresh).toList.map Variable.id).Nodup) :
    InPlace.Agree Represents (enter count fresh) (Program.enter count fresh) s s.toProgram := by
  have hvars : ((Program.enter count fresh).run s.toProgram).1.vars = s.vars ++ fresh := by
    cases count with
    | number count => rfl
    | truth b => rfl
  refine ⟨rfl, rfl, ?_⟩
  change Locates (enterPositions s.positions s.vars.size fresh.toList)
    ((Program.enter count fresh).run s.toProgram).1.vars.toList
  rw [Array.toList_append] at hids
  rw [hvars, Array.toList_append]
  exact Locates.enterPositions h hids

/-- The same supply of numbers for a program with an exact dictionary and the one without it. -/
def Tracks (s : Supplied (IndexedProgram α)) (t : Supplied (Program α)) : Prop :=
  s.nextId = t.nextId ∧ Represents s.program t.program

theorem onProgram_simulates {β : Type} {r : InPlace (IndexedProgram α) α β}
    {r' : InPlace (Program α) α β} (hr : InPlace.Simulates Represents r r') :
    InPlace.Simulates Tracks (Supplied.onProgram r) (Supplied.onProgram r') := by
  rintro s t ⟨hnext, hprogram⟩
  obtain ⟨hrun, hleft⟩ := hr _ _ hprogram
  exact ⟨hrun, hnext, hleft⟩

/-- The numbers of new variables differ from those of the variables that are there already. -/
theorem newVariables_tracks (h : s.Exact) (hs : s.toProgram.Consistent k) (count : VariableCount)
    (name : String) :
    InPlace.Agree Tracks (Supplied.newVariables enter count name)
      (Supplied.newVariables Program.enter count name) ⟨s, k⟩ ⟨s.toProgram, k⟩ := by
  cases hsign : count.checkSign (α := α) with
  | error e =>
    rw [InPlace.Agree, Supplied.newVariables_of_error hsign, Supplied.newVariables_of_error hsign]
    exact ⟨rfl, rfl, rfl, h⟩
  | ok u =>
    rw [InPlace.Agree, Supplied.newVariables_of_ok hsign rfl, Supplied.newVariables_of_ok hsign rfl]
    have hids := (hs.append count.toNat name s.values).nodup_ids
    obtain ⟨hrun, hleft⟩ := enter_represents h count hids
    exact ⟨by rw [hrun], rfl, hleft⟩

variable [ArraySource δ α]

theorem add_simulates (spec : EvaluatorSpec δ α) (vs : List Variable) :
    InPlace.Simulates Represents (IndexedProgram.add spec vs) (Program.add spec vs) :=
  (InPlace.simulates_ofExcept _).bind fun e => bind_simulates e vs

/-- Every operation on a program with an exact dictionary does what it does on the program without
the dictionary, and leaves an exact dictionary behind, also if it is refused. -/
theorem operate_tracks (h : s.Exact) (hs : s.toProgram.Consistent k) (F : Factorizations α)
    (op : ProgramOp δ α) :
    InPlace.Agree Tracks (Supplied.operate (handlers F) op)
      (Supplied.operate (Program.handlers F) op) ⟨s, k⟩ ⟨s.toProgram, k⟩ := by
  have htracks : Tracks ⟨s, k⟩ ⟨s.toProgram, k⟩ := ⟨rfl, rfl, h⟩
  have hwrite (w : Write α) : InPlace.Simulates Represents
      (onFields (Program.write w) >>= fun _ => pure .done)
      (Program.write w >>= fun _ => pure (.done : ProgramAnswer α)) :=
    (onFields_simulates (keeps_vars_write w)).bind fun _ => InPlace.simulates_pure _
  cases op with
  | newVariables count name =>
    exact (newVariables_tracks h hs count name).bind fun _ => InPlace.simulates_pure _
  | add spec vs =>
    exact onProgram_simulates ((add_simulates spec vs).bind fun _ => InPlace.simulates_pure _) _ _
      htracks
  | setValues values =>
    apply onProgram_simulates _ _ _ htracks
    apply (InPlace.simulates_ofExcept (readVec values)).bind
    intro v
    exact hwrite (.values v)
  | setOptimalCost cost => exact onProgram_simulates (hwrite (.cost cost)) _ _ htracks
  | setSolverResult result => exact onProgram_simulates (hwrite (.result result)) _ _ htracks
  | solve checks =>
    exact onProgram_simulates ((solveInPlace_simulates F checks).bind fun _ =>
      InPlace.simulates_pure _) _ _ htracks

end Simulation

section Refused

theorem bind_guarded (e : Evaluator α) (vs : List Variable) :
    (IndexedProgram.bind e vs).Guarded := by
  apply (InPlace.reads_ofExcept _).bind_guarded
  intro b
  apply (InPlace.reads_check _).bind_guarded
  intro _
  exact (((InPlace.sure_write _).focus _ _).bind fun _ => InPlace.sure_pure b).guarded

theorem onFields_guarded {β : Type} {r : InPlace (Program α) α β} (hr : r.Guarded) :
    (onFields r).Guarded := hr.focus fun _ => rfl

variable [ArraySource δ α]

/-- The dictionary is written to right before the variables are appended, which cannot be refused
for a number of them. -/
theorem handlers_guarded (F : Factorizations α) : (handlers (δ := δ) F).Guarded where
  enter_number count fresh := (InPlace.sure_write _).bind fun _ =>
    ((Program.handlers_guarded (δ := δ) F).enter_number count fresh).focus _ _
  enter_none := fun _ _ _ => rfl
  add spec vs := (InPlace.reads_ofExcept _).bind_guarded fun e => bind_guarded e vs
  write w := onFields_guarded (Program.write_guarded w)
  solve checks := by
    apply (InPlace.reads_observe _).bind_guarded
    intro o
    exact (onFields_guarded (Program.writeParts_guarded o)).bind_sure fun _ => InPlace.sure_pure _

end Refused

section Reachable

variable [ArraySource δ α] {F : Factorizations α}

/-- The programs with a dictionary that operations can build, with the next free variable number.
Numbers may be given out elsewhere between two operations. -/
inductive Reachable (δ : Type) [ArraySource δ α] (F : Factorizations α) :
    IndexedProgram α → ℕ → Prop
  | empty (k : ℕ) : Reachable δ F empty k
  | operate {s : IndexedProgram α} {k k' : ℕ} (hs : Reachable δ F s k) (hk : k ≤ k')
      (op : ProgramOp δ α) :
      Reachable δ F (s.operate F k' op).1.program (s.operate F k' op).1.nextId

theorem Reachable.exact_reachable (hs : Reachable δ F s k) :
    s.Exact ∧ Program.Reachable δ F s.toProgram k := by
  induction hs with
  | empty k => exact ⟨locates_nil, .empty k⟩
  | operate hs hk op ih =>
    obtain ⟨hexact, hp⟩ := ih
    obtain ⟨-, hnext, hprogram, hleft⟩ := operate_tracks hexact (hp.consistent.mono hk) F op
    refine ⟨hleft, ?_⟩
    rw [IndexedProgram.operate, hprogram, hnext]
    exact hp.perform hk op

/-- Every program that operations can build has a dictionary that operations can build with it. -/
theorem exists_indexed (hp : Program.Reachable δ F p k) :
    ∃ s : IndexedProgram α, Reachable δ F s k ∧ s.toProgram = p := by
  induction hp with
  | empty k => exact ⟨empty, .empty k, rfl⟩
  | perform hp hk op ih =>
    obtain ⟨s, hs, rfl⟩ := ih
    obtain ⟨hexact, -⟩ := hs.exact_reachable
    obtain ⟨-, hnext, hprogram, -⟩ := operate_tracks hexact (hp.consistent.mono hk) F op
    have hnew := hs.operate hk op
    rw [operate, hnext] at hnew
    exact ⟨_, hnew, hprogram⟩

/-- Every program with a dictionary that operations can build: the dictionary has the numbers of its
variables at their positions, and no number else. Its lookups, its outcome and every operation on it
answer as those of the program without the dictionary, which operations can build, too. A refused
operation other than a request for a truth value's worth of variables leaves also the dictionary as
it was. -/
theorem Reachable.refines (hs : Reachable δ F s k) :
    Program.Reachable δ F s.toProgram k ∧
      (∀ id i, s.positions.lookup id = some i ↔ ∃ v, s.vars[i]? = some v ∧ v.id = id) ∧
      (∀ v, s.position v = (s.toProgram.index v).map Fin.val ∧
        s.solution v = s.toProgram.solution v) ∧
      (∀ vs, s.solutions vs = s.toProgram.solutions vs) ∧
      (∀ checks, s.solveOutcome F checks = s.toProgram.solveOutcome F checks) ∧
      ∀ k', k ≤ k' → ∀ op : ProgramOp δ α,
        ∃ s' : IndexedProgram α, s'.toProgram = (s.toProgram.perform F k' op).program ∧
          s.operate F k' op = (⟨s', (s.toProgram.perform F k' op).nextId⟩,
            ⟨(s.toProgram.perform F k' op).events, (s.toProgram.perform F k' op).answer⟩) ∧
          ∀ e, (s.toProgram.perform F k' op).answer = .error e →
            (∀ name, op ≠ .newVariables (.truth true) name) → s' = s := by
  obtain ⟨h, hp⟩ := hs.exact_reachable
  refine ⟨hp, fun id i => h.lookup_eq_some_iff, fun v => ⟨h.position_eq v, h.solution_eq v⟩,
    h.solutions_eq, h.solveOutcome_eq F, fun k' hk op => ?_⟩
  obtain ⟨hrun, hnext, hprogram, -⟩ := operate_tracks h (hp.consistent.mono hk) F op
  refine ⟨(s.operate F k' op).1.program, hprogram,
    Prod.ext (congrArg (Supplied.mk _) hnext) hrun, fun e he hop => ?_⟩
  exact congrArg Supplied.program (Supplied.operate_guarded (handlers_guarded F) op hop ⟨s, k'⟩ e
    ((congrArg Logged.result hrun).trans he))

end Reachable

end IndexedProgram

end QuadraticProgram
