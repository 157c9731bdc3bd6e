import QuadraticProgram.Proofs.Program.History

/-! # What the solver refuses

A program is refused if it holds a binding that the solver cannot handle. What it is refused for are
the kinds of such bindings, each once and in the order of all kinds; how many bindings of a kind
there are, and in which order they were added, makes no difference.
-/

namespace QuadraticProgram

variable {δ α : Type} [Scalar α] [ArraySource δ α]

theorem Kind.isSupported_iff (k : Kind) :
    k.isSupported = true ↔ k = .quadraticCost ∨ k = .linearEquality := by
  cases k <;> decide

theorem Kind.isSupported_eq_false_iff (k : Kind) :
    k.isSupported = false ↔ k ≠ .quadraticCost ∧ k ≠ .linearEquality := by
  cases k <;> decide

namespace Program

variable {p q : Program α}

/-- There is a binding of a kind. -/
def Holds (p : Program α) (k : Kind) : Prop := ∃ b ∈ p.bindings, b.kind = k

theorem any_kind_eq_true_iff (p : Program α) (k : Kind) :
    (p.bindings.any fun b => b.kind = k) = true ↔ p.Holds k := by
  rw [Array.any_eq_true']
  simp only [decide_eq_true_iff, Holds]

theorem mem_unsupportedKinds_iff (p : Program α) (k : Kind) :
    k ∈ p.unsupportedKinds ↔ k.isSupported = false ∧ p.Holds k := by
  rw [unsupportedKinds, kinds, List.mem_filter, List.mem_filter, any_kind_eq_true_iff,
    Bool.not_eq_true', and_iff_right (Kind.mem_all k), and_comm]

theorem unsupportedKinds_sublist (p : Program α) : p.unsupportedKinds.Sublist Kind.all :=
  List.filter_sublist.trans List.filter_sublist

/-- Only whether bindings of the kinds that the solver cannot handle are there makes a
difference. -/
theorem unsupportedKinds_congr (h : ∀ k, k.isSupported = false → (q.Holds k ↔ p.Holds k)) :
    q.unsupportedKinds = p.unsupportedKinds := by
  rw [unsupportedKinds, unsupportedKinds, kinds, kinds, List.filter_filter, List.filter_filter]
  apply List.filter_congr
  intro k _
  cases hk : k.isSupported with
  | true => rfl
  | false => rw [Bool.eq_iff_iff.mpr ((q.any_kind_eq_true_iff k).trans
      ((h k hk).trans (p.any_kind_eq_true_iff k).symm))]

theorem checkSupported_congr (h : ∀ k, k.isSupported = false → (q.Holds k ↔ p.Holds k)) :
    q.checkSupported = p.checkSupported := by
  rw [checkSupported, checkSupported, unsupportedKinds_congr h]

theorem checkSupported_eq_error_iff (p : Program α) (e : Fault α) : p.checkSupported = .error e ↔
    p.unsupportedKinds ≠ [] ∧ e = .unsupported p.unsupportedKinds := by
  rw [checkSupported]
  cases h : p.unsupportedKinds with
  | nil => simp
  | cons k ks => simp [eq_comm]

/-- Bindings that the solver can handle do not add to what a program is refused for. -/
theorem holds_after_iff {F : Factorizations α} {k : ℕ} {h : History δ α}
    (hb : ∀ b ∈ (History.after F (p, k) h).1.bindings, b ∈ p.bindings ∨ b.kind.isSupported = true)
    (kind : Kind) (hkind : kind.isSupported = false) :
    (History.after F (p, k) h).1.Holds kind ↔ p.Holds kind := by
  constructor
  · rintro ⟨b, hmem, rfl⟩
    rcases hb b hmem with hold | hsupported
    · exact ⟨b, hold, rfl⟩
    · cases hsupported.symm.trans hkind
  · rintro ⟨b, hmem, rfl⟩
    obtain ⟨newer, hnewer⟩ := History.exists_after_bindings F (p, k) h
    refine ⟨b, ?_, rfl⟩
    rw [hnewer]
    exact Array.mem_append_left newer hmem

/-- A program is refused exactly for the bindings that are neither quadratic costs nor equalities.
The error names the kinds of these bindings, each once and in the order of all kinds. It depends
only on which such kinds there are, so neither the order nor the number of bindings matters, and
operations that add supported bindings only, or copies of old ones, do not change the answer. -/
theorem checkSupported_refuses (F : Factorizations α) (p : Program α) :
    ((∃ e, p.checkSupported = .error e) ↔
      ∃ b ∈ p.bindings, b.kind ≠ .quadraticCost ∧ b.kind ≠ .linearEquality) ∧
    (∀ e, p.checkSupported = .error e → ∃ kinds, e = .unsupported kinds ∧
      kinds.Sublist Kind.all ∧ kinds.Nodup ∧
      ∀ kind, kind ∈ kinds ↔
        (kind ≠ .quadraticCost ∧ kind ≠ .linearEquality) ∧ ∃ b ∈ p.bindings, b.kind = kind) ∧
    (∀ q : Program α, (∀ kind, kind ≠ .quadraticCost ∧ kind ≠ .linearEquality →
      ((∃ b ∈ q.bindings, b.kind = kind) ↔ ∃ b ∈ p.bindings, b.kind = kind)) →
      q.checkSupported = p.checkSupported) ∧
    ∀ (k : ℕ) (h : History δ α),
      (∀ b ∈ (History.after F (p, k) h).1.bindings, b ∈ p.bindings ∨
        b.kind = .quadraticCost ∨ b.kind = .linearEquality) →
      (History.after F (p, k) h).1.checkSupported = p.checkSupported := by
  have hmem (kind : Kind) : kind ∈ p.unsupportedKinds ↔
      (kind ≠ .quadraticCost ∧ kind ≠ .linearEquality) ∧ ∃ b ∈ p.bindings, b.kind = kind := by
    rw [mem_unsupportedKinds_iff, Kind.isSupported_eq_false_iff]
    rfl
  refine ⟨?_, ?_, ?_, ?_⟩
  · simp only [checkSupported_eq_error_iff]
    constructor
    · rintro ⟨-, hkinds, -⟩
      obtain ⟨kind, hkind⟩ := List.exists_mem_of_ne_nil _ hkinds
      obtain ⟨hneither, b, hb, rfl⟩ := (hmem kind).mp hkind
      exact ⟨b, hb, hneither⟩
    · rintro ⟨b, hb, hneither⟩
      exact ⟨_, List.ne_nil_of_mem ((hmem b.kind).mpr ⟨hneither, b, hb, rfl⟩), rfl⟩
  · intro e he
    obtain ⟨-, rfl⟩ := (p.checkSupported_eq_error_iff e).mp he
    exact ⟨_, rfl, p.unsupportedKinds_sublist,
      p.unsupportedKinds_sublist.nodup Kind.nodup_all, hmem⟩
  · intro q hq
    exact checkSupported_congr fun kind hkind =>
      hq kind ((Kind.isSupported_eq_false_iff kind).mp hkind)
  · intro k h hb
    refine checkSupported_congr (holds_after_iff fun b hmem => ?_)
    exact (hb b hmem).imp_right (Kind.isSupported_iff b.kind).mpr

end Program

end QuadraticProgram
