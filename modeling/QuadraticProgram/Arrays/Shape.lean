/-! # Shapes of arrays

A shape lists the extent of every axis; the empty list is the shape of a single number. Two shapes
are aligned at the last axis; an axis that is missing or has extent one stands for any extent.
-/

namespace QuadraticProgram

/-- The extents of the axes, outermost first. -/
abbrev Shape := List Nat

namespace Shape

/-- How many entries an array of this shape has. -/
def size (s : Shape) : Nat := s.foldr (· * ·) 1

@[simp] theorem size_nil : size [] = 1 := rfl

@[simp] theorem size_cons (n : Nat) (s : Shape) : size (n :: s) = n * size s := rfl

@[simp] theorem size_append (s t : Shape) : size (s ++ t) = size s * size t := by
  induction s with
  | nil => simp
  | cons n s ih => simp [ih, Nat.mul_assoc]

@[simp] theorem size_reverse (s : Shape) : size s.reverse = size s := by
  induction s with
  | nil => rfl
  | cons n s ih => simp [ih, Nat.mul_comm]

@[simp] theorem size_replicate_one (k : Nat) : size (List.replicate k 1) = 1 := by
  induction k with
  | zero => rfl
  | succ k ih => simp [List.replicate_succ, ih]

/-- The extents between parentheses; a single extent is followed by a comma. -/
def text : Shape → String
  | [n] => "(" ++ toString n ++ ",)"
  | s => "(" ++ String.intercalate ", " (s.map toString) ++ ")"

/-- The common extents of two aligned shapes, listed from the last axis. -/
def alignReversed : Shape → Shape → Option Shape
  | [], t => some t
  | s, [] => some s
  | a :: s, b :: t =>
    if a = b ∨ b = 1 then (alignReversed s t).map (a :: ·)
    else if a = 1 then (alignReversed s t).map (b :: ·)
    else none

/-- Whether every axis of a shape has extent one or the extent of the same axis of a larger shape,
both listed from the last axis. -/
def Fits : Shape → Shape → Prop
  | [], _ => True
  | _ :: _, [] => False
  | a :: s, b :: t => (a = 1 ∨ a = b) ∧ Fits s t

theorem fits_self (s : Shape) : Fits s s := by
  induction s with
  | nil => trivial
  | cons a s ih => exact ⟨.inr rfl, ih⟩

/-- Both shapes fit the shape that they have in common. -/
theorem fits_of_alignReversed {s t r : Shape} (h : alignReversed s t = some r) :
    Fits s r ∧ Fits t r := by
  induction s generalizing t r with
  | nil =>
    simp only [alignReversed, Option.some.injEq] at h
    subst h
    exact ⟨trivial, fits_self _⟩
  | cons a s ih =>
    cases t with
    | nil =>
      simp only [alignReversed, Option.some.injEq] at h
      subst h
      exact ⟨fits_self _, trivial⟩
    | cons b t =>
      simp only [alignReversed] at h
      split at h
      · rename_i hab
        obtain ⟨q, hq, rfl⟩ := Option.map_eq_some_iff.mp h
        exact ⟨⟨.inr rfl, (ih hq).1⟩, ⟨hab.symm.imp id Eq.symm, (ih hq).2⟩⟩
      · split at h
        · rename_i ha
          obtain ⟨q, hq, rfl⟩ := Option.map_eq_some_iff.mp h
          exact ⟨⟨.inl ha, (ih hq).1⟩, ⟨.inr rfl, (ih hq).2⟩⟩
        · cases h

/-- The place in an array of shape `s` that stands at position `p` of a larger shape, both shapes
listed from the last axis. -/
def sourceReversed : (s larger : Shape) → (p : Nat) → Nat
  | a :: s, b :: larger, p =>
    (if a = 1 then 0 else p % b) + a * sourceReversed s larger (p / b)
  | _, _, _ => 0

/-- The place found lies in the smaller array. -/
theorem sourceReversed_lt {s r : Shape} {p : Nat} (h : Fits s r) (hp : p < size r) :
    sourceReversed s r p < size s := by
  induction s generalizing r p with
  | nil => simp [sourceReversed]
  | cons a s ih =>
    cases r with
    | nil => exact h.elim
    | cons b r =>
      have hb : 0 < b := Nat.pos_of_ne_zero fun hb => by simp [hb] at hp
      have hq := ih h.2 (Nat.div_lt_of_lt_mul hp)
      have hr : (if a = 1 then 0 else p % b) < a := by
        split
        · omega
        · rcases h.1 with ha | ha
          · contradiction
          · rw [ha]
            exact Nat.mod_lt _ hb
      calc
        _ < a + a * sourceReversed s r (p / b) := Nat.add_lt_add_right hr _
        _ = a * (sourceReversed s r (p / b) + 1) := by rw [Nat.mul_add, Nat.mul_one, Nat.add_comm]
        _ ≤ a * size s := Nat.mul_le_mul_left _ hq

/-- The shape with given extents for a known number of entries, if these fill it. One extent may be
unknown, which a negative number says; it is what the others leave. -/
def complete? (extents : List Int) (count : Nat) : Option Shape :=
  let known := size ((extents.filter fun k => !decide (k < 0)).map Int.toNat)
  match extents.countP fun k => decide (k < 0) with
  | 0 => if known = count then some (extents.map Int.toNat) else none
  | 1 =>
    if known ≠ 0 ∧ count % known = 0 then
      some (extents.map fun k => if k < 0 then count / known else k.toNat)
    else none
  | _ => none

/-- The place of the entry that reversing the order of the axes puts at position `p`; `before` is
its place among the entries of the axes passed. -/
def placeBeforeReversal : (s : Shape) → (p before : Nat) → Nat
  | [], _, before => before
  | n :: s, p, before => placeBeforeReversal s (p / n) (before * n + p % n)

/-- The last two extents behind all others, if there are two. -/
def matrixAxes? : Shape → Option (Shape × Nat × Nat)
  | [] => none
  | [_] => none
  | [m, n] => some ([], m, n)
  | k :: s => (matrixAxes? s).map fun (outer, m, n) => (k :: outer, m, n)

end Shape

end QuadraticProgram
