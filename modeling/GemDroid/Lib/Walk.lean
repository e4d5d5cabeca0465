import Mathlib.Logic.Function.Iterate

/-! Loops that walk along a way of their own and keep something of the positions they pass. -/

namespace Walk

variable {Pos Kept : Type*} {next : Pos → Pos} {choice : Pos → Option (Kept → Kept)}

/--
Walk on from position to position, each of which changes what is kept, until one of them stops.

Nothing is returned when the fuel ends before that.
-/
def walk (next : Pos → Pos) (choice : Pos → Option (Kept → Kept)) :
    Nat → Pos → Kept → Option (Pos × Kept)
  | 0, _, _ => none
  | fuel + 1, pos, kept =>
    match choice pos with
    -- The position that stops has been left already, as the way does not depend on the choice.
    | none => some (next pos, kept)
    | some change => walk next choice fuel (next pos) (change kept)

/-- Some position on the way stops. -/
def Stops (next : Pos → Pos) (choice : Pos → Option (Kept → Kept)) (pos : Pos) : Prop :=
  ∃ n, choice (next^[n] pos) = none

/-- A position of some kind is passed before the way stops. -/
def Passes (next : Pos → Pos) (choice : Pos → Option (Kept → Kept)) (kind : Pos → Prop)
    (pos : Pos) : Prop :=
  ∃ n, kind (next^[n] pos) ∧ ∀ k ≤ n, choice (next^[k] pos) ≠ none

/-- A position that stops ends the walk. -/
theorem walk_stop {pos : Pos} (stop : choice pos = none) (fuel : Nat) (kept : Kept) :
    walk next choice (fuel + 1) pos kept = some (next pos, kept) := by
  rw [walk, stop]

/-- A position that does not stop changes what is kept. -/
theorem walk_go {pos : Pos} {change : Kept → Kept} (go : choice pos = some change) (fuel : Nat)
    (kept : Kept) :
    walk next choice (fuel + 1) pos kept = walk next choice fuel (next pos) (change kept) := by
  rw [walk, go]

/-- A walk that has ended ends alike with more fuel. -/
theorem walk_mono {fuel fuel' : Nat} (le : fuel ≤ fuel') {pos : Pos} {kept : Kept}
    {result : Pos × Kept} (ended : walk next choice fuel pos kept = some result) :
    walk next choice fuel' pos kept = some result := by
  -- Both walks take the same steps, the second with fuel left at the end.
  induction fuel generalizing fuel' pos kept with
  | zero => cases ended
  | succ fuel ih =>
    obtain ⟨more, rfl⟩ : ∃ more, fuel' = more + 1 := ⟨fuel' - 1, by omega⟩
    cases taken : choice pos with
    | none => rwa [walk_stop taken] at ended ⊢
    | some change =>
      rw [walk_go taken] at ended ⊢
      exact ih (by omega) ended

/-- With enough fuel a walk ends exactly when a position on its way stops. -/
theorem exists_walk_iff {pos : Pos} (kept : Kept) :
    (∃ fuel result, walk next choice fuel pos kept = some result) ↔ Stops next choice pos := by
  constructor
  · rintro ⟨fuel, result, ended⟩
    induction fuel generalizing pos kept with
    | zero => cases ended
    | succ fuel ih =>
      cases taken : choice pos with
      | none => exact ⟨0, taken⟩
      | some change =>
        rw [walk_go taken] at ended
        obtain ⟨n, stop⟩ := ih _ ended
        exact ⟨n + 1, stop⟩
  · rintro ⟨n, stop⟩
    -- The number of the position that stops is fuel enough.
    refine ⟨n + 1, ?_⟩
    induction n generalizing pos kept with
    | zero => exact ⟨_, walk_stop stop 0 kept⟩
    | succ n ih =>
      cases taken : choice pos with
      | none => exact ⟨_, walk_stop taken (n + 1) kept⟩
      | some change =>
        rw [walk_go taken]
        exact ih _ stop

/-- A way on which a measure falls stops. -/
theorem stops_of_measure (inside : Pos → Prop) (measure : Pos → Nat)
    (falls : ∀ pos, inside pos → choice pos ≠ none →
      inside (next pos) ∧ measure (next pos) < measure pos)
    {pos : Pos} (start : inside pos) : Stops next choice pos := by
  induction size : measure pos using Nat.strongRecOn generalizing pos with
  | _ size ih =>
    by_cases stop : choice pos = none
    · exact ⟨0, stop⟩
    · obtain ⟨inside', less⟩ := falls pos start stop
      obtain ⟨n, later⟩ := ih _ (size ▸ less) inside' rfl
      exact ⟨n + 1, later⟩

/-- The walk ends where its way leads. -/
theorem walk_inside (inside : Pos → Prop) (goes : ∀ pos, inside pos → inside (next pos))
    {fuel : Nat} {pos last : Pos} {kept result : Kept} (start : inside pos)
    (ended : walk next choice fuel pos kept = some (last, result)) : inside last := by
  induction fuel generalizing pos kept with
  | zero => cases ended
  | succ fuel ih =>
    cases taken : choice pos with
    | none =>
      rw [walk_stop taken] at ended
      cases ended
      exact goes pos start
    | some change =>
      rw [walk_go taken] at ended
      exact ih (goes pos start) ended

/-- What every position on the way preserves holds of what is kept in the end. -/
theorem walk_keeps (inside : Pos → Prop) (holds : Kept → Prop)
    (goes : ∀ pos, inside pos → inside (next pos))
    (keeps : ∀ pos change, inside pos → choice pos = some change →
      ∀ kept, holds kept → holds (change kept))
    {fuel : Nat} {pos last : Pos} {kept result : Kept} (start : inside pos) (first : holds kept)
    (ended : walk next choice fuel pos kept = some (last, result)) : holds result := by
  induction fuel generalizing pos kept with
  | zero => cases ended
  | succ fuel ih =>
    cases taken : choice pos with
    | none =>
      rw [walk_stop taken] at ended
      cases ended
      exact first
    | some change =>
      rw [walk_go taken] at ended
      exact ih (goes pos start) (keeps pos change start taken kept first) ended

/-- A kind is passed at once or later. -/
theorem passes_iff {kind : Pos → Prop} {pos : Pos} :
    Passes next choice kind pos ↔
      choice pos ≠ none ∧ (kind pos ∨ Passes next choice kind (next pos)) := by
  constructor
  · rintro ⟨n, here, before⟩
    refine ⟨before 0 (Nat.zero_le n), ?_⟩
    cases n with
    | zero => exact Or.inl here
    | succ n => exact Or.inr ⟨n, here, fun k le => before (k + 1) (by omega)⟩
  · rintro ⟨go, here | ⟨n, later, before⟩⟩
    · refine ⟨0, here, fun k le => ?_⟩
      rwa [Nat.le_zero.mp le]
    · refine ⟨n + 1, later, fun k le => ?_⟩
      cases k with
      | zero => exact go
      | succ k => exact before k (by omega)

end Walk
