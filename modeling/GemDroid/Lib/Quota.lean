import Mathlib.Algebra.BigOperators.Group.Finset.Basic
import Mathlib.Algebra.Order.BigOperators.Group.Finset

/-! Parties that take units from a common stock, each up to a limit of its own. -/

namespace Quota

open Function (update update_of_ne update_self)

variable {ι : Type*} [Fintype ι] [DecidableEq ι]

/-- What the parties other than one hold. -/
def others (held : ι → Nat) (i : ι) : Nat :=
  ∑ j ∈ Finset.univ.erase i, held j

/-- Each party is within its limit, and the stock could serve it up to that limit. -/
def Honoured (stock : Nat) (limit held : ι → Nat) : Prop :=
  ∀ i, held i ≤ limit i ∧ limit i + others held i ≤ stock

variable {stock : Nat} {limit limit' held : ι → Nat} {i j : ι} {n : Nat}

/-- All that is held is what one party holds and what the others do. -/
theorem held_add_others (held : ι → Nat) (i : ι) : held i + others held i = ∑ j, held j :=
  Finset.add_sum_erase _ _ (Finset.mem_univ i)

/-- The others hold what they held when one party changes its share. -/
@[simp] theorem others_update_self : others (update held i n) i = others held i := by
  apply Finset.sum_congr rfl
  intro j member
  rw [update_of_ne (Finset.ne_of_mem_erase member)]

/-- When one party changes its share, the sum of all changes by as much. -/
theorem sum_update (held : ι → Nat) (i : ι) (n : Nat) : ∑ j, update held i n j + held i = ∑ j,
    held j + n := by
  have before := held_add_others held i
  have after := held_add_others (update held i n) i
  rw [update_self, others_update_self] at after
  omega

/-- What one party takes is taken by the others of each other party. -/
theorem others_update_of_ne (held : ι → Nat) (n : Nat) (other : j ≠ i) :
    others (update held i n) j + held i = others held j + n := by
  have before := held_add_others held j
  have after := held_add_others (update held i n) j
  have moved := sum_update held i n
  rw [update_of_ne other] at after
  omega

/-- The stock suffices for all that is held. -/
theorem Honoured.sum_le (honoured : Honoured stock limit held) : ∑ i, held i ≤ stock := by
  -- Without a party nothing is held.
  cases isEmpty_or_nonempty ι with
  | inl none => simp
  | inr some =>
    obtain ⟨i⟩ := some
    have split := held_add_others held i
    have own := honoured i
    omega

/-- A party may take one unit exactly if the stock could serve each other party after it. -/
theorem Honoured.take_iff (honoured : Honoured stock limit held) (room : held i < limit i) :
    Honoured stock limit (update held i (held i + 1)) ↔
      ∀ j ≠ i, limit j + others held j < stock := by
  constructor
  · intro after j other
    have moved := others_update_of_ne held (held i + 1) other
    have own := (after j).2
    omega
  · intro spare j
    by_cases same : j = i
    · subst same
      rw [update_self, others_update_self]
      exact ⟨room, (honoured j).2⟩
    · have moved := others_update_of_ne held (held i + 1) same
      rw [update_of_ne same]
      have own := honoured j
      have left := spare j same
      exact ⟨own.1, by omega⟩

/-- A party may give units back. -/
theorem Honoured.give (honoured : Honoured stock limit held) (less : n ≤ held i) :
    Honoured stock limit (update held i n) := by
  intro j
  have own := honoured j
  by_cases same : j = i
  · subst same
    rw [update_self, others_update_self]
    exact ⟨Nat.le_trans less own.1, own.2⟩
  · have moved := others_update_of_ne held n same
    rw [update_of_ne same]
    exact ⟨own.1, by omega⟩

/-- Limits may be changed exactly if the new ones can be honoured. -/
theorem Honoured.relimit_iff (honoured : Honoured stock limit held) {changed : ι → Prop}
    (kept : ∀ i, ¬changed i → limit' i = limit i) :
    Honoured stock limit' held ↔
      ∀ i, changed i → held i ≤ limit' i ∧ limit' i + others held i ≤ stock := by
  constructor
  · intro after i _
    exact after i
  · intro new i
    by_cases moved : changed i
    · exact new i moved
    · rw [kept i moved]
      exact honoured i

end Quota
