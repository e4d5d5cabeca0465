import Mathlib.Algebra.BigOperators.Group.Finset.Basic
import Mathlib.Algebra.Order.Group.Multiset
import Mathlib.Data.Fintype.Defs
import Mathlib.Tactic.Abel

/-! Resources that finitely many parties hold, each as often as it is held. -/

namespace Custody

variable {ι β α : Type*} [Fintype ι] [DecidableEq ι]

/-- All that is held, where a party holds what its state says. -/
def held (holds : ι → β → Multiset α) (states : ι → β) : Multiset α :=
  ∑ i, holds i (states i)

variable {holds : ι → β → Multiset α} {states : ι → β} {i : ι} {state : β}

variable (holds states i state) in
/-- When one party changes its state, what it held before is exchanged for what it holds after. -/
theorem held_update :
    held holds (Function.update states i state) + holds i (states i) =
      held holds states + holds i state := by
  -- The other parties contribute the same to both sums.
  have others : ∑ j ∈ Finset.univ.erase i, holds j (Function.update states i state j) =
      ∑ j ∈ Finset.univ.erase i, holds j (states j) := by
    apply Finset.sum_congr rfl
    intro j member
    rw [Function.update_of_ne (Finset.ne_of_mem_erase member)]
  rw [held, held, ← Finset.add_sum_erase _ _ (Finset.mem_univ i), others,
    ← Finset.add_sum_erase _ (fun j => holds j (states j)) (Finset.mem_univ i),
    Function.update_self]
  abel

/-- What a party gives to a common stock, or takes from it, is neither lost nor made. -/
theorem exchange {stock rest : Multiset α}
    (even : rest + holds i state = stock + holds i (states i)) :
    rest + held holds (Function.update states i state) = stock + held holds states := by
  -- What the party held before is on both sides.
  have moved := held_update holds states i state
  apply add_right_cancel (b := holds i (states i))
  calc rest + held holds (Function.update states i state) + holds i (states i)
      = rest + holds i state + held holds states := by rw [add_assoc, moved]; abel
    _ = stock + held holds states + holds i (states i) := by rw [even]; abel

omit [DecidableEq ι] in
/-- What a party holds is part of all that is held. -/
theorem mem_held {a : α} (member : a ∈ holds i (states i)) : a ∈ held holds states :=
  Multiset.mem_sum.mpr ⟨i, Finset.mem_univ i, member⟩

end Custody
