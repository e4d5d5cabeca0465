import Mathlib.Data.List.Basic
import Mathlib.Logic.Function.Basic

/-! Lists that name everything that is marked, each thing once. -/

namespace Roster

variable {α : Type*} [DecidableEq α]

omit [DecidableEq α] in
/-- The list names what is marked and nothing else, and names nothing twice. -/
structure Lists (marked : α → Bool) (list : List α) : Prop where
  once : list.Nodup
  exact' : ∀ a, marked a = true ↔ a ∈ list

variable {marked : α → Bool} {list longer shorter : List α} {a : α}

omit [DecidableEq α] in
/-- What is not marked is not in the list. -/
theorem Lists.absent (lists : Lists marked list) (unmarked : marked a = false) : a ∉ list := by
  intro member
  rw [(lists.exact' a).mpr member] at unmarked
  cases unmarked

omit [DecidableEq α] in
/-- The order of the list does not matter. -/
theorem Lists.perm (lists : Lists marked list) (same : longer.Perm list) : Lists marked longer :=
  ⟨same.nodup_iff.mpr lists.once, fun b => (lists.exact' b).trans same.mem_iff.symm⟩

/-- What gets marked joins the list. -/
theorem Lists.enter (lists : Lists marked list) (unmarked : marked a = false)
    (joined : longer.Perm (a :: list)) : Lists (Function.update marked a true) longer := by
  have absent := lists.absent unmarked
  constructor
  · exact joined.nodup_iff.mpr (List.nodup_cons.mpr ⟨absent, lists.once⟩)
  · intro b
    rw [joined.mem_iff, List.mem_cons]
    by_cases same : b = a
    · simp [same]
    · rw [Function.update_of_ne same, lists.exact' b]
      simp [same]

/-- What is no longer marked leaves the list. -/
theorem Lists.leave (lists : Lists marked list) (left : list.Perm (a :: shorter)) :
    Lists (Function.update marked a false) shorter := by
  have split := List.nodup_cons.mp (left.nodup_iff.mp lists.once)
  constructor
  · exact split.2
  · intro b
    by_cases same : b = a
    · subst same
      simp [split.1]
    · rw [Function.update_of_ne same, lists.exact' b, left.mem_iff]
      simp [same]

end Roster
