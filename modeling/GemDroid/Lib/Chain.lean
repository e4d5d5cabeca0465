import Mathlib.Data.List.Basic
import Mathlib.Logic.Function.Basic

/-! Lists in a store, each element of which points to the next one. -/

namespace Chain

variable {E : Type*} {next other : E → Option E} {p q : Option E} {xs ys : List E}

/-- From one pointer the elements lead to another one, in their order. -/
def Path (next : E → Option E) : Option E → List E → Option E → Prop
  | p, [], q => p = q
  | p, x :: xs, q => p = some x ∧ Path next (next x) xs q

@[simp] theorem path_nil : Path next p [] q ↔ p = q := Iff.rfl

@[simp] theorem path_cons {x : E} :
    Path next p (x :: xs) q ↔ p = some x ∧ Path next (next x) xs q := Iff.rfl

/-- A path over two lists goes through the first to where the second begins. -/
theorem path_append :
    Path next p (xs ++ ys) q ↔ ∃ m, Path next p xs m ∧ Path next m ys q := by
  -- The induction follows the first list, along which the pointer moves.
  induction xs generalizing p with
  | nil => simp
  | cons x xs ih => simp [ih, and_assoc]

/-- A path depends only on the pointers of its own elements. -/
theorem path_congr (same : ∀ x ∈ xs, other x = next x) :
    Path other p xs q ↔ Path next p xs q := by
  induction xs generalizing p with
  | nil => rfl
  | cons x xs ih =>
    rw [path_cons, path_cons, same x (by simp), ih fun y member => same y (by simp [member])]

/-- A path does not see the pointer of what is not on it. -/
theorem path_update [DecidableEq E] {x : E} {v : Option E} (absent : x ∉ xs) :
    Path (Function.update next x v) p xs q ↔ Path next p xs q := by
  apply path_congr
  intro y member
  have differ : y ≠ x := fun same => absent (same ▸ member)
  rw [Function.update_of_ne differ]

/-- An element is taken off a path by leading the one before it to the one after it. -/
theorem path_remove [DecidableEq E] {x e : E} (path : Path next p (xs ++ x :: e :: ys) q)
    (nodup : (xs ++ x :: e :: ys).Nodup) :
    Path (Function.update next x (next e)) p (xs ++ x :: ys) q := by
  rw [List.nodup_append, List.nodup_cons] at nodup
  obtain ⟨-, ⟨notAfter, -⟩, apart⟩ := nodup
  have notBefore : x ∉ xs := fun member => apart x member x (by simp) rfl
  obtain ⟨m, before, here, -, after⟩ := path_append.mp path
  rw [path_append]
  refine ⟨m, (path_update notBefore).mpr before, here, ?_⟩
  rw [Function.update_self, path_update fun member => notAfter (by simp [member])]
  exact after

end Chain
