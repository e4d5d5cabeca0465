import Mathlib.Algebra.BigOperators.Group.List.Basic
import Mathlib.Algebra.GroupWithZero.Nat

/-! Regions that are cut into pieces, each of which begins where the one before it ends. -/

namespace Tiling

variable {start stop pos length : Nat} {pieces before after : List (Nat × Nat)} {piece : Nat × Nat}

/-- Pieces of a first position and a length follow one another through a region, none empty. -/
inductive Tiles : Nat → List (Nat × Nat) → Nat → Prop
  | nil (pos : Nat) : Tiles pos [] pos
  | cons {pos length stop : Nat} {pieces : List (Nat × Nat)} (some : 0 < length)
      (rest : Tiles (pos + length) pieces stop) : Tiles pos ((pos, length) :: pieces) stop

/-- How much the pieces cover together. -/
def covered (pieces : List (Nat × Nat)) : Nat :=
  (pieces.map Prod.snd).sum

theorem Tiles.total (tiles : Tiles start pieces stop) : start + covered pieces = stop := by
  induction tiles with
  | nil => rfl
  | cons some rest ih =>
    rw [covered, List.map_cons, List.sum_cons, ← Nat.add_assoc]
    exact ih

/-- A piece that begins at the end makes the region longer. -/
theorem Tiles.append (tiles : Tiles start pieces pos) (some : 0 < length) :
    Tiles start (pieces ++ [(pos, length)]) (pos + length) := by
  induction tiles with
  | nil => exact .cons some (.nil _)
  | cons first rest ih => exact .cons first ih

/-- A piece begins behind all that the pieces before it cover. -/
theorem Tiles.split (tiles : Tiles start (before ++ piece :: after) stop) :
    piece.1 = start + covered before ∧ 0 < piece.2 := by
  -- The induction drops the pieces before it one by one.
  induction before generalizing start with
  | nil =>
    cases tiles with
    | cons some rest => exact ⟨rfl, some⟩
  | cons first before ih =>
    cases tiles with
    | cons some rest =>
      obtain ⟨begins, positive⟩ := ih rest
      refine ⟨?_, positive⟩
      rw [begins, covered, covered, List.map_cons, List.sum_cons, Nat.add_assoc]

end Tiling
