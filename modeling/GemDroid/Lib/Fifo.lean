import Mathlib.Data.List.Basic

/-! First-in first-out queues with a record of what entered and what left them. -/

namespace Fifo

variable {α : Type*} {entered left waiting : List α}

/-- What entered a queue has left it in the same order or still waits in that order. -/
def Conserves (entered left waiting : List α) : Prop :=
  entered = left ++ waiting

/-- An element that enters waits behind the others. -/
theorem Conserves.push (conserves : Conserves entered left waiting) (x : α) :
    Conserves (entered ++ [x]) left (waiting ++ [x]) := by
  rw [Conserves, conserves, List.append_assoc]

/-- The element that leaves is the one that waited longest. -/
theorem Conserves.pop {x : α} (conserves : Conserves entered left (x :: waiting)) :
    Conserves entered (left ++ [x]) waiting := by
  rw [Conserves, conserves, List.append_assoc, List.singleton_append]

/-- Every element that entered is counted once, as gone or as waiting. -/
theorem Conserves.length (conserves : Conserves entered left waiting) :
    entered.length = waiting.length + left.length := by
  rw [conserves, List.length_append, Nat.add_comm]

end Fifo
