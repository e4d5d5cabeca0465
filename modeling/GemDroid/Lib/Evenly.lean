import GemDroid.Lib.Stripes

/-! Numbers that fall into classes periodically, the same number of them into each. -/

variable {α β : Type*} [DecidableEq α] [DecidableEq β]

/-- The classes repeat after a period, in which each of them has the same share. -/
structure Evenly (cls : Nat → α) (period share : Nat) : Prop where
  repeats : Function.Periodic cls period
  share : ∀ x, ((Finset.range period).filter fun s => cls s = cls x).card = share

namespace Evenly

variable {cls : Nat → α} {period share : Nat}

/-- Classes that are told apart in the same way are as even. -/
theorem congr (even : Evenly cls period share) {cls' : Nat → β}
    (same : ∀ s s', cls' s = cls' s' ↔ cls s = cls s') : Evenly cls' period share where
  repeats s := (same _ _).mpr (even.repeats s)
  share x := by
    simp only [same]
    exact even.share x

end Evenly
