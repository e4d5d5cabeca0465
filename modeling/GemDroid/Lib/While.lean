import Mathlib.Algebra.Order.Field.Basic
import Mathlib.Algebra.Order.Floor.Semiring

/-! Loops that go round as long as a test holds. -/

namespace While

variable {State : Type*} {test : State → Bool} {body : State → Option State} {fuel : Nat}
  {s t : State}

/--
Go round as long as the test holds.

Nothing is returned when the body fails or the fuel ends before that.
-/
def loop (test : State → Bool) (body : State → Option State) : Nat → State → Option State
  | 0, _ => none
  | fuel + 1, s => if test s then (body s).bind (loop test body fuel) else some s

/-- A test that fails ends the loop. -/
theorem loop_stop (stop : test s = false) (fuel : Nat) :
    loop test body (fuel + 1) s = some s := by
  rw [loop, if_neg (by rw [stop]; decide)]

/-- A loop whose test fails at once changes nothing. -/
theorem eq_of_loop_stop (stop : test s = false) (ended : loop test body fuel s = some t) :
    t = s := by
  cases fuel with
  | zero => cases ended
  | succ fuel =>
    rw [loop_stop stop] at ended
    exact (Option.some.inj ended).symm

/-- A test that holds goes round once more. -/
theorem loop_go (go : test s = true) (round : body s = some t) (fuel : Nat) :
    loop test body (fuel + 1) s = loop test body fuel t := by
  rw [loop, if_pos go, round, Option.bind_some]

/-- What a round preserves holds in the end, where the test fails. -/
theorem loop_keeps (I : State → Prop)
    (keeps : ∀ s t, I s → test s = true → body s = some t → I t)
    (start : I s) (ended : loop test body fuel s = some t) : I t ∧ test t = false := by
  -- The induction follows the rounds.
  induction fuel generalizing s with
  | zero => cases ended
  | succ fuel ih =>
    rw [loop] at ended
    cases tested : test s with
    | false =>
      rw [tested, if_neg (by decide)] at ended
      obtain rfl := Option.some.inj ended
      exact ⟨start, tested⟩
    | true =>
      rw [tested, if_pos rfl] at ended
      obtain ⟨middle, round, rest⟩ := Option.bind_eq_some_iff.mp ended
      exact ih (keeps s middle start tested round) rest

/-- A loop ends when every round lowers a measure, with more fuel than that. -/
theorem exists_loop (inside : State → Prop) (measure : State → Nat)
    (falls : ∀ s, inside s → test s = true →
      ∃ t, body s = some t ∧ inside t ∧ measure t < measure s)
    (start : inside s) (enough : measure s < fuel) : ∃ t, loop test body fuel s = some t := by
  -- Each round uses one unit of the fuel and at least one of the measure.
  induction fuel generalizing s with
  | zero => exact absurd enough (Nat.not_lt_zero _)
  | succ fuel ih =>
    cases tested : test s with
    | false => exact ⟨s, loop_stop tested fuel⟩
    | true =>
      obtain ⟨middle, round, inside', less⟩ := falls s start tested
      rw [loop_go tested round]
      exact ih inside' (by omega)

/-- A loop that has ended ends alike with more fuel. -/
theorem loop_mono {fuel' : Nat} (le : fuel ≤ fuel') (ended : loop test body fuel s = some t) :
    loop test body fuel' s = some t := by
  -- Both loops go the same rounds, the second with fuel left at the end.
  induction fuel generalizing fuel' s with
  | zero => cases ended
  | succ fuel ih =>
    obtain ⟨more, rfl⟩ : ∃ more, fuel' = more + 1 := ⟨fuel' - 1, by omega⟩
    rw [loop] at ended ⊢
    cases tested : test s with
    | false => rwa [tested] at ended
    | true =>
      rw [tested, if_pos rfl] at ended
      rw [if_pos rfl]
      obtain ⟨middle, round, rest⟩ := Option.bind_eq_some_iff.mp ended
      rw [round, Option.bind_some]
      exact ih (by omega) rest

/-- A loop goes the same rounds on states that a map relates. -/
theorem loop_map (test : State → Bool) (body : State → Option State) (fuel : Nat) (s : State)
    (f : State → State) (tests : ∀ s, test (f s) = test s)
    (rounds : ∀ s, body (f s) = (body s).map f) :
    loop test body fuel (f s) = (loop test body fuel s).map f := by
  -- The induction follows the rounds.
  induction fuel generalizing s with
  | zero => rfl
  | succ fuel ih =>
    rw [loop, loop, tests, rounds]
    cases tested : test s with
    | false => rfl
    | true =>
      rw [if_pos rfl, if_pos rfl]
      cases round : body s with
      | none => rfl
      | some t =>
        rw [Option.map_some, Option.bind_some, Option.bind_some]
        exact ih t

/-- What is left of a distance falls when the distance becomes shorter by one at least. -/
theorem ceil_lt_ceil {K : Type*} [Field K] [LinearOrder K] [IsStrictOrderedRing K]
    [FloorSemiring K] {near far : K} (shorter : near + 1 ≤ far) (ahead : 0 < far) :
    ⌈near⌉₊ < ⌈far⌉₊ := by
  rw [Nat.lt_ceil]
  rcases lt_or_ge near 0 with passed | before
  · rwa [Nat.ceil_eq_zero.mpr passed.le, Nat.cast_zero]
  · exact (Nat.ceil_lt_add_one before).trans_le shorter

end While
