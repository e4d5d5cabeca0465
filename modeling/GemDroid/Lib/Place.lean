import Mathlib.Data.List.Perm.Basic
import Mathlib.Data.List.Nodup
import Mathlib.Data.List.TakeWhile

/-! Stable insertion into a list by a time, and counting where one member changes. -/

namespace Place

variable {α : Type*} {time : α → Nat} {x : α} {xs : List α}

/--
The list with a new member behind all that have no later time.

A last member with no later time is found without a search.
-/
def place (time : α → Nat) (x : α) (xs : List α) : List α :=
  let earlier := fun y => decide (time y ≤ time x)
  if xs.getLast?.all earlier then xs ++ [x]
  else xs.takeWhile earlier ++ x :: xs.dropWhile earlier

/-- In a list that is ordered by time a member that is earlier than the first goes before it. -/
theorem place_cons_of_lt {first : α} {rest : List α} (earlier : time x < time first)
    (ordered : (first :: rest).Pairwise fun a b => time a ≤ time b) :
    place time x (first :: rest) = x :: first :: rest := by
  rw [List.pairwise_cons] at ordered
  -- The last member is no earlier than the first.
  have later : ((first :: rest).getLast?.all fun y => decide (time y ≤ time x)) = false := by
    cases last : (first :: rest).getLast? with
    | none => simp at last
    | some y =>
      have after : time first ≤ time y := by
        rcases List.mem_cons.mp (List.mem_of_getLast? last) with same | inside
        · rw [same]
        · exact ordered.1 y inside
      simp only [Option.all_some, decide_eq_false_iff_not]
      omega
  simp [place, later, Nat.not_le.mpr earlier]

/-- A member that is no earlier than the first leaves it first. -/
theorem place_cons_of_le (time : α → Nat) {first : α} (rest : List α)
    (late : time first ≤ time x) :
    ∃ rest', place time x (first :: rest) = first :: rest' := by
  unfold place
  dsimp only
  split
  · exact ⟨_, rfl⟩
  · rw [List.takeWhile_cons_of_pos (by simpa using late)]
    exact ⟨_, rfl⟩

/-- Insertion adds one member. -/
theorem place_perm : (place time x xs).Perm (x :: xs) := by
  unfold place
  dsimp only
  split
  · exact List.perm_append_singleton x xs
  · refine List.perm_middle.trans ?_
    rw [List.takeWhile_append_dropWhile]

/-- If the last member has a later time then there is a member to insert before. -/
theorem dropWhile_ne_nil (later : xs.getLast?.all (fun y => decide (time y ≤ time x)) = false) :
    xs.dropWhile (fun y => decide (time y ≤ time x)) ≠ [] := by
  intro none
  rw [List.dropWhile_eq_nil_iff] at none
  cases last : xs.getLast? with
  | none => simp [last] at later
  | some y =>
    have early := none y (List.mem_of_getLast? last)
    simp only [last, Option.all_some] at later
    rw [later] at early
    exact Bool.false_ne_true early

/-- In a list that is ordered by time the members past the first later one are all later. -/
theorem later_of_mem_dropWhile {y : α} (ordered : xs.Pairwise fun a b => time a ≤ time b)
    (member : y ∈ xs.dropWhile fun y => decide (time y ≤ time x)) : time x < time y := by
  induction xs with
  | nil => simp at member
  | cons first rest ih =>
    obtain ⟨head, tail⟩ := List.pairwise_cons.mp ordered
    by_cases early : time first ≤ time x
    · rw [List.dropWhile_cons_of_pos (by simpa using early)] at member
      exact ih tail member
    · rw [List.dropWhile_cons_of_neg (by simpa using early)] at member
      rcases List.mem_cons.mp member with rfl | inside
      · omega
      · have := head y inside
        omega

/-- Insertion keeps an order that follows the times and puts the new member last among equals. -/
theorem pairwise_place {before : α → α → Prop} (ordered : xs.Pairwise before)
    (follows : ∀ a b, before a b → time a ≤ time b)
    (behind : ∀ a ∈ xs, time a ≤ time x → before a x)
    (ahead : ∀ b ∈ xs, time x < time b → before x b) : (place time x xs).Pairwise before := by
  have timed : xs.Pairwise fun a b => time a ≤ time b := ordered.imp fun {a b} => follows a b
  unfold place
  dsimp only
  split
  case isTrue last =>
    -- The last member has the latest time, so no other member is later.
    refine List.pairwise_append.mpr ⟨ordered, by simp, fun a member b single => ?_⟩
    rw [List.mem_singleton.mp single]
    refine behind a member ?_
    obtain ⟨front, final, rfl⟩ := List.eq_nil_or_concat' xs |>.resolve_left
      (List.ne_nil_of_mem member)
    simp only [List.getLast?_append, List.getLast?_singleton, Option.some_or, Option.all_some,
      decide_eq_true_eq] at last
    rcases List.mem_append.mp member with inside | same
    · exact Nat.le_trans ((List.pairwise_append.mp timed).2.2 a inside final (by simp)) last
    · rw [List.mem_singleton.mp same]
      exact last
  case isFalse =>
    have split := List.takeWhile_append_dropWhile
      (p := fun y => decide (time y ≤ time x)) (l := xs)
    rw [← split] at ordered
    obtain ⟨front, back, across⟩ := List.pairwise_append.mp ordered
    have early : ∀ a ∈ xs.takeWhile (fun y => decide (time y ≤ time x)), before a x := by
      intro a member
      refine behind a ((List.takeWhile_sublist _).subset member) ?_
      simpa using List.mem_takeWhile_imp member
    have late : ∀ b ∈ xs.dropWhile (fun y => decide (time y ≤ time x)), before x b :=
      fun b member => ahead b ((List.dropWhile_sublist _).subset member)
        (later_of_mem_dropWhile timed member)
    refine List.pairwise_append.mpr ⟨front, List.pairwise_cons.mpr ⟨late, back⟩, ?_⟩
    intro a left b right
    rcases List.mem_cons.mp right with rfl | inside
    · exact early a left
    · exact across a left b inside

/-- The count rises by one when one member of a list without duplicates comes to be counted. -/
theorem countP_rise [DecidableEq α] {p q : α → Bool} (distinct : xs.Nodup) (member : x ∈ xs)
    (same : ∀ y ∈ xs, y ≠ x → q y = p y) (was : p x = false) (is : q x = true) :
    xs.countP q = xs.countP p + 1 := by
  -- Both counts agree on the list without the member that changes.
  have split := List.perm_cons_erase member
  have others : (xs.erase x).countP q = (xs.erase x).countP p := by
    refine List.countP_congr fun y inside => ?_
    obtain ⟨other, old⟩ := distinct.mem_erase_iff.mp inside
    rw [same y old other]
  rw [split.countP_eq q, split.countP_eq p, List.countP_cons, List.countP_cons, others, was, is]
  simp

end Place
