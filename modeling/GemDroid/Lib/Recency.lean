import Mathlib.Data.Finset.Card
import Mathlib.Data.List.Perm.Basic
import Mathlib.Data.List.Nodup

/-! Lists whose order is a relation between their members, when one member moves to an end. -/

namespace Recency

variable {α : Type*} {before after : α → α → Prop} {x : α} {xs : List α}

section

variable [DecidableEq α]

/-- A list without one of its members keeps an order that the others keep. -/
theorem pairwise_erase (distinct : xs.Nodup) (ordered : xs.Pairwise before)
    (kept : ∀ a b, a ≠ x → b ≠ x → before a b → after a b) : (xs.erase x).Pairwise after := by
  -- The order is inherited by the sublist, whose members all differ from the one taken out.
  have inherited : (xs.erase x).Pairwise before := ordered.sublist List.erase_sublist
  refine List.Pairwise.imp_of_mem ?_ inherited
  intro a b left right related
  exact kept a b (distinct.mem_erase_iff.mp left).1 (distinct.mem_erase_iff.mp right).1 related

/-- A member that moves to the front stands in order if it is related to all others. -/
theorem pairwise_moveToHead (distinct : xs.Nodup) (ordered : xs.Pairwise before)
    (kept : ∀ a b, a ≠ x → b ≠ x → before a b → after a b)
    (first : ∀ b ∈ xs, b ≠ x → after x b) : (x :: xs.erase x).Pairwise after := by
  refine List.pairwise_cons.mpr ⟨fun b member => ?_, pairwise_erase distinct ordered kept⟩
  obtain ⟨other, inside⟩ := distinct.mem_erase_iff.mp member
  exact first b inside other

/-- A member that moves to the end stands in order if all others are related to it. -/
theorem pairwise_moveToTail (distinct : xs.Nodup) (ordered : xs.Pairwise before)
    (kept : ∀ a b, a ≠ x → b ≠ x → before a b → after a b)
    (last : ∀ a ∈ xs, a ≠ x → after a x) : (xs.erase x ++ [x]).Pairwise after := by
  refine List.pairwise_append.mpr ⟨pairwise_erase distinct ordered kept, by simp, ?_⟩
  intro a member b single
  obtain ⟨other, inside⟩ := distinct.mem_erase_iff.mp member
  rw [List.mem_singleton.mp single]
  exact last a inside other

/-- The members of a list that stand before one of them. -/
def ahead (b : α) (xs : List α) : Finset α :=
  (xs.takeWhile (· ≠ b)).toFinset

theorem ahead_cons_self (b : α) (xs : List α) : ahead b (b :: xs) = ∅ := by
  simp [ahead]

theorem ahead_cons (xs : List α) {a b : α} (other : a ≠ b) :
    ahead b (a :: xs) = insert a (ahead b xs) := by
  simp [ahead, other]

/-- As many members stand before one of them as its place says. -/
theorem card_ahead (distinct : xs.Nodup) {b : α} (member : b ∈ xs) :
    (ahead b xs).card = xs.idxOf b := by
  -- The induction follows the list up to the member, all before which are distinct.
  induction xs with
  | nil => cases member
  | cons a rest ih =>
    obtain ⟨new, others⟩ := List.nodup_cons.mp distinct
    by_cases same : a = b
    · rw [same, ahead_cons_self, Finset.card_empty, List.idxOf_cons_self]
    · have behind : b ∈ rest := (List.mem_cons.mp member).resolve_left (Ne.symm same)
      have absent : a ∉ ahead b rest := fun inside =>
        new ((List.takeWhile_sublist _).subset (List.mem_toFinset.mp inside))
      rw [ahead_cons rest same, Finset.card_insert_of_notMem absent, ih others behind,
        List.idxOf_cons_ne rest same]

/-- Besides itself, what is taken out of a list does not matter for what stands before a member. -/
theorem insert_ahead_erase (x : α) (xs : List α) {b : α} (other : x ≠ b) :
    insert x (ahead b (xs.erase x)) = insert x (ahead b xs) := by
  induction xs with
  | nil => rfl
  | cons a rest ih =>
    by_cases same : a = x
    · rw [same, List.erase_cons_head, ahead_cons rest other, Finset.insert_idem]
    · rw [List.erase_cons_tail (by simpa using same)]
      by_cases found : a = b
      · rw [found, ahead_cons_self, ahead_cons_self]
      · rw [ahead_cons _ found, ahead_cons _ found, Finset.insert_comm, ih, Finset.insert_comm]

/-- A member that moves to the front is ahead of all others, which stay as they were. -/
theorem ahead_moveToHead (x : α) (xs : List α) {b : α} (other : x ≠ b) :
    ahead b (x :: xs.erase x) = insert x (ahead b xs) := by
  rw [ahead_cons _ other, insert_ahead_erase x xs other]

/-- The places when a member moves to the front. -/
theorem idxOf_moveToHead (member : x ∈ xs) (b : α) : (x :: xs.erase x).idxOf b =
    if b = x then 0 else if xs.idxOf b < xs.idxOf x then xs.idxOf b + 1 else xs.idxOf b := by
  split_ifs with same earlier
  · rw [same, List.idxOf_cons_self]
  all_goals
    rw [List.idxOf_cons_ne _ (Ne.symm same)]
  -- Both cases follow the list up to the member that moves.
  · induction xs with
    | nil => cases member
    | cons a rest ih =>
      by_cases found : a = x
      · rw [found, List.idxOf_cons_self] at earlier
        omega
      · rw [List.erase_cons_tail (by simpa using found)]
        have behind : x ∈ rest := (List.mem_cons.mp member).resolve_left (Ne.symm found)
        by_cases here : a = b
        · rw [here, List.idxOf_cons_self, List.idxOf_cons_self]
        · rw [List.idxOf_cons_ne _ here, List.idxOf_cons_ne _ found] at earlier
          rw [List.idxOf_cons_ne _ here, List.idxOf_cons_ne _ here,
            ih behind (Nat.lt_of_succ_lt_succ earlier)]
  · induction xs with
    | nil => cases member
    | cons a rest ih =>
      by_cases found : a = x
      · rw [found, List.erase_cons_head, List.idxOf_cons_ne _ (Ne.symm same)]
      · rw [List.erase_cons_tail (by simpa using found)]
        have behind : x ∈ rest := (List.mem_cons.mp member).resolve_left (Ne.symm found)
        by_cases here : a = b
        · rw [here] at found
          rw [here, List.idxOf_cons_self, List.idxOf_cons_ne _ found] at earlier
          omega
        · rw [List.idxOf_cons_ne _ here, List.idxOf_cons_ne _ found] at earlier
          rw [List.idxOf_cons_ne _ here, List.idxOf_cons_ne _ here, ih behind (by omega)]

/-- The members by their places when one moves to the front. -/
theorem getElem?_moveToHead (x : α) (xs : List α) (k : Nat) : (x :: xs.erase x)[k]? =
    if k = 0 then some x else if k ≤ xs.idxOf x then xs[k - 1]? else xs[k]? := by
  cases k with
  | zero => rfl
  | succ k =>
    rw [List.getElem?_cons_succ, List.erase_eq_eraseIdx_of_idxOf rfl, List.getElem?_eraseIdx,
      if_neg (Nat.succ_ne_zero k), Nat.add_sub_cancel]
    simp only [Nat.succ_le_iff]

end

/-- In an ordered list every other member is related to the last one. -/
theorem before_getLast {last y : α} (ordered : xs.Pairwise before)
    (ends : xs.getLast? = some last) (member : y ∈ xs) (other : y ≠ last) : before y last := by
  obtain ⟨front, rfl⟩ : ∃ front, xs = front ++ [last] :=
    ⟨xs.dropLast, (List.dropLast_append_getLast? last ends).symm⟩
  have inside : y ∈ front := by simpa [other] using member
  exact (List.pairwise_append.mp ordered).2.2 y inside last (by simp)

/-- Members with a property stand before all others if the order passes it to the left. -/
theorem split_of_pairwise {good : α → Prop} [DecidablePred good]
    (ordered : xs.Pairwise fun a b => good b → good a) :
    ∃ front back, xs = front ++ back ∧ (∀ a ∈ front, good a) ∧ ∀ b ∈ back, ¬ good b := by
  -- The induction follows the list: a first member without the property ends the front.
  induction xs with
  | nil => exact ⟨[], [], rfl, by simp, by simp⟩
  | cons a rest ih =>
    obtain ⟨head, tail⟩ := List.pairwise_cons.mp ordered
    by_cases fine : good a
    · obtain ⟨front, back, rfl, left, right⟩ := ih tail
      exact ⟨a :: front, back, rfl, by simpa [fine] using left, right⟩
    · refine ⟨[], a :: rest, rfl, by simp, ?_⟩
      intro b member
      rcases List.mem_cons.mp member with rfl | later
      · exact fine
      · exact fun also => fine (head b later also)

end Recency
