import Mathlib.Data.List.Nodup
import Mathlib.Data.List.Perm.Basic

/-! A waiting line of numbered arrivals, some of which are let in before the back of the line. -/

namespace Line

variable {α : Type*} {num : α → Nat}

/--
One arrival goes before another.

It came first and was not overtaken by the other, or it overtook the other.
-/
def Goes (num : α → Nat) (overtaken : List (Nat × Nat)) (a b : α) : Prop :=
  (num a < num b ∧ (num b, num a) ∉ overtaken) ∨ (num a, num b) ∈ overtaken

/-- A line holds each arrival once, in the order in which arrivals go before each other. -/
structure Lined (num : α → Nat) (line arrived : List α) (next : Nat)
    (overtaken : List (Nat × Nat)) : Prop where
  perm : line.Perm arrived
  ordered : line.Pairwise (Goes num overtaken)
  numbered : arrived.Pairwise fun a b => num a < num b
  past : ∀ a ∈ arrived, num a < next
  overtakers : ∀ pair ∈ overtaken, pair.1 < next

variable {line front back arrived : List α} {next : Nat} {overtaken : List (Nat × Nat)} {x : α}

theorem lined_nil (num : α → Nat) : Lined num [] [] 0 [] :=
  ⟨.refl _, .nil, .nil, by simp, by simp⟩

/-- A number may be left out. -/
theorem Lined.skip (lined : Lined num line arrived next overtaken) :
    Lined num line arrived (next + 1) overtaken :=
  { lined with
    past := fun a member => Nat.lt_succ_of_lt (lined.past a member)
    overtakers := fun pair member => Nat.lt_succ_of_lt (lined.overtakers pair member) }

/-- No two arrivals share a number. -/
theorem Lined.eq_of_num_eq (lined : Lined num line arrived next overtaken) {a b : α}
    (here : a ∈ arrived) (there : b ∈ arrived) (same : num a = num b) : a = b := by
  have distinct : (arrived.map num).Nodup := by
    rw [List.Nodup, List.pairwise_map]
    exact lined.numbered.imp fun less => Nat.ne_of_lt less
  exact List.inj_on_of_nodup_map distinct here there same

/-- The arrivals in a line have different numbers. -/
theorem Lined.num_ne (lined : Lined num (front ++ back) arrived next overtaken) {a b : α}
    (ahead : a ∈ front) (behind : b ∈ back) : num a ≠ num b := by
  -- The numbers of the arrivals increase, so the numbers in any order of them are distinct.
  have distinct : ((front ++ back).map num).Nodup := by
    rw [(lined.perm.map num).nodup_iff, List.Nodup, List.pairwise_map]
    exact lined.numbered.imp fun less => Nat.ne_of_lt less
  rw [List.map_append] at distinct
  exact (List.nodup_append.mp distinct).2.2 _ (List.mem_map_of_mem ahead) _
    (List.mem_map_of_mem behind)

/--
An arrival is let in before the back of the line, which it overtakes.

With nobody at the back it goes last.
-/
theorem Lined.letIn (lined : Lined num (front ++ back) arrived next overtaken)
    (number : num x = next) :
    Lined num (front ++ x :: back) (arrived ++ [x]) (next + 1)
      (overtaken ++ back.map fun b => (next, num b)) := by
  -- The new pairs name only the new number, so the old order is not touched by them.
  have known : ∀ a ∈ front ++ back, num a < next := fun a member =>
    lined.past a (lined.perm.mem_iff.mp member)
  have fresh : ∀ pair ∈ overtaken, pair.1 ≠ next := fun pair member =>
    Nat.ne_of_lt (lined.overtakers pair member)
  have pairs : ∀ n, n ≠ next → ∀ m,
      (n, m) ∈ overtaken ++ back.map (fun b => (next, num b)) ↔ (n, m) ∈ overtaken := by
    intro n old m
    constructor
    · intro member
      rcases List.mem_append.mp member with before | new
      · exact before
      · obtain ⟨b, -, same⟩ := List.mem_map.mp new
        exact absurd (Prod.mk.inj same).1.symm old
    · exact fun before => List.mem_append_left _ before
  have kept : ∀ a b, num a < next → num b < next → Goes num overtaken a b →
      Goes num (overtaken ++ back.map fun b => (next, num b)) a b := by
    intro a b lessA lessB goes
    unfold Goes
    rw [pairs (num a) (by omega), pairs (num b) (by omega)]
    exact goes
  have old := List.pairwise_append.mp lined.ordered
  refine ⟨?_, ?_, ?_, ?_, ?_⟩
  · exact List.perm_middle.trans ((lined.perm.cons x).trans (List.perm_append_singleton x _).symm)
  · refine List.pairwise_append.mpr ⟨?_, List.pairwise_cons.mpr ⟨?_, ?_⟩, ?_⟩
    · refine List.Pairwise.imp_of_mem (fun inA inB goes => ?_) old.1
      exact kept _ _ (known _ (by simp [inA])) (known _ (by simp [inB])) goes
    · intro b member
      refine .inr (List.mem_append_right _ ?_)
      rw [number]
      exact List.mem_map.mpr ⟨b, member, rfl⟩
    · refine List.Pairwise.imp_of_mem (fun inA inB goes => ?_) old.2.1
      exact kept _ _ (known _ (by simp [inA])) (known _ (by simp [inB])) goes
    · intro a ahead b behind
      have less := known a (by simp [ahead])
      rcases List.mem_cons.mp behind with rfl | later
      · -- Those at the front came earlier, and only the back is overtaken.
        refine .inl ⟨by omega, fun member => ?_⟩
        rw [number] at member
        rcases List.mem_append.mp member with before | new
        · exact fresh _ before rfl
        · obtain ⟨b, inside, same⟩ := List.mem_map.mp new
          exact lined.num_ne ahead inside (Prod.mk.inj same).2.symm
      · exact kept a b less (known b (by simp [later])) (old.2.2 a ahead b later)
  · refine List.pairwise_append.mpr ⟨lined.numbered, List.pairwise_singleton _ _, ?_⟩
    intro a member b single
    rw [List.mem_singleton.mp single, number]
    exact lined.past a member
  · intro a member
    rcases List.mem_append.mp member with before | new
    · exact Nat.lt_succ_of_lt (lined.past a before)
    · rw [List.mem_singleton.mp new, number]
      exact Nat.lt_succ_self next
  · intro pair member
    rcases List.mem_append.mp member with before | new
    · exact Nat.lt_succ_of_lt (lined.overtakers pair before)
    · obtain ⟨b, -, rfl⟩ := List.mem_map.mp new
      exact Nat.lt_succ_self next

/-- An arrival goes to the end of the line. -/
theorem Lined.append (lined : Lined num line arrived next overtaken) (number : num x = next) :
    Lined num (line ++ [x]) (arrived ++ [x]) (next + 1) overtaken := by
  have empty : Lined num (line ++ []) arrived next overtaken := by simpa using lined
  simpa using empty.letIn number

end Line
