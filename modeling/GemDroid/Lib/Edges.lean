import Mathlib.Order.Monotone.Basic

/-! The edges of a clock whose period may change from one edge to the next. -/

namespace Edges

/-- The edges of a clock: each comes after the one before it by the period at that one. -/
def edge (period : Nat → Nat) : Nat → Nat
  | 0 => 0
  | k + 1 => edge period k + period (edge period k)

/-- An edge is the first one at or after some time. -/
structure First (period : Nat → Nat) (time k : Nat) : Prop where
  reached : time ≤ edge period k
  earlier : ∀ j < k, edge period j < time

section

variable {period : Nat → Nat} {time k n p : Nat}

/-- The edges of a clock that always has some period rise. -/
theorem edge_strictMono (positive : ∀ t, 0 < period t) : StrictMono (edge period) :=
  strictMono_nat_of_lt_succ fun k => Nat.lt_add_of_pos_right (positive (edge period k))

/-- There is only one first edge. -/
theorem First.unique {k' : Nat} (first : First period time k) (first' : First period time k') :
    k = k' := by
  -- Of two first edges the earlier one would have to come before the time and reach it.
  obtain less | same | more := Nat.lt_trichotomy k k'
  · exact absurd first.reached (Nat.not_le.mpr (first'.earlier k less))
  · exact same
  · exact absurd first'.reached (Nat.not_le.mpr (first.earlier k' more))

/-- As long as each edge has the same period, the edges are that far apart. -/
theorem edge_add (same : ∀ i < n, period (edge period k + i * p) = p) :
    edge period (k + n) = edge period k + n * p := by
  induction n with
  | zero => simp
  | succ n ih =>
    have before := ih fun i less => same i (by omega)
    have here := same n (by omega)
    rw [← Nat.add_assoc, edge, before, here, Nat.succ_mul, Nat.add_assoc]

/-- The number of periods from an edge to the first one at or after a later time. -/
theorem First.of_behind (positive : ∀ t, 0 < period t) (some_period : 0 < p)
    (behind : edge period k < time)
    (same : ∀ t, edge period k ≤ t → t < time → period t = p)
    (counted : n = (time - edge period k + p - 1) / p) :
    First period time (k + n) ∧ edge period (k + n) = edge period k + n * p := by
  -- Rounding up reaches the time, and stays less than a period behind it.
  have low := Nat.div_mul_le_self (time - edge period k + p - 1) p
  have high := Nat.lt_div_mul_add (a := time - edge period k + p - 1) some_period
  rw [← counted] at low high
  have within (i : Nat) (less : i < n) : edge period k + i * p < time := by
    have steps : (i + 1) * p ≤ n * p := Nat.mul_le_mul_right p less
    rw [Nat.succ_mul] at steps
    omega
  have sum : edge period (k + n) = edge period k + n * p :=
    edge_add fun i less => same _ (Nat.le_add_right _ _) (within i less)
  refine ⟨⟨by omega, fun j less => ?_⟩, sum⟩
  by_cases old : j ≤ k
  · exact ((edge_strictMono positive).monotone old).trans_lt behind
  · obtain ⟨i, rfl⟩ := Nat.exists_eq_add_of_lt (Nat.not_le.mp old)
    have step : edge period (k + (i + 1)) = edge period k + (i + 1) * p :=
      edge_add fun i' less' => same _ (Nat.le_add_right _ _) (within i' (by omega))
    rw [Nat.add_assoc, step]
    exact within (i + 1) (by omega)

end

section

variable {α : Type*} {start : α} {past rest : List (Nat × α)} {time : Nat}

/-- The value that some changes leave at a time: that of the last change at or before it. -/
def valueAt (start : α) (changes : List (Nat × α)) (time : Nat) : α :=
  changes.foldl (fun value change => if change.1 ≤ time then change.2 else value) start

/-- The value that changes leave in the end. -/
def latest (start : α) (changes : List (Nat × α)) : α :=
  changes.foldl (fun _ change => change.2) start

/-- Until the next change the value is the latest one. -/
theorem valueAt_eq_latest (made : ∀ change ∈ past, change.1 ≤ time)
    (coming : ∀ change ∈ rest, time < change.1) :
    valueAt start (past ++ rest) time = latest start past := by
  have unchanged (value : α) : valueAt value rest time = value := by
    induction rest with
    | nil => rfl
    | cons change rest ih =>
      obtain ⟨first, others⟩ := List.forall_mem_cons.mp coming
      rw [valueAt, List.foldl_cons, if_neg (Nat.not_le.mpr first)]
      exact ih others
  rw [valueAt, List.foldl_append]
  refine (unchanged _).trans ?_
  induction past generalizing start with
  | nil => rfl
  | cons change past ih =>
    obtain ⟨first, others⟩ := List.forall_mem_cons.mp made
    rw [List.foldl_cons, if_pos first]
    exact ih others

/-- What is true of the start and of every change is true at every time. -/
theorem valueAt_induction {holds : α → Prop} {changes : List (Nat × α)} (first : holds start)
    (every : ∀ change ∈ changes, holds change.2) (time : Nat) :
    holds (valueAt start changes time) := by
  induction changes generalizing start with
  | nil => exact first
  | cons change changes ih =>
    obtain ⟨next, others⟩ := List.forall_mem_cons.mp every
    rw [valueAt, List.foldl_cons]
    refine ih ?_ others
    split
    · exact next
    · exact first

/-- So it is of the latest value. -/
theorem latest_induction {holds : α → Prop} {changes : List (Nat × α)} (first : holds start)
    (every : ∀ change ∈ changes, holds change.2) : holds (latest start changes) := by
  induction changes generalizing start with
  | nil => exact first
  | cons change changes ih =>
    obtain ⟨next, others⟩ := List.forall_mem_cons.mp every
    exact ih next others

@[simp] theorem latest_append_singleton (start : α) (changes : List (Nat × α)) (change : Nat × α) :
    latest start (changes ++ [change]) = change.2 := by
  simp [latest]

end

end Edges
