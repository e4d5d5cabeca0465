import Mathlib.Data.List.Induction
import Mathlib.Data.List.Pairwise
import Mathlib.Order.Lattice

/-! Loops that count down and break off, and what they leave of a list or of a range. -/

namespace Search

/--
The index at which a loop that counts down ends.

That is the first index that does not fit, or the one below all that the loop may visit.
-/
def descend (fits : Int → Bool) : Nat → Int → Int
  | 0, index => index
  | steps + 1, index => if fits index then descend fits steps (index - 1) else index

/-- The loop has passed only what fits, and stops for a reason. -/
theorem descend_spec (fits : Int → Bool) (steps : Nat) (start : Int) :
    ∃ passed : Nat, passed ≤ steps ∧ descend fits steps start = start - passed ∧
      (∀ index, start - passed < index → index ≤ start → fits index = true) ∧
      (passed < steps → fits (start - passed) = false) := by
  -- The induction follows the loop, whose first round passes one index or none.
  induction steps generalizing start with
  | zero => exact ⟨0, Nat.le_refl 0, by simp [descend], by omega, by omega⟩
  | succ steps ih =>
    rw [descend]
    by_cases first : fits start = true
    · obtain ⟨passed, most, ended, fitting, stops⟩ := ih (start - 1)
      refine ⟨passed + 1, by omega, by rw [if_pos first, ended]; omega, ?_, ?_⟩
      · intro index above below
        by_cases top : index = start
        · exact top ▸ first
        · exact fitting index (by omega) (by omega)
      · intro less
        have stop := stops (by omega)
        rwa [show start - 1 - (passed : Int) = start - (passed + 1 : Nat) by omega] at stop
    · refine ⟨0, by omega, by simp [first], by omega, fun _ => ?_⟩
      simpa using first

variable {α β κ : Type*}

/-- The indices from one down to another, in the order in which a loop visits them. -/
def down (top lowest : Int) : List Int :=
  (List.range (top + 1 - lowest).toNat).map fun (i : Nat) => top - i

theorem mem_down {top lowest index : Int} :
    index ∈ down top lowest ↔ lowest ≤ index ∧ index ≤ top := by
  simp only [down, List.mem_map, List.mem_range]
  constructor
  · rintro ⟨i, below, rfl⟩
    omega
  · rintro ⟨above, below⟩
    exact ⟨(top - index).toNat, by omega, by omega⟩

/-- The indices fall. -/
theorem down_falling (top lowest : Int) : (down top lowest).Pairwise fun i j => j < i := by
  rw [down, List.pairwise_map]
  refine List.pairwise_lt_range.imp fun {i j} less => ?_
  omega

/-- A loop over a list that breaks off at the first element that does not fit. -/
def forBreak (fits : α → Bool) (body : β → α → β) (start : β) (l : List α) : β :=
  (l.takeWhile fits).foldl body start

/-- Breaking off loses nothing where no element fits after one that does not. -/
theorem takeWhile_eq_filter {fits : α → Bool} {l : List α}
    (persists : l.Pairwise fun a b => fits b = true → fits a = true) :
    l.takeWhile fits = l.filter fits := by
  induction l with
  | nil => rfl
  | cons a l ih =>
    obtain ⟨first, rest⟩ := List.pairwise_cons.mp persists
    by_cases fit : fits a = true
    · rw [List.takeWhile_cons_of_pos fit, List.filter_cons_of_pos fit, ih rest]
    · rw [List.takeWhile_cons_of_neg fit, List.filter_cons_of_neg fit, eq_comm,
        List.filter_eq_nil_iff]
      exact fun b member later => fit (first b member later)

section Places

variable {r : α → α → Prop} {before after : List α} {a b : α}

/-- What comes first by an order of the list stands before. -/
theorem mem_front (asymm : ∀ a b, r a b → ¬r b a) (ordered : (before ++ a :: after).Pairwise r)
    (member : b ∈ before ++ a :: after) (first : r b a) : b ∈ before := by
  obtain ⟨-, from_a, -⟩ := List.pairwise_append.mp ordered
  obtain front | rfl | back := List.mem_append.mp member |>.imp_right List.mem_cons.mp
  · exact front
  · exact absurd first (asymm _ _ first)
  · exact absurd first (asymm _ _ ((List.pairwise_cons.mp from_a).1 b back))

/-- What comes later by an order of the list stands behind. -/
theorem mem_back (asymm : ∀ a b, r a b → ¬r b a) (ordered : (before ++ a :: after).Pairwise r)
    (member : b ∈ before ++ a :: after) (later : r a b) : b ∈ after := by
  obtain ⟨-, -, across⟩ := List.pairwise_append.mp ordered
  obtain front | rfl | back := List.mem_append.mp member |>.imp_right List.mem_cons.mp
  · exact absurd later (asymm _ _ (across b front a (by simp)))
  · exact absurd later (asymm _ _ later)
  · exact back

end Places

/-- The first element of a list that has a property, with what stands on both sides of it. -/
theorem exists_first {l : List α} (property : α → Bool) {a : α} (member : a ∈ l)
    (has : property a = true) : ∃ front found back, l = front ++ found :: back ∧
      property found = true ∧ ∀ b ∈ front, property b = false := by
  obtain ⟨found, search⟩ := Option.isSome_iff_exists.mp
    (List.find?_isSome.mpr ⟨a, member, has⟩)
  obtain ⟨holds, front, back, split, passed⟩ := List.find?_eq_some_iff_append.mp search
  exact ⟨front, found, back, split, holds, fun b inside => by simpa using passed b inside⟩

section Gather

variable {ν : Type*} (name : α → ν) (cost : α → Nat)

/-- Keep the names of the cheapest candidates so far, and what they cost. -/
def gather (state : List ν × Option Nat) (a : α) : List ν × Option Nat :=
  match state.2 with
  | none => ([name a], some (cost a))
  | some least =>
    if cost a < least then ([name a], some (cost a))
    else if cost a = least then (name a :: state.1, some (cost a))
    else state

/-- What has been gathered from a list are the names of its cheapest elements. -/
theorem foldl_gather (l : List α) : l = [] ∧ l.foldl (gather name cost) ([], none) = ([], none) ∨
    ∃ least, (l.foldl (gather name cost) ([], none)).2 = some least ∧
      (∃ a ∈ l, cost a = least) ∧ (∀ a ∈ l, least ≤ cost a) ∧
      ∀ n, n ∈ (l.foldl (gather name cost) ([], none)).1 ↔
        ∃ a ∈ l, name a = n ∧ cost a = least := by
  -- The induction is on what the loop has seen, so the last element is the one just gathered.
  induction l using List.reverseRecOn with
  | nil => exact Or.inl ⟨rfl, rfl⟩
  | append_singleton l a ih =>
    right
    rw [List.foldl_append, List.foldl_cons, List.foldl_nil]
    obtain ⟨rfl, start⟩ | ⟨least, known, attained, lower, names⟩ := ih
    · rw [start]
      exact ⟨cost a, rfl, ⟨a, by simp, rfl⟩, by simp, by simp [gather, eq_comm]⟩
    · rcases Nat.lt_trichotomy (cost a) least with less | same | more
      · refine ⟨cost a, by simp [gather, known, less], ⟨a, by simp, rfl⟩, ?_, fun n => ?_⟩
        · intro b member
          obtain old | rfl := List.mem_append.mp member |>.imp_right List.mem_singleton.mp
          · exact Nat.le_of_lt (Nat.lt_of_lt_of_le less (lower b old))
          · exact Nat.le_refl _
        · simp only [gather, known, less, if_true, List.mem_singleton]
          constructor
          · rintro rfl
            exact ⟨a, by simp, rfl, rfl⟩
          · rintro ⟨b, member, rfl, as_low⟩
            obtain old | rfl := List.mem_append.mp member |>.imp_right List.mem_singleton.mp
            · have := lower b old
              omega
            · rfl
      · refine ⟨least, by simp [gather, known, same], ?_, ?_, fun n => ?_⟩
        · exact ⟨a, by simp, same⟩
        · intro b member
          obtain old | rfl := List.mem_append.mp member |>.imp_right List.mem_singleton.mp
          · exact lower b old
          · exact Nat.le_of_eq same.symm
        · simp only [gather, known, same, Nat.lt_irrefl, if_false, if_true, List.mem_cons, names n,
            List.mem_append, List.mem_nil_iff, or_false]
          constructor
          · rintro (rfl | ⟨b, old, named, low⟩)
            · exact ⟨a, Or.inr rfl, rfl, same⟩
            · exact ⟨b, Or.inl old, named, low⟩
          · rintro ⟨b, old | rfl, named, low⟩
            · exact Or.inr ⟨b, old, named, low⟩
            · exact Or.inl named.symm
      · have keeps : gather name cost (l.foldl (gather name cost) ([], none)) a =
            l.foldl (gather name cost) ([], none) := by
          simp [gather, known, Nat.lt_asymm more, Nat.ne_of_gt more]
        obtain ⟨low, inside, lowest⟩ := attained
        refine ⟨least, by rw [keeps, known], ⟨low, by simp [inside], lowest⟩, ?_, fun n => ?_⟩
        · intro b member
          obtain old | rfl := List.mem_append.mp member |>.imp_right List.mem_singleton.mp
          · exact lower b old
          · exact Nat.le_of_lt more
        · rw [keeps, names n]
          constructor
          · rintro ⟨b, old, named, low⟩
            exact ⟨b, by simp [old], named, low⟩
          · rintro ⟨b, member, named, low⟩
            obtain old | rfl := List.mem_append.mp member |>.imp_right List.mem_singleton.mp
            · exact ⟨b, old, named, low⟩
            · omega

/-- A name has been gathered if an element of the list with that name costs no more than any. -/
theorem mem_gathered {l : List α} {n : ν} : n ∈ (l.foldl (gather name cost) ([], none)).1 ↔
    ∃ a ∈ l, name a = n ∧ ∀ b ∈ l, cost a ≤ cost b := by
  obtain ⟨rfl, -⟩ | ⟨least, -, ⟨low, inside, lowest⟩, lower, names⟩ := foldl_gather name cost l
  · simp
  · rw [names]
    constructor
    · rintro ⟨a, member, named, low⟩
      exact ⟨a, member, named, fun b other => low ▸ lower b other⟩
    · rintro ⟨a, member, named, below⟩
      exact ⟨a, member, named, Nat.le_antisymm (lowest ▸ below low inside) (lower a member)⟩

end Gather

section Keep

variable [LinearOrder κ] {cost : α → κ} {replaces : κ → κ → Bool}

/-- Keep the better of two candidates, as far as one cost replaces another. -/
def keep (replaces : κ → κ → Bool) (cost : α → κ) (best : κ × α) (a : α) : κ × α :=
  if replaces (cost a) best.1 then (cost a, a) else best

/-- A test of costs that replaces what is dearer, and nothing that is cheaper. -/
structure Replaces (replaces : κ → κ → Bool) : Prop where
  le : ∀ x y, replaces x y = true → x ≤ y
  ge : ∀ x y, replaces x y = false → y ≤ x
  mono : ∀ x y z, replaces x y = true → y ≤ z → replaces x z = true

/-- Replacing costs that are as high keeps the last of the cheapest candidates. -/
theorem replaces_le : Replaces fun x y : κ => decide (x ≤ y) :=
  ⟨fun _ _ => of_decide_eq_true, fun _ _ higher => (le_total _ _).resolve_left
    (of_decide_eq_false higher), fun _ _ _ first second =>
      decide_eq_true (le_trans (of_decide_eq_true first) second)⟩

/-- Replacing higher costs only keeps the first of the cheapest candidates. -/
theorem replaces_lt : Replaces fun x y : κ => decide (x < y) :=
  ⟨fun _ _ less => le_of_lt (of_decide_eq_true less),
    fun _ _ higher => not_lt.mp (of_decide_eq_false higher), fun _ _ _ first second =>
      decide_eq_true (lt_of_lt_of_le (of_decide_eq_true first) second)⟩

/--
What is kept replaces all candidates before it and is replaced by none after it, unless all of them
leave the start.
-/
theorem foldl_keep (orders : Replaces replaces) (cost : α → κ) (start : κ × α) (l : List α) :
    (l.foldl (keep replaces cost) start = start ∧ ∀ a ∈ l, replaces (cost a) start.1 = false) ∨
    ∃ a before after, l = before ++ a :: after ∧
      l.foldl (keep replaces cost) start = (cost a, a) ∧ replaces (cost a) start.1 = true ∧
      (∀ b ∈ before, replaces (cost a) (cost b) = true) ∧
      ∀ b ∈ after, replaces (cost b) (cost a) = false := by
  -- The induction goes from the end, where the last candidate is kept or not.
  induction l using List.reverseRecOn with
  | nil => exact .inl ⟨rfl, by simp⟩
  | append_singleton l b ih =>
    rw [List.foldl_append, List.foldl_cons, List.foldl_nil]
    obtain ⟨none_kept, left⟩ | ⟨a, before, after, split, kept, entered, passed, stayed⟩ := ih
    · rw [none_kept, keep]
      by_cases better : replaces (cost b) start.1 = true
      · rw [if_pos better]
        exact .inr ⟨b, l, [], rfl, rfl, better,
          fun c member => orders.mono _ _ _ better (orders.ge _ _ (left c member)), by simp⟩
      · rw [if_neg better]
        refine .inl ⟨rfl, fun c member => ?_⟩
        obtain member | member := List.mem_append.mp member
        · exact left c member
        · exact List.mem_singleton.mp member ▸ Bool.eq_false_iff.mpr better
    · rw [kept, keep]
      have bound : ∀ c ∈ l, cost a ≤ cost c := by
        intro c member
        rw [split, List.mem_append, List.mem_cons] at member
        obtain member | rfl | member := member
        · exact orders.le _ _ (passed c member)
        · exact le_rfl
        · exact orders.ge _ _ (stayed c member)
      by_cases better : replaces (cost b) (cost a) = true
      · rw [if_pos better]
        exact .inr ⟨b, l, [], rfl, rfl, orders.mono _ _ _ better (orders.le _ _ entered),
          fun c member => orders.mono _ _ _ better (bound c member), by simp⟩
      · rw [if_neg better]
        refine .inr ⟨a, before, after ++ [b], by rw [split]; simp, rfl, entered, passed, ?_⟩
        intro c member
        obtain member | member := List.mem_append.mp member
        · exact stayed c member
        · exact List.mem_singleton.mp member ▸ Bool.eq_false_iff.mpr better

end Keep

end Search
