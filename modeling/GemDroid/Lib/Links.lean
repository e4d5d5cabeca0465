import Mathlib.Data.List.Nodup
import Mathlib.Logic.Function.Basic

/-! Doubly linked lists of nodes, and the lists that their pointers hold. -/

/-- The pointers of a doubly linked list, which lead from node to node. -/
structure Links (α : Type*) where
  prev : α → Option α
  next : α → Option α
  head : Option α
  tail : Option α

namespace Links

variable {α : Type*} {links : Links α} {order : List α} {a b : α}

/-- The pointers lead through the nodes of a list, each of which stands in it once. -/
structure Holds (links : Links α) (order : List α) : Prop where
  distinct : order.Nodup
  head : links.head = order.head?
  tail : links.tail = order.getLast?
  next : ∀ k a, order[k]? = some a → links.next a = order[k + 1]?
  prev : ∀ k a, order[k + 1]? = some a → links.prev a = order[k]?
  first : ∀ a, order.head? = some a → links.prev a = none

namespace Holds

/-- A node has one place in the list. -/
theorem place_eq (holds : links.Holds order) {k k' : Nat} (at_place : order[k]? = some a)
    (at_place' : order[k']? = some a) : k = k' :=
  (List.getElem?_inj (List.getElem?_eq_some_iff.mp at_place).1 holds.distinct).mp
    (at_place.trans at_place'.symm)

/-- The node before one that is not the first stands right before it. -/
theorem prev_eq (holds : links.Holds order) {k : Nat} (at_place : order[k]? = some a)
    (later : k ≠ 0) : links.prev a = order[k - 1]? := by
  obtain ⟨k, rfl⟩ := Nat.exists_eq_succ_of_ne_zero later
  exact holds.prev k a at_place

/-- The first node is the one with nothing before it. -/
theorem prev_ne_none (holds : links.Holds order) (member : a ∈ order)
    (later : links.head ≠ some a) : links.prev a ≠ none := by
  obtain ⟨k, at_place⟩ := List.mem_iff_getElem?.mp member
  cases k with
  | zero => exact absurd (by rw [holds.head, List.head?_eq_getElem?, at_place]) later
  | succ k =>
    have inside := (List.getElem?_eq_some_iff.mp at_place).1
    rw [holds.prev k a at_place, List.getElem?_eq_getElem (by omega)]
    exact Option.some_ne_none _

/-- The last node is the one with nothing behind it. -/
theorem next_eq_none_iff (holds : links.Holds order) (member : a ∈ order) :
    links.next a = none ↔ links.tail = some a := by
  obtain ⟨k, at_place⟩ := List.mem_iff_getElem?.mp member
  have inside := (List.getElem?_eq_some_iff.mp at_place).1
  rw [holds.next k a at_place, holds.tail, List.getLast?_eq_getElem?, List.getElem?_eq_none_iff]
  constructor
  · intro last
    rwa [show order.length - 1 = k by omega]
  · intro last
    have same := holds.place_eq at_place last
    omega

/-- What stands before a node, by its place. -/
theorem prev_of_place (holds : links.Holds order) {p : Nat} (at_place : order[p]? = some a) :
    links.prev a = if p = 0 then none else order[p - 1]? := by
  split_ifs with first
  · subst first
    exact holds.first a (by rwa [List.head?_eq_getElem?])
  · exact holds.prev_eq at_place first

/-- A node stands before another exactly where their places say so. -/
theorem prev_eq_some_iff (holds : links.Holds order) {p k : Nat} (at_place : order[p]? = some a)
    (at_place' : order[k]? = some b) : links.prev a = some b ↔ k + 1 = p := by
  rw [holds.prev_of_place at_place]
  constructor
  · intro before
    split_ifs at before with first
    have same := holds.place_eq at_place' before
    omega
  · rintro rfl
    rw [if_neg (Nat.succ_ne_zero k), Nat.add_sub_cancel, at_place']

/-- A node stands behind another exactly where their places say so. -/
theorem next_eq_some_iff (holds : links.Holds order) {p k : Nat} (at_place : order[p]? = some a)
    (at_place' : order[k]? = some b) : links.next a = some b ↔ k = p + 1 := by
  rw [holds.next p a at_place]
  exact ⟨fun behind => holds.place_eq at_place' behind, fun same => same ▸ at_place'⟩

end Holds

variable [DecidableEq α]

def setPrev (a : α) (node : Option α) (links : Links α) : Links α :=
  { links with prev := Function.update links.prev a node }

def setNext (a : α) (node : Option α) (links : Links α) : Links α :=
  { links with next := Function.update links.next a node }

/-- Take a node out, so that its neighbours lead to each other. -/
def unlink (a : α) (links : Links α) : Links α :=
  let links' :=
    match links.prev a with
    | some before => links.setNext before (links.next a)
    | none => { links with head := links.next a }
  match links.next a with
  | some behind => links'.setPrev behind (links.prev a)
  | none => { links' with tail := links.prev a }

/-- Put a node before the first one. -/
def pushFront (a : α) (links : Links α) : Links α :=
  let links' := { (links.setNext a links.head).setPrev a none with head := some a }
  match links.head with
  | some first => links'.setPrev first (some a)
  | none => { links' with tail := some a }

@[simp] theorem unlink_head : (links.unlink a).head =
    if links.prev a = none then links.next a else links.head := by
  simp only [unlink, setNext, setPrev]
  cases links.prev a <;> cases links.next a <;> rfl

@[simp] theorem unlink_tail : (links.unlink a).tail =
    if links.next a = none then links.prev a else links.tail := by
  simp only [unlink, setNext, setPrev]
  cases links.prev a <;> cases links.next a <;> rfl

@[simp] theorem unlink_next : (links.unlink a).next b =
    if links.prev a = some b then links.next a else links.next b := by
  simp only [unlink, setNext, setPrev]
  cases links.prev a <;> cases links.next a <;> simp [Function.update_apply, eq_comm]

@[simp] theorem unlink_prev : (links.unlink a).prev b =
    if links.next a = some b then links.prev a else links.prev b := by
  simp only [unlink, setNext, setPrev]
  cases links.prev a <;> cases links.next a <;> simp [Function.update_apply, eq_comm]

@[simp] theorem pushFront_head : (links.pushFront a).head = some a := by
  simp only [pushFront, setNext, setPrev]
  cases links.head <;> rfl

@[simp] theorem pushFront_tail : (links.pushFront a).tail =
    if links.head = none then some a else links.tail := by
  simp only [pushFront, setNext, setPrev]
  cases links.head <;> rfl

@[simp] theorem pushFront_next : (links.pushFront a).next b =
    if b = a then links.head else links.next b := by
  simp only [pushFront, setNext, setPrev]
  cases links.head <;> simp [Function.update_apply]

@[simp] theorem pushFront_prev : (links.pushFront a).prev b =
    if links.head = some b then some a else if b = a then none else links.prev b := by
  simp only [pushFront, setNext, setPrev]
  cases links.head <;> simp [Function.update_apply, eq_comm]

namespace Holds

/-- Taking a node out of the pointers takes it out of the list. -/
theorem unlink (holds : links.Holds order) {p : Nat} (at_place : order[p]? = some a) :
    (links.unlink a).Holds (order.eraseIdx p) := by
  -- Before the place of the node nothing moves, from there on all nodes move by one.
  have inside := (List.getElem?_eq_some_iff.mp at_place).1
  have behind := holds.next p a at_place
  have before := holds.prev_of_place at_place
  have length : (order.eraseIdx p).length = order.length - 1 := List.length_eraseIdx_of_lt inside
  refine ⟨holds.distinct.sublist (List.eraseIdx_sublist ..), ?head, ?tail, ?next, ?prev, ?first⟩
  case head =>
    rw [unlink_head, before, behind, holds.head, List.head?_eq_getElem?, List.head?_eq_getElem?,
      List.getElem?_eraseIdx]
    by_cases first : p = 0
    · simp [first]
    · have some_before : order[p - 1]? ≠ none := by
        rw [List.getElem?_eq_getElem (by omega)]
        exact Option.some_ne_none _
      rw [if_neg first, if_neg some_before, if_pos (by omega)]
  case tail =>
    rw [unlink_tail, before, behind, holds.tail, List.getLast?_eq_getElem?,
      List.getLast?_eq_getElem?, length, List.getElem?_eraseIdx]
    by_cases last : order.length ≤ p + 1
    · rw [if_pos (List.getElem?_eq_none_iff.mpr last)]
      by_cases first : p = 0
      · have single : order.length = 1 := by omega
        simp [first, single]
      · rw [if_neg first, if_pos (by omega), show order.length - 1 - 1 = p - 1 by omega]
    · rw [if_neg (mt List.getElem?_eq_none_iff.mp last), if_neg (by omega),
        show order.length - 1 - 1 + 1 = order.length - 1 by omega]
  case next =>
    intro k b at_b
    rw [List.getElem?_eraseIdx] at at_b
    rw [unlink_next, List.getElem?_eraseIdx]
    split_ifs at at_b with earlier
    · by_cases neighbour : k + 1 = p
      · rw [if_pos ((holds.prev_eq_some_iff at_place at_b).mpr neighbour), if_neg (by omega),
          behind, neighbour]
      · rw [if_neg (mt (holds.prev_eq_some_iff at_place at_b).mp neighbour), if_pos (by omega),
          holds.next k b at_b]
    · rw [if_neg (mt (holds.prev_eq_some_iff at_place at_b).mp (by omega)), if_neg (by omega),
        holds.next (k + 1) b at_b]
  case prev =>
    intro k b at_b
    rw [List.getElem?_eraseIdx] at at_b
    rw [unlink_prev, List.getElem?_eraseIdx]
    split_ifs at at_b with earlier
    · rw [if_neg (mt (holds.next_eq_some_iff at_place at_b).mp (by omega)), if_pos (by omega),
        holds.prev k b at_b]
    · by_cases neighbour : k + 1 + 1 = p + 1
      · rw [if_pos ((holds.next_eq_some_iff at_place at_b).mpr neighbour), before,
          if_neg (by omega), if_pos (by omega), show p - 1 = k by omega]
      · rw [if_neg (mt (holds.next_eq_some_iff at_place at_b).mp neighbour), if_neg (by omega),
          holds.prev (k + 1) b at_b]
  case first =>
    intro b at_b
    rw [List.head?_eq_getElem?, List.getElem?_eraseIdx] at at_b
    rw [unlink_prev]
    split_ifs at at_b with earlier
    · rw [if_neg (mt (holds.next_eq_some_iff at_place at_b).mp (by omega)),
        holds.prev_of_place at_b, if_pos rfl]
    · have front : p = 0 := by omega
      rw [if_pos ((holds.next_eq_some_iff at_place at_b).mpr (by omega)), before, if_pos front]

/-- Putting a new node before the pointers puts it before the list. -/
theorem pushFront (holds : links.Holds order) (new : a ∉ order) :
    (links.pushFront a).Holds (a :: order) := by
  have other {k : Nat} {b : α} (at_b : order[k]? = some b) : b ≠ a := by
    rintro rfl
    exact new (List.mem_of_getElem? at_b)
  have head := holds.head
  rw [List.head?_eq_getElem?] at head
  refine ⟨List.nodup_cons.mpr ⟨new, holds.distinct⟩, pushFront_head, ?tail, ?next, ?prev, ?first⟩
  case tail =>
    rw [pushFront_tail, holds.head, holds.tail]
    cases order with
    | nil => rfl
    | cons b rest => rw [if_neg (by simp), List.getLast?_cons_cons]
  case next =>
    rintro (_ | k) b at_b
    · rw [List.getElem?_cons_zero, Option.some.injEq] at at_b
      rw [pushFront_next, if_pos at_b.symm, List.getElem?_cons_succ, head]
    · rw [List.getElem?_cons_succ] at at_b
      rw [pushFront_next, if_neg (other at_b), List.getElem?_cons_succ, holds.next k b at_b]
  case prev =>
    rintro (_ | k) b at_b
    · rw [List.getElem?_cons_succ] at at_b
      rw [pushFront_prev, head, if_pos at_b, List.getElem?_cons_zero]
    · rw [List.getElem?_cons_succ] at at_b
      have later : links.head ≠ some b := by
        intro first
        have same := holds.place_eq at_b (head.symm.trans first)
        omega
      rw [pushFront_prev, if_neg later, if_neg (other at_b), List.getElem?_cons_succ,
        holds.prev k b at_b]
  case first =>
    intro b at_b
    obtain rfl : a = b := by simpa using at_b
    have later : links.head ≠ some a := fun first => other (head.symm.trans first) rfl
    rw [pushFront_prev, if_neg later, if_pos rfl]

/-- Moving a node to the front of the pointers moves it to the front of the list. -/
theorem moveToFront (holds : links.Holds order) (member : a ∈ order) :
    ((links.unlink a).pushFront a).Holds (a :: order.erase a) := by
  have inside := List.idxOf_lt_length_of_mem member
  have at_place : order[order.idxOf a]? = some a := by
    rw [List.getElem?_eq_getElem inside, List.getElem_idxOf]
  rw [List.erase_eq_eraseIdx_of_idxOf rfl]
  refine (holds.unlink at_place).pushFront ?_
  rw [← List.erase_eq_eraseIdx_of_idxOf rfl]
  exact holds.distinct.not_mem_erase

end Holds

end Links
