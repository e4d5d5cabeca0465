import Mathlib.Data.List.Perm.Basic
import Mathlib.Data.Nat.Bitwise
import Mathlib.Logic.Function.Basic
import Mathlib.Tactic.Ring

/-! Full trees of bits that lead away from the leaf that was touched last. -/

/-- A full tree with a bit in every inner node, which tells whether the right side was touched. -/
inductive BitTree : Nat → Type
  | leaf : BitTree 0
  | node {n : Nat} (right_touched : Bool) (left right : BitTree n) : BitTree (n + 1)

namespace BitTree

variable {n : Nat}

/-- The leaf that the bits lead to, on the side that was not touched in every node. -/
def victim : {n : Nat} → BitTree n → Nat
  | _, leaf => 0
  | n + 1, node right_touched left right =>
    if right_touched then victim left else 2 ^ n + victim right

/-- Touch a leaf, given by the bits of its number from the top on. -/
def touch (way : Nat) : {n : Nat} → BitTree n → BitTree n
  | _, leaf => leaf
  | n + 1, node _ left right =>
    if way.testBit n then node true left (touch way right) else node false (touch way left) right

/-- Touch the leaf that the bits lead to. -/
def round (t : BitTree n) : BitTree n :=
  t.touch t.victim

/-- The leaves that some rounds lead to. -/
def picks : (rounds : Nat) → BitTree n → List Nat
  | 0, _ => []
  | rounds + 1, t => t.victim :: picks rounds t.round

theorem victim_lt (t : BitTree n) : t.victim < 2 ^ n := by
  induction t with
  | leaf => exact Nat.one_pos
  | node right_touched left right ihLeft ihRight =>
    rw [victim, pow_succ]
    split_ifs <;> omega

/-- Only the bits of a number that the tree has levels for count. -/
theorem touch_congr {way way' : Nat} (t : BitTree n)
    (same : ∀ i < n, way.testBit i = way'.testBit i) : t.touch way = t.touch way' := by
  induction t with
  | leaf => rfl
  | node right_touched left right ihLeft ihRight =>
    rw [touch, touch, same _ (Nat.lt_succ_self _), ihLeft fun i below => same i (by omega),
      ihRight fun i below => same i (by omega)]

/-- The top bit of a number tells its half. -/
theorem testBit_top {way : Nat} (below : way < 2 ^ (n + 1)) :
    way.testBit n = decide (2 ^ n ≤ way) := by
  rw [pow_succ] at below
  rcases lt_or_ge way (2 ^ n) with low | high
  · rw [Nat.testBit_lt_two_pow low, decide_eq_false (not_le.mpr low)]
  · obtain ⟨rest, rfl⟩ := Nat.exists_eq_add_of_le high
    rw [Nat.testBit_two_pow_add_eq, Nat.testBit_lt_two_pow (by omega), decide_eq_true high]
    rfl

/-- After a leaf of one half has been touched, the bits lead to the other half. -/
theorem victim_touch (t : BitTree (n + 1)) {way : Nat} (below : way < 2 ^ (n + 1)) :
    (t.touch way).victim < 2 ^ n ↔ 2 ^ n ≤ way := by
  cases t with
  | node right_touched left right =>
    rw [touch, testBit_top below]
    by_cases high : 2 ^ n ≤ way
    · rw [if_pos (decide_eq_true high), victim, if_pos rfl]
      exact ⟨fun _ => high, fun _ => left.victim_lt⟩
    · rw [if_neg (by simpa using high), victim, if_neg (by decide)]
      exact ⟨fun never => absurd never (by omega), fun never => absurd never high⟩

theorem round_left (left right : BitTree n) :
    (node true left right).round = node false left.round right := by
  rw [round, victim, if_pos rfl, touch, Nat.testBit_lt_two_pow left.victim_lt,
    if_neg (by decide), ← round]

theorem round_right (left right : BitTree n) :
    (node false left right).round = node true left right.round := by
  have low := right.victim_lt
  have same : right.touch (2 ^ n + right.victim) = right.round :=
    right.touch_congr fun i below => Nat.testBit_two_pow_add_gt below _
  rw [round, victim, if_neg (by decide), touch,
    testBit_top (by rw [pow_succ]; omega), if_pos (decide_eq_true (Nat.le_add_right _ _)), same]

/-- Rounds lead to the two sides of a node in turn. -/
theorem picks_node (right_touched : Bool) (left right : BitTree n) (rounds : Nat) :
    ((node right_touched left right).picks (2 * rounds)).Perm
      (left.picks rounds ++ (right.picks rounds).map (2 ^ n + ·)) := by
  -- Two rounds of the node are one of each side.
  induction rounds generalizing left right with
  | zero => exact List.Perm.refl _
  | succ rounds ih =>
    have step := ih left.round right.round
    rw [Nat.mul_succ, picks, picks, picks, picks, List.map_cons]
    cases right_touched with
    | true =>
      rw [round_left, round_right, victim, victim, if_pos rfl, if_neg (by decide),
        List.cons_append]
      exact ((step.cons _).trans List.perm_middle.symm).cons _
    | false =>
      rw [round_right, round_left, victim, victim, if_pos rfl, if_neg (by decide),
        List.cons_append]
      exact (List.Perm.swap _ _ _).trans (((step.cons _).trans List.perm_middle.symm).cons _)

/-- As many rounds as the tree has leaves lead to every leaf once. -/
theorem picks_perm (t : BitTree n) : (t.picks (2 ^ n)).Perm (List.range (2 ^ n)) := by
  induction t with
  | leaf => exact List.Perm.refl _
  | @node n right_touched left right ihLeft ihRight =>
    rw [pow_succ, mul_comm]
    refine (picks_node right_touched left right (2 ^ n)).trans ?_
    rw [two_mul, List.range_add]
    exact ihLeft.append (ihRight.map _)

section layout

/-- The tree of a node when the sides of node `i` are the nodes `2 i + 1` and `2 i + 2`. -/
def ofBits (bits : Nat → Bool) : (n : Nat) → (i : Nat) → BitTree n
  | 0, _ => leaf
  | n + 1, i => node (bits i) (ofBits bits n (2 * i + 1)) (ofBits bits n (2 * i + 2))

/-- Set the bits of the nodes on the way to a leaf. -/
def touchBits (way : Nat) : (n : Nat) → (i : Nat) → (Nat → Bool) → Nat → Bool
  | 0, _, bits => bits
  | n + 1, i, bits =>
    touchBits way n (if way.testBit n then 2 * i + 2 else 2 * i + 1)
      (Function.update bits i (way.testBit n))

/-- A node is in the tree of another one. -/
def Within (n i j : Nat) : Prop :=
  ∃ d < n, (j + 1) / 2 ^ d = i + 1

theorem Within.left {i j : Nat} (within : Within n (2 * i + 1) j) : Within (n + 1) i j := by
  obtain ⟨d, below, here⟩ := within
  exact ⟨d + 1, by omega, by rw [pow_succ, ← Nat.div_div_eq_div_mul, here]; omega⟩

theorem Within.right {i j : Nat} (within : Within n (2 * i + 2) j) : Within (n + 1) i j := by
  obtain ⟨d, below, here⟩ := within
  exact ⟨d + 1, by omega, by rw [pow_succ, ← Nat.div_div_eq_div_mul, here]; omega⟩

/-- A node is not in the trees of its sides. -/
theorem Within.ne {i j : Nat} (within : Within n j i) (deeper : i < j) : False := by
  obtain ⟨d, -, here⟩ := within
  have le := Nat.div_le_self (i + 1) (2 ^ d)
  omega

/-- No node is in the trees of both sides. -/
theorem not_within_both {m i j : Nat} (left : Within n (2 * i + 1) j)
    (right : Within m (2 * i + 2) j) : False := by
  obtain ⟨d, -, here⟩ := left
  obtain ⟨d', -, there⟩ := right
  -- The one that is further down has a number of the other's level above it.
  rcases Nat.lt_trichotomy d d' with less | rfl | more
  · obtain ⟨k, rfl⟩ : ∃ k, d' = d + (k + 1) := ⟨d' - d - 1, by omega⟩
    rw [pow_add, ← Nat.div_div_eq_div_mul, here, pow_succ',
      ← Nat.div_div_eq_div_mul] at there
    have le := Nat.div_le_self ((2 * i + 1 + 1) / 2) (2 ^ k)
    omega
  · omega
  · obtain ⟨k, rfl⟩ : ∃ k, d = d' + (k + 1) := ⟨d - d' - 1, by omega⟩
    rw [pow_add, ← Nat.div_div_eq_div_mul, there, pow_succ',
      ← Nat.div_div_eq_div_mul] at here
    have le := Nat.div_le_self ((2 * i + 2 + 1) / 2) (2 ^ k)
    omega

/-- The tree of a node depends on the bits of its own nodes only. -/
theorem ofBits_congr {bits bits' : Nat → Bool} {i : Nat}
    (same : ∀ j, Within n i j → bits j = bits' j) : ofBits bits n i = ofBits bits' n i := by
  induction n generalizing i with
  | zero => rfl
  | succ n ih =>
    rw [ofBits, ofBits, same i ⟨0, by omega, by rw [pow_zero, Nat.div_one]⟩,
      ih fun j within => same j within.left, ih fun j within => same j within.right]

/-- Touching a leaf of a tree sets no bits elsewhere. -/
theorem touchBits_of_not_within {way i j : Nat} {bits : Nat → Bool} (outside : ¬Within n i j) :
    touchBits way n i bits j = bits j := by
  induction n generalizing i bits with
  | zero => rfl
  | succ n ih =>
    have other : j ≠ i := by
      rintro rfl
      exact outside ⟨0, by omega, by rw [pow_zero, Nat.div_one]⟩
    rw [touchBits, ih, Function.update_of_ne other]
    split_ifs
    · exact fun within => outside within.right
    · exact fun within => outside within.left

/-- Setting the bits on the way to a leaf touches it in the tree. -/
theorem ofBits_touchBits (way : Nat) (i : Nat) (bits : Nat → Bool) :
    ofBits (touchBits way n i bits) n i = (ofBits bits n i).touch way := by
  -- The bit of the node itself and those of the other side stay as they are set here.
  induction n generalizing i bits with
  | zero => rfl
  | succ n ih =>
    have here (b : Bool) {k : Nat} (deeper : i < k) :
        touchBits way n k (Function.update bits i b) i = b := by
      rw [touchBits_of_not_within fun within => within.ne deeper, Function.update_self]
    have above (b : Bool) {k : Nat} (deeper : i < k) :
        ofBits (Function.update bits i b) n k = ofBits bits n k :=
      ofBits_congr fun j within => Function.update_of_ne (by
        rintro rfl
        exact within.ne deeper) ..
    rw [ofBits, ofBits, touch, touchBits]
    cases side : way.testBit n with
    | true =>
      rw [if_pos rfl, if_pos rfl, here true (by omega), ih, above true (by omega)]
      congr 1
      rw [ofBits_congr fun j within => touchBits_of_not_within fun other =>
        not_within_both within other, above true (by omega)]
    | false =>
      rw [if_neg (by decide), if_neg (by decide), here false (by omega), ih,
        above false (by omega)]
      congr 1
      rw [ofBits_congr fun j within => touchBits_of_not_within fun other =>
        not_within_both other within, above false (by omega)]

end layout

end BitTree
