import GemDroid.Lib.Run
import GemDroid.Ruby.PseudoLRU

/-! The packed trees are trees of bits, so that victims are fair and never the last way touched. -/

namespace GemDroid

namespace PseudoLRUPolicy

variable {p q : PseudoLRUPolicy}

section words

theorem getLsbD_one_shiftLeft {tree_index : Nat} (small : tree_index < 31) (j : Nat) :
    (1#32 <<< tree_index).getLsbD j = decide (j = tree_index) := by
  rw [BitVec.getLsbD_shiftLeft, BitVec.getLsbD_one]
  by_cases same : j = tree_index
  · subst same
    simp
    omega
  · by_cases less : j < tree_index
    · simp [same, less]
    · have positive : j - tree_index ≠ 0 := by omega
      simp [same, positive]

theorem getLsbD_node {tree_index : Nat} (small : tree_index < 31) (j : Nat) :
    ((1#32 <<< tree_index).signExtend 64).getLsbD j = decide (j = tree_index) := by
  rw [BitVec.getLsbD_signExtend, BitVec.msb_eq_getLsbD_last, getLsbD_one_shiftLeft small,
    getLsbD_one_shiftLeft small]
  split_ifs with low
  · simp
    omega
  · have top : 31 ≠ tree_index := by omega
    have other : j ≠ tree_index := by omega
    simp [top, other]

theorem getLsbD_not_node {tree_index : Nat} (small : tree_index < 31) (j : Nat) :
    ((~~~(1#32 <<< tree_index)).signExtend 64).getLsbD j =
      (decide (j < 64) && decide (j ≠ tree_index)) := by
  rw [BitVec.getLsbD_signExtend, BitVec.msb_eq_getLsbD_last, BitVec.getLsbD_not,
    BitVec.getLsbD_not, getLsbD_one_shiftLeft small, getLsbD_one_shiftLeft small]
  congr 1
  split_ifs with low
  · simp
    omega
  · simp
    omega

theorem getLsbD_setNode (node_val : Bool) {tree_index : Nat} (small : tree_index < 31)
    (tree : BitVec 64) :
    (setNode node_val tree_index tree).getLsbD =
      Function.update tree.getLsbD tree_index node_val := by
  funext j
  rw [setNode, Function.update_apply]
  cases node_val with
  | true =>
    rw [if_pos rfl, BitVec.getLsbD_or, getLsbD_node small]
    split_ifs with here <;> simp [here]
  | false =>
    rw [if_neg (by decide), BitVec.getLsbD_and, getLsbD_not_node small]
    split_ifs with here
    · simp [here]
    · by_cases inside : j < 64
      · simp [here, inside]
      · simp [inside, BitVec.getLsbD_of_ge tree j (by omega)]

theorem way_bit (index i : Nat) : decide ((index >>> i) &&& 1 = 1) = index.testBit i := by
  rw [Nat.testBit_eq_decide_div_mod_eq, Nat.and_one_is_mod, Nat.shiftRight_eq_div_pow]

theorem tree_bit (tree : BitVec 64) (i : Nat) :
    decide ((tree >>> i) &&& 1#64 = 1#64) = tree.getLsbD i := by
  have bits (j : Nat) : ((tree >>> i) &&& 1#64).getLsbD j = (tree.getLsbD i && decide (j = 0)) := by
    rw [BitVec.getLsbD_and, BitVec.getLsbD_ushiftRight, BitVec.getLsbD_one]
    by_cases here : j = 0 <;> simp [here]
  cases set : tree.getLsbD i with
  | true =>
    refine decide_eq_true (BitVec.eq_of_getLsbD_eq fun j _ => ?_)
    rw [bits, set, BitVec.getLsbD_one]
    simp
  | false =>
    refine decide_eq_false fun same => ?_
    have first := bits 0
    rw [same, set] at first
    exact absurd first (by decide)

theorem touchPath_eq (way : Nat) {levels tree_index : Nat}
    (room : (tree_index + 2) * 2 ^ levels ≤ 64) (tree : BitVec 64) :
    (touchPath way levels tree_index tree).getLsbD =
      BitTree.touchBits way levels tree_index tree.getLsbD := by
  induction levels generalizing tree_index tree with
  | zero => rfl
  | succ levels ih =>
    have positive := Nat.two_pow_pos levels
    rw [pow_succ] at room
    have small : tree_index < 31 := by nlinarith
    rw [touchPath, BitTree.touchBits]
    simp only [way_bit, mul_comm tree_index 2]
    rw [ih _, getLsbD_setNode _ small]
    split_ifs <;> nlinarith

theorem victimPath_eq (tree : BitVec 64) (levels i tree_index index : Nat) :
    victimPath (2 ^ (i + levels)) tree levels i tree_index index =
      index + (BitTree.ofBits tree.getLsbD levels tree_index).victim := by
  induction levels generalizing i tree_index index with
  | zero => rfl
  | succ levels ih =>
    have half : 2 ^ (i + (levels + 1)) >>> (i + 1) = 2 ^ levels := by
      rw [Nat.shiftRight_eq_div_pow, show i + (levels + 1) = (i + 1) + levels by omega, pow_add,
        Nat.mul_div_cancel_left _ (Nat.two_pow_pos _)]
    rw [victimPath, BitTree.ofBits, BitTree.victim]
    simp only [tree_bit, half, mul_comm tree_index 2]
    rw [show i + (levels + 1) = i + 1 + levels by omega, ih]
    split_ifs <;> omega

end words

section construction

theorem effectiveAssoc_eq (assoc : Nat) (positive : 0 < assoc) :
    ∃ levels, effectiveAssoc assoc = some (2 ^ levels) ∧ assoc ≤ 2 ^ levels ∧
      2 ^ levels < 2 * assoc := by
  obtain ⟨e, ended⟩ : ∃ e, effectiveAssoc assoc = some e := by
    refine While.exists_loop (0 < ·) (assoc - ·) (fun e inside tested => ?_) Nat.one_pos
      (by omega)
    have less : e < assoc := of_decide_eq_true tested
    refine ⟨e <<< 1, rfl, ?_, ?_⟩ <;> rw [Nat.shiftLeft_eq] <;> omega
  obtain ⟨⟨levels, rfl, bound⟩, stopped⟩ := While.loop_keeps
    (fun e => ∃ levels, e = 2 ^ levels ∧ e < 2 * assoc) (by
      rintro _ t ⟨levels, rfl, -⟩ tested round
      obtain rfl := Option.some.inj round
      have less : 2 ^ levels < assoc := of_decide_eq_true tested
      refine ⟨levels + 1, ?_, ?_⟩ <;> rw [Nat.shiftLeft_eq] <;> omega)
    ⟨0, rfl, by omega⟩ ended
  exact ⟨levels, ended, not_lt.mp (of_decide_eq_false stopped), bound⟩

theorem numLevels_two_pow (levels : Nat) : numLevels (2 ^ levels) = some (1, levels) := by
  obtain ⟨s, ended⟩ : ∃ s, numLevels (2 ^ levels) = some s := by
    refine While.exists_loop (fun _ => True) Prod.fst (fun s _ tested => ?_) trivial
      (Nat.lt_succ_self _)
    have halves : s.1 / 2 ≠ 0 := of_decide_eq_true tested
    exact ⟨_, rfl, trivial, by dsimp only; omega⟩
  obtain ⟨⟨rest, power, whole⟩, stopped⟩ := While.loop_keeps
    (fun s : Nat × Nat => ∃ rest, s.1 = 2 ^ rest ∧ rest + s.2 = levels) (by
      rintro ⟨a, l⟩ t ⟨rest, power, whole⟩ tested round
      obtain rfl := Option.some.inj round
      have halves : a / 2 ≠ 0 := of_decide_eq_true tested
      dsimp only at power whole ⊢
      cases rest with
      | zero => omega
      | succ rest =>
        refine ⟨rest, ?_, by omega⟩
        rw [power, pow_succ, Nat.mul_div_cancel _ Nat.two_pos])
    ⟨levels, rfl, Nat.add_zero levels⟩ ended
  have none_left : s.1 / 2 = 0 := by simpa using stopped
  -- What cannot be halved any more is one.
  cases rest with
  | zero =>
    rw [ended]
    refine congrArg some (Prod.ext power ?_)
    dsimp only
    omega
  | succ rest =>
    have positive := Nat.two_pow_pos rest
    rw [pow_succ] at power
    omega

/-- The levels of a policy, and its associativity between two powers of two. -/
structure Shaped (p : PseudoLRUPolicy) : Prop where
  levels_pos : 0 < p.m_num_levels
  levels_le : p.m_num_levels ≤ 5
  effective : p.m_effective_assoc = 2 ^ p.m_num_levels
  half_lt : 2 ^ (p.m_num_levels - 1) < p.m_assoc
  assoc_le : p.m_assoc ≤ 2 ^ p.m_num_levels

theorem create_shaped {num_sets assoc : Int} (sets : num_sets > 0) (several : assoc > 1)
    (room : assoc ≤ 32) : ∃ p, create num_sets assoc = some p ∧ Shaped p ∧
      p.m_num_sets = num_sets.toNat % 2 ^ 32 ∧ (p.m_assoc : Int) = assoc := by
  obtain ⟨levels, effective, above, below⟩ := effectiveAssoc_eq assoc.toNat (by omega)
  have few : levels ≤ 5 := by
    by_contra many
    have le : 2 ^ 6 ≤ 2 ^ levels := Nat.pow_le_pow_right Nat.two_pos (by omega)
    omega
  have some_level : 0 < levels := by
    by_contra none_there
    obtain rfl : levels = 0 := by omega
    omega
  have same : assoc.toNat % 2 ^ 32 = assoc.toNat := Nat.mod_eq_of_lt (by omega)
  refine ⟨⟨num_sets.toNat % 2 ^ 32, assoc.toNat % 2 ^ 32, 2 ^ levels, levels, fun _ => 0,
    fun _ _ => 0⟩, ?_, ⟨some_level, few, rfl, ?_, ?_⟩, rfl, ?_⟩
  · rw [create, if_pos ⟨sets, several, room⟩, effective, Option.bind_some, numLevels_two_pow,
      Option.bind_some, if_pos (by dsimp only; omega)]
  · dsimp only
    obtain ⟨l, rfl⟩ : ∃ l, levels = l + 1 := ⟨levels - 1, by omega⟩
    rw [pow_succ] at below
    rw [same, Nat.add_sub_cancel]
    omega
  · dsimp only
    rwa [same]
  · dsimp only
    omega

end construction

section trees

/-- The tree of bits that is packed into a word. -/
def treeOf (levels : Nat) (tree : BitVec 64) : BitTree levels :=
  BitTree.ofBits tree.getLsbD levels 0

theorem treeOf_touchPath {levels : Nat} (few : levels ≤ 5) (way : Nat) (tree : BitVec 64) :
    treeOf levels (touchPath way levels 0 tree) = (treeOf levels tree).touch way := by
  have room : (0 + 2) * 2 ^ levels ≤ 64 := by
    have le : 2 ^ levels ≤ 2 ^ 5 := Nat.pow_le_pow_right Nat.two_pos few
    omega
  rw [treeOf, touchPath_eq way room, BitTree.ofBits_touchBits, ← treeOf]

theorem Shaped.getVictim_eq (shaped : Shaped p) (set : Nat) :
    p.getVictim set =
      some (min (treeOf p.m_num_levels (p.m_trees set)).victim (p.m_assoc - 1)) := by
  have found : victimPath p.m_effective_assoc (p.m_trees set) p.m_num_levels 0 0 0 =
      (treeOf p.m_num_levels (p.m_trees set)).victim := by
    have path := victimPath_eq (p.m_trees set) p.m_num_levels 0 0 0
    rwa [Nat.zero_add, Nat.zero_add, ← shaped.effective] at path
  have below := (treeOf p.m_num_levels (p.m_trees set)).victim_lt
  rw [getVictim, found, if_pos (by rw [shaped.effective]; exact below)]
  congr 1
  split_ifs with beyond
  · exact (min_eq_right beyond.le).symm
  · exact (min_eq_left (not_lt.mp beyond)).symm

theorem Shaped.touch (shaped : Shaped p) {set way time : Nat}
    (touched : p.touch set way time = some q) : Shaped q ∧ way < p.m_assoc ∧
      q.m_num_sets = p.m_num_sets ∧ q.m_assoc = p.m_assoc ∧ q.m_num_levels = p.m_num_levels ∧
      ∀ s, q.m_trees s =
        if s = set then touchPath way p.m_num_levels 0 (p.m_trees s) else p.m_trees s := by
  rw [PseudoLRUPolicy.touch] at touched
  split_ifs at touched with allowed
  obtain rfl := Option.some.inj touched
  refine ⟨⟨shaped.levels_pos, shaped.levels_le, shaped.effective, shaped.half_lt,
    shaped.assoc_le⟩, allowed.1, rfl, rfl, rfl, fun s => ?_⟩
  dsimp only
  rw [Function.update_apply]
  split_ifs with here
  · rw [here]
  · rfl

/-- The bits of the set lead to the other half than that of a way. -/
def Opposite (p : PseudoLRUPolicy) (set way : Nat) : Prop :=
  way < p.m_assoc ∧ ((treeOf p.m_num_levels (p.m_trees set)).victim < 2 ^ (p.m_num_levels - 1) ↔
    2 ^ (p.m_num_levels - 1) ≤ way)

theorem Shaped.victim_ne (shaped : Shaped p) {set way : Nat} (opposite : Opposite p set way) :
    min (treeOf p.m_num_levels (p.m_trees set)).victim (p.m_assoc - 1) ≠ way := by
  obtain ⟨below, other⟩ := opposite
  have half := shaped.half_lt
  -- All ways that are cut off, and the last one, are of the upper half.
  omega

end trees

section runs

/-- The parameters stay, and the tree of every touched set leads away from its last way. -/
theorem Shaped.run (shaped : Shaped p) (touches : List Touch)
    (ran : Machine.run step p touches = some q) : Shaped q ∧ q.m_num_sets = p.m_num_sets ∧
      q.m_assoc = p.m_assoc ∧ ∀ set t, (touches.filter fun t => t.set = set).getLast? = some t →
        Opposite q set t.way := by
  -- The last touch of all is the last one of its set, and the other sets stay as they are.
  induction touches using List.reverseRecOn generalizing q with
  | nil =>
    obtain rfl := Option.some.inj ran
    exact ⟨shaped, rfl, rfl, fun set t never => nomatch never⟩
  | append_singleton touches last ih =>
    rw [Machine.run_concat] at ran
    obtain ⟨m, before, touched⟩ := Option.bind_eq_some_iff.mp ran
    obtain ⟨shaped', sets, assoc, away⟩ := ih before
    obtain ⟨shaped'', below, sets', assoc', levels, trees⟩ := shaped'.touch touched
    refine ⟨shaped'', sets'.trans sets, assoc'.trans assoc, fun set t is_last => ?_⟩
    rw [List.filter_append] at is_last
    rw [Opposite, levels, assoc', trees]
    by_cases here : last.set = set
    · have kept : ([last].filter fun t => t.set = set) = [last] := by simp [here]
      rw [kept, List.getLast?_concat] at is_last
      obtain rfl := Option.some.inj is_last
      refine ⟨below, ?_⟩
      rw [if_pos here.symm, treeOf_touchPath shaped'.levels_le]
      have fits := below.trans_le shaped'.assoc_le
      have positive := shaped'.levels_pos
      generalize m.m_num_levels = levels at positive fits
      cases levels with
      | zero => exact absurd positive (Nat.lt_irrefl 0)
      | succ levels => exact BitTree.victim_touch _ fits
    · have dropped : ([last].filter fun t => t.set = set) = [] := by simp [here]
      rw [dropped, List.append_nil] at is_last
      rw [if_neg (fun same => here same.symm)]
      exact away set t is_last

theorem Shaped.rounds_eq (shaped : Shaped p) (full : p.m_assoc = 2 ^ p.m_num_levels) {set : Nat}
    (known : set < p.m_num_sets) (times : List Nat) :
    rounds set times p = some ((treeOf p.m_num_levels (p.m_trees set)).picks times.length) := by
  induction times generalizing p with
  | nil => rfl
  | cons time times ih =>
    have below := (treeOf p.m_num_levels (p.m_trees set)).victim_lt
    have victim : p.getVictim set = some (treeOf p.m_num_levels (p.m_trees set)).victim := by
      rw [shaped.getVictim_eq, min_eq_left (by omega)]
    obtain ⟨q, touched⟩ : ∃ q,
        p.touch set (treeOf p.m_num_levels (p.m_trees set)).victim time = some q :=
      ⟨_, if_pos ⟨full ▸ below, known⟩⟩
    obtain ⟨shaped', -, sets, assoc, levels, trees⟩ := shaped.touch touched
    have later := ih shaped' (by rw [assoc, levels, full]) (sets ▸ known)
    rw [levels, trees, if_pos rfl, treeOf_touchPath shaped.levels_le, ← BitTree.round] at later
    rw [rounds, victim, Option.bind_some, touched, Option.bind_some, later, List.length_cons,
      BitTree.picks]
    rfl

/--
The victim is a way of the set and not the last one that was touched there, and when no way is cut
off, as many rounds as there are ways select each of them once.
-/
theorem victims_fair (num_sets assoc : Int) (sets : num_sets > 0) (several : assoc > 1)
    (room : assoc ≤ 32) : ∃ p, create num_sets assoc = some p ∧
      p.m_num_sets = num_sets.toNat % 2 ^ 32 ∧
      (∀ touches q, Machine.run step p touches = some q → ∀ set < p.m_num_sets,
        ∃ way : Nat, q.getVictim set = some way ∧ way < assoc ∧
          ∀ t, (touches.filter fun t => t.set = set).getLast? = some t → way ≠ t.way) ∧
      ∀ k : Nat, assoc = 2 ^ k → ∀ m_trees m_last_ref_ptr, ∀ set < p.m_num_sets,
        ∀ times : List Nat, times.length = assoc.toNat →
          ∃ ways, rounds set times { p with m_trees, m_last_ref_ptr } = some ways ∧
            ways.Perm (List.range assoc.toNat) := by
  obtain ⟨p, created, shaped, known, same⟩ := create_shaped sets several room
  refine ⟨p, created, known, fun touches q ran set _ => ?_, fun k power m_trees m_last_ref_ptr set
    inside times whole => ?_⟩
  · obtain ⟨shaped', -, assoc', away⟩ := shaped.run touches ran
    refine ⟨_, shaped'.getVictim_eq set, ?_, fun t last => shaped'.victim_ne (away set t last)⟩
    have positive := shaped'.half_lt
    omega
  · have exact_power : p.m_assoc = 2 ^ k := by
      zify
      rw [same, power]
    -- The associativity is the only power of two in its range.
    have full : p.m_assoc = 2 ^ p.m_num_levels := by
      have above := shaped.half_lt
      have below := shaped.assoc_le
      rw [exact_power] at above below
      have le := (Nat.pow_le_pow_iff_right (le_refl 2)).mp below
      have lt := (Nat.pow_lt_pow_iff_right (le_refl 2)).mp above
      rw [exact_power, show k = p.m_num_levels by omega]
    have shaped' : Shaped { p with m_trees, m_last_ref_ptr } :=
      ⟨shaped.levels_pos, shaped.levels_le, shaped.effective, shaped.half_lt, shaped.assoc_le⟩
    refine ⟨_, shaped'.rounds_eq full inside times, ?_⟩
    rw [whole, ← same, Int.toNat_natCast, full]
    exact BitTree.picks_perm _

/-- The theorem at two sets of four ways. -/
theorem four_ways_fair : ∃ p, create 2 4 = some p ∧ p.m_num_sets = Int.toNat 2 % 2 ^ 32 ∧
    (∀ touches q, Machine.run step p touches = some q → ∀ set < p.m_num_sets,
      ∃ way : Nat, q.getVictim set = some way ∧ (way : Int) < 4 ∧
        ∀ t, (touches.filter fun t => t.set = set).getLast? = some t → way ≠ t.way) ∧
    ∀ k : Nat, (4 : Int) = 2 ^ k → ∀ m_trees m_last_ref_ptr, ∀ set < p.m_num_sets,
      ∀ times : List Nat, times.length = Int.toNat 4 →
        ∃ ways, rounds set times { p with m_trees, m_last_ref_ptr } = some ways ∧
          ways.Perm (List.range (Int.toNat 4)) :=
  victims_fair 2 4 (by decide) (by decide) (by decide)

end runs

end PseudoLRUPolicy

end GemDroid
