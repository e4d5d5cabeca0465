import Mathlib.Tactic.Linarith
import Mathlib.Tactic.Push
import Mathlib.Tactic.Ring
import GemDroid.Ruby.SparseMemory

/-! The keys that the levels cut out of an address, and the address that they give back. -/

namespace GemDroid

section bits

variable {a k : Addr} {small high : Int}

theorem bitSelect_isSome (small_nonneg : 0 ≤ small) (small_le : small ≤ 64) (high_nonneg : 0 ≤ high)
    (high_le : high ≤ 64) :
    (bitSelect small (high - 1) a).isSome ↔ high = 0 ∨ small < high := by
  have low : (small % 2 ^ 32).toNat = small.toNat := by omega
  rw [bitSelect]
  dsimp only
  rw [low]
  constructor
  · intro selected
    by_contra empty
    push Not at empty
    have big : ((high - 1) % 2 ^ 32).toNat = (high - 1).toNat := by omega
    rw [big, if_neg (by omega)] at selected
    cases selected
  · intro range
    have fits : ((high - 1) % 2 ^ 32).toNat ≥ small.toNat := by omega
    rw [if_pos fits]
    split_ifs <;> rfl

/-- The bits that are selected are those of the range, which has no end when it ends before zero. -/
theorem getLsbD_bitSelect (small_nonneg : 0 ≤ small) (small_le : small ≤ 64)
    (high_nonneg : 0 ≤ high) (high_le : high ≤ 64)
    (selected : bitSelect small (high - 1) a = some k) (i : Nat) :
    k.getLsbD i = (a.getLsbD (small.toNat + i) &&
      decide (high = 0 ∨ (small.toNat + i : Int) < high)) := by
  have low : (small % 2 ^ 32).toNat = small.toNat := by omega
  rw [bitSelect] at selected
  dsimp only at selected
  rw [low] at selected
  split_ifs at selected with range whole
  · obtain rfl := Option.some.inj selected
    rw [BitVec.getLsbD_ushiftRight]
    by_cases set : a.getLsbD (small.toNat + i) = true
    · have inside := BitVec.lt_of_getLsbD set
      have counts : high = 0 ∨ (small.toNat + i : Int) < high := by omega
      rw [decide_eq_true counts, Bool.and_true]
    · rw [Bool.not_eq_true] at set
      rw [set, Bool.false_and]
  · obtain rfl := Option.some.inj selected
    have positive : 0 < high := by omega
    have big : ((high - 1) % 2 ^ 32).toNat = (high - 1).toNat := by omega
    rw [big]
    rw [BitVec.getLsbD_ushiftRight, BitVec.getLsbD_and, BitVec.getLsbD_not,
      BitVec.getLsbD_shiftLeft, BitVec.getLsbD_allOnes]
    by_cases set : a.getLsbD (small.toNat + i) = true
    · have inside := BitVec.lt_of_getLsbD set
      rw [set, Bool.true_and, Bool.true_and, decide_eq_true inside, Bool.true_and]
      by_cases counts : small.toNat + i < (high - 1).toNat + 1
      · have ranged : high = 0 ∨ (small.toNat + i : Int) < high := by omega
        rw [decide_eq_true counts, decide_eq_true ranged]
        rfl
      · have beyond : ¬(high = 0 ∨ (small.toNat + i : Int) < high) := by omega
        have masked : small.toNat + i - ((high - 1).toNat + 1) < 64 := by omega
        rw [decide_eq_false counts, decide_eq_false beyond, decide_eq_true masked]
        rfl
    · rw [Bool.not_eq_true] at set
      rw [set, Bool.false_and, Bool.false_and]

end bits

namespace SparseMemory

section cuts

/-- The keys of an address at some levels, each cut out between the bounds of its level. -/
def cuts (bound : Nat → Int) (address : Addr) : (n : Nat) → (level : Nat) → Option (List Addr)
  | 0, _ => some []
  | n + 1, level =>
    (bitSelect (bound (level + 1)) (bound level - 1) address).bind fun curAddress =>
      (cuts bound address n (level + 1)).map (curAddress :: ·)

/-- The address that keys give back, on top of the bits of the levels before. -/
def join (bound : Nat → Int) : (level : Nat) → (address : Addr) → List Addr → Addr
  | _, address, [] => address
  | level, address, curAddress :: keys =>
    join bound (level + 1) (address ||| (curAddress <<< (bound (level + 1)).toNat)) keys

variable {bound : Nat → Int} {a acc : Addr} {n level : Nat} {keys : List Addr}

theorem cuts_succ (cut : cuts bound a (n + 1) level = some keys) : ∃ k ks, keys = k :: ks ∧
    bitSelect (bound (level + 1)) (bound level - 1) a = some k ∧
      cuts bound a n (level + 1) = some ks := by
  rw [cuts] at cut
  obtain ⟨k, selected, rest⟩ := Option.bind_eq_some_iff.mp cut
  obtain ⟨ks, cut', rfl⟩ := Option.map_eq_some_iff.mp rest
  exact ⟨k, ks, rfl, selected, cut'⟩

theorem cuts_length (cut : cuts bound a n level = some keys) : keys.length = n := by
  induction n generalizing level keys with
  | zero =>
    obtain rfl := Option.some.inj cut
    rfl
  | succ n ih =>
    obtain ⟨k, ks, rfl, -, cut'⟩ := cuts_succ cut
    rw [List.length_cons, ih cut']

/-- All bounds are positions in a word. -/
def InWord (bound : Nat → Int) (levels : Nat) : Prop :=
  ∀ level ≤ levels, 0 ≤ bound level ∧ bound level ≤ 64

theorem cuts_isSome (level : Nat) (inWord : InWord bound (level + n)) :
    (cuts bound a n level).isSome ↔
      ∀ l, level ≤ l → l < level + n → bound l = 0 ∨ bound (l + 1) < bound l := by
  induction n generalizing level with
  | zero =>
    rw [cuts]
    exact ⟨fun _ l from_level below => absurd from_level (by omega), fun _ => rfl⟩
  | succ n ih =>
    have here := inWord level (by omega)
    have next := inWord (level + 1) (by omega)
    have range := bitSelect_isSome (a := a) next.1 next.2 here.1 here.2
    have rest := ih (level + 1) (by rwa [show level + 1 + n = level + (n + 1) by omega])
    rw [cuts]
    constructor
    · intro cut l from_level below
      obtain ⟨keys, cut⟩ := Option.isSome_iff_exists.mp cut
      obtain ⟨k, ks, -, selected, cut'⟩ := cuts_succ cut
      rcases from_level.eq_or_lt with rfl | later
      · exact range.mp (by rw [selected]; rfl)
      · exact rest.mp (by rw [cut']; rfl) l later (by omega)
    · intro ranges
      obtain ⟨k, selected⟩ := Option.isSome_iff_exists.mp
        (range.mpr (ranges level (le_refl _) (by omega)))
      obtain ⟨ks, cut⟩ := Option.isSome_iff_exists.mp
        (rest.mpr fun l from_level below => ranges l (by omega) (by omega))
      rw [selected, Option.bind_some, cut]
      rfl

theorem getLsbD_join_of_acc {j : Nat} (set : acc.getLsbD j = true) :
    (join bound level acc keys).getLsbD j = true := by
  induction keys generalizing level acc with
  | nil => exact set
  | cons k ks ih =>
    refine ih ?_
    rw [BitVec.getLsbD_or, set, Bool.true_or]

theorem getLsbD_key {k : Addr} (inWord : InWord bound (level + 1))
    (selected : bitSelect (bound (level + 1)) (bound level - 1) a = some k) (j : Nat) :
    (k <<< (bound (level + 1)).toNat).getLsbD j =
      (decide ((bound (level + 1)).toNat ≤ j) && a.getLsbD j &&
        decide (bound level = 0 ∨ (j : Int) < bound level)) := by
  have here := inWord level (by omega)
  have next := inWord (level + 1) (le_refl _)
  rw [BitVec.getLsbD_shiftLeft, getLsbD_bitSelect next.1 next.2 here.1 here.2 selected]
  by_cases above : (bound (level + 1)).toNat ≤ j
  · have reached : ¬j < (bound (level + 1)).toNat := by omega
    have place : ((bound (level + 1)).toNat : Int) + ((j - (bound (level + 1)).toNat : Nat) : Int) =
        j := by omega
    rw [decide_eq_true above, decide_eq_false reached, Nat.add_sub_cancel' above, place]
    by_cases set : a.getLsbD j = true
    · have inside := BitVec.lt_of_getLsbD set
      rw [set, decide_eq_true inside]
      rfl
    · rw [Bool.not_eq_true] at set
      rw [set, Bool.false_and, Bool.and_false, Bool.and_false, Bool.false_and]
  · have before : j < (bound (level + 1)).toNat := by omega
    rw [decide_eq_false above, decide_eq_true before]
    simp only [Bool.not_true, Bool.and_false, Bool.false_and]

theorem getLsbD_of_join (inWord : InWord bound (level + n))
    (cut : cuts bound a n level = some keys) {j : Nat}
    (set : (join bound level acc keys).getLsbD j = true) :
    acc.getLsbD j = true ∨ a.getLsbD j = true := by
  induction n generalizing level acc keys with
  | zero =>
    obtain rfl := Option.some.inj cut
    exact .inl set
  | succ n ih =>
    obtain ⟨k, ks, rfl, selected, cut'⟩ := cuts_succ cut
    rcases ih (by rwa [show level + 1 + n = level + (n + 1) by omega]) cut' set with here | there
    · rw [BitVec.getLsbD_or, getLsbD_key (fun l le => inWord l (by omega)) selected,
        Bool.or_eq_true, Bool.and_eq_true, Bool.and_eq_true] at here
      exact here.imp_right fun key => key.1.2
    · exact .inr there

theorem getLsbD_join (inWord : InWord bound (level + n)) (cut : cuts bound a n level = some keys)
    {j : Nat} (set : a.getLsbD j = true) (above : bound (level + n) ≤ j)
    (below : (j : Int) < bound level) : (join bound level acc keys).getLsbD j = true := by
  induction n generalizing level acc keys with
  | zero => exact absurd above (by rw [Nat.add_zero]; omega)
  | succ n ih =>
    obtain ⟨k, ks, rfl, selected, cut'⟩ := cuts_succ cut
    by_cases here : bound (level + 1) ≤ j
    · -- The bit lies in the range of this level.
      have reached : (bound (level + 1)).toNat ≤ j := by omega
      have ranged : bound level = 0 ∨ (j : Int) < bound level := .inr below
      rw [join]
      refine getLsbD_join_of_acc ?_
      rw [BitVec.getLsbD_or, getLsbD_key (fun l le => inWord l (by omega)) selected, set,
        decide_eq_true reached, decide_eq_true ranged, Bool.and_self, Bool.and_self, Bool.or_true]
    · have same : level + 1 + n = level + (n + 1) := by omega
      rw [join]
      exact ih (by rwa [same]) cut' (by rwa [same]) (by omega)

theorem join_cuts (inWord : InWord bound n) (cut : cuts bound a n 0 = some keys)
    (between : ∀ j, a.getLsbD j = true → bound n ≤ j ∧ (j : Int) < bound 0) :
    join bound 0 0 keys = a := by
  have inWord' : InWord bound (0 + n) := by rwa [Nat.zero_add]
  refine BitVec.eq_of_getLsbD_eq fun j _ => ?_
  rw [Bool.eq_iff_iff]
  refine ⟨fun set => (getLsbD_of_join inWord' cut set).resolve_left fun never => ?_, fun set => ?_⟩
  · rw [show (0 : Addr) = 0#64 from rfl, BitVec.getLsbD_zero] at never
    cases never
  · exact getLsbD_join inWord' cut set (by rw [Nat.zero_add]; exact (between j set).1)
      (between j set).2

end cuts

section bounds

/-- The bits that the levels before one have, as the constructor shares them out. -/
def bitsBefore (even_level_bits extra : Int) (level : Nat) : Int :=
  level * even_level_bits + min (level : Int) (max extra 0)

/-- The highest bit of a level and one more, in a memory of some sizes. -/
def boundOf (memory_bits block_bits levels : Nat) (level : Nat) : Int :=
  memory_bits - bitsBefore (((memory_bits : Int) - block_bits).tdiv levels)
    (((memory_bits : Int) - block_bits).tmod levels) level

variable {memory_bits block_bits levels : Nat}

theorem bitsBefore_succ (even_level_bits extra : Int) (level : Nat) :
    bitsBefore even_level_bits extra (level + 1) = bitsBefore even_level_bits extra level +
      if (level : Int) < extra then even_level_bits + 1 else even_level_bits := by
  rw [bitsBefore, bitsBefore]
  push_cast
  rw [add_mul, one_mul]
  split_ifs <;> omega

theorem boundOf_zero : boundOf memory_bits block_bits levels 0 = memory_bits := by
  rw [boundOf, bitsBefore]
  simp

theorem boundOf_large (large : block_bits ≤ memory_bits) (level : Nat) :
    boundOf memory_bits block_bits levels level =
      memory_bits - (level * ((memory_bits - block_bits) / levels : Nat) +
        min level ((memory_bits - block_bits) % levels) : Nat) := by
  have parts : ((memory_bits : Int) - block_bits).tdiv levels =
      ((memory_bits - block_bits) / levels : Nat) ∧
      ((memory_bits : Int) - block_bits).tmod levels =
        ((memory_bits - block_bits) % levels : Nat) := by
    rw [← Int.ofNat_sub large]
    exact ⟨rfl, rfl⟩
  rw [boundOf, bitsBefore, parts.1, parts.2]
  push_cast
  omega

theorem boundOf_small (small : memory_bits ≤ block_bits) (level : Nat) :
    boundOf memory_bits block_bits levels level =
      memory_bits + (level * ((block_bits - memory_bits) / levels) : Nat) := by
  have parts : ((memory_bits : Int) - block_bits).tdiv levels =
      -((block_bits - memory_bits) / levels : Nat) ∧
      ((memory_bits : Int) - block_bits).tmod levels =
        -((block_bits - memory_bits) % levels : Nat) := by
    rw [show (memory_bits : Int) - block_bits = -(block_bits - memory_bits : Nat) by omega,
      Int.neg_tdiv, Int.neg_tmod]
    exact ⟨rfl, rfl⟩
  rw [boundOf, bitsBefore, parts.1, parts.2, mul_neg, Nat.cast_mul]
  omega

theorem inWord_boundOf (some_level : 0 < levels) (memory_le : memory_bits ≤ 64)
    (block_le : block_bits ≤ 64) : InWord (boundOf memory_bits block_bits levels) levels ∧
      boundOf memory_bits block_bits levels levels ≤ block_bits := by
  rcases le_total block_bits memory_bits with large | small
  · have whole := Nat.div_add_mod (memory_bits - block_bits) levels
    have less := Nat.mod_lt (memory_bits - block_bits) some_level
    constructor
    · intro level le
      have part := Nat.mul_le_mul_right ((memory_bits - block_bits) / levels) le
      rw [boundOf_large large]
      omega
    · rw [boundOf_large large]
      omega
  · have whole := Nat.div_mul_le_self (block_bits - memory_bits) levels
    rw [mul_comm] at whole
    constructor
    · intro level le
      have part := Nat.mul_le_mul_right ((block_bits - memory_bits) / levels) le
      rw [boundOf_small small]
      omega
    · rw [boundOf_small small]
      omega

/-- The sizes and numbers of levels for which no level has an empty range of bits. -/
def LevelsFit (memory_bits block_bits levels : Nat) : Prop :=
  levels + block_bits ≤ memory_bits ∨ block_bits = 0 ∨
    memory_bits = 0 ∧ (levels = 1 ∨ block_bits < levels)

/-- No level has an empty range, or all that have one end before bit zero, when the levels fit. -/
theorem levelsFit_iff (some_level : 0 < levels) : LevelsFit memory_bits block_bits levels ↔
    ∀ level < levels, boundOf memory_bits block_bits levels level = 0 ∨
      boundOf memory_bits block_bits levels (level + 1) <
        boundOf memory_bits block_bits levels level := by
  rcases le_or_gt block_bits memory_bits with large | small
  · simp only [boundOf_large large, add_mul, one_mul]
    constructor
    · -- A level has a bit at least, or it comes behind those that have all the bits.
      intro fit level below
      by_cases each : (memory_bits - block_bits) / levels = 0
      · have few := (Nat.div_eq_zero_iff_lt some_level).mp each
        rw [each, Nat.mod_eq_of_lt few, LevelsFit] at *
        omega
      · generalize (memory_bits - block_bits) / levels = share at each ⊢
        generalize (memory_bits - block_bits) % levels = extra
        exact .inr (by omega)
    · intro ranges
      by_contra unfit
      rw [LevelsFit] at unfit
      have few : memory_bits - block_bits < levels := by omega
      have last := ranges (memory_bits - block_bits) few
      rw [Nat.div_eq_of_lt few, Nat.mod_eq_of_lt few] at last
      omega
  · simp only [boundOf_small small.le, add_mul, one_mul]
    constructor
    · intro fit level below
      rw [LevelsFit] at fit
      obtain ⟨empty, single | many⟩ : memory_bits = 0 ∧ (levels = 1 ∨ block_bits < levels) := by
        omega
      · exact .inl (by rw [empty, show level = 0 by omega, Nat.zero_mul]; rfl)
      · rw [empty, Nat.sub_zero, Nat.div_eq_of_lt many]
        exact .inl (by omega)
    · intro ranges
      have few := Nat.div_eq_zero_iff_lt (x := block_bits - memory_bits) some_level
      have first := ranges 0 some_level
      have second := ranges 1
      generalize (block_bits - memory_bits) / levels = share at few first second
      have empty : memory_bits = 0 := by omega
      exact .inr (.inr ⟨empty, by omega⟩)

end bounds

section sizes

theorem le_two_pow_ceilLog2 {n : Nat} (positive : 0 < n) : n ≤ 2 ^ ceilLog2 n := by
  rw [ceilLog2]
  split_ifs with one
  · omega
  · have below := (Nat.log2_lt (by omega)).mp (Nat.lt_succ_self (n - 1).log2)
    omega

theorem ceilLog2_le {n k : Nat} (positive : 0 < n) (below : n < 2 ^ k) : ceilLog2 n ≤ k := by
  rw [ceilLog2]
  split_ifs with one
  · exact Nat.zero_le k
  · exact (Nat.log2_lt (by omega)).mpr (by omega)

variable {ruby : RubySystem} {a : Addr}

theorem getMemorySizeBits_le (ruby : RubySystem) : ruby.getMemorySizeBits ≤ 64 := by
  rw [RubySystem.getMemorySizeBits]
  split_ifs with empty
  · exact Nat.zero_le 64
  · exact ceilLog2_le (Nat.pos_of_ne_zero empty) ruby.memory_uint64

theorem getBlockSizeBits_lt (ruby : RubySystem) : ruby.getBlockSizeBits < 32 := by
  have positive : ruby.m_block_size_bytes ≠ 0 := fun zero =>
    absurd ruby.block_isPowerOf2 (by rw [zero]; decide)
  exact (Nat.log2_lt positive).mpr ruby.block_unsigned

/-- An address of a block in the memory. -/
def IsBlock (ruby : RubySystem) (a : Addr) : Prop :=
  a = lineAddress ruby a ∧ a.toNat < ruby.m_memory_size_bytes

theorem IsBlock.between (block : IsBlock ruby a) {j : Nat} (set : a.getLsbD j = true) :
    ruby.getBlockSizeBits ≤ j ∧ j < ruby.getMemorySizeBits := by
  obtain ⟨aligned, inside⟩ := block
  have few := getBlockSizeBits_lt ruby
  constructor
  · by_contra low
    rw [lineAddress, maskLowOrderBits, if_neg (by omega)] at aligned
    rw [aligned, BitVec.getLsbD_and, BitVec.getLsbD_shiftLeft, decide_eq_true (not_le.mp low)]
      at set
    simp at set
  · by_contra high
    have bound : a.toNat < 2 ^ ruby.getMemorySizeBits := by
      rw [RubySystem.getMemorySizeBits, if_neg (by omega)]
      exact inside.trans_le (le_two_pow_ceilLog2 (by omega))
    have none_there := Nat.testBit_lt_two_pow
      (bound.trans_le (Nat.pow_le_pow_right Nat.two_pos (not_lt.mp high)))
    rw [BitVec.getLsbD, none_there] at set
    cases set

end sizes

end SparseMemory

end GemDroid
