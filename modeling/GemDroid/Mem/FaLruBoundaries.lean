import GemDroid.Lib.Recency
import GemDroid.Mem.FaLruLinks
import GemDroid.Mem.FaLruRun

/-! Where the boundaries of the smaller caches lie in the list of the blocks. -/

namespace GemDroid

namespace FaLruConfig

variable {config : FaLruConfig}

/-- The smallest tracked cache has two blocks at least. -/
def Tracks (config : FaLruConfig) : Prop :=
  2 * config.blkSize ≤ 2 ^ 17

theorem size_eq (config : FaLruConfig) : config.size = 2 ^ 17 * 2 ^ config.numCaches := by
  have power := eq_two_pow_log2 config.size_isPowerOf2
  have large : 17 ≤ config.size.log2 := (Nat.le_log2 (by
    have := config.size_large
    omega)).mpr config.size_large
  rw [← Nat.pow_add, numCaches, Nat.add_sub_cancel' large]
  exact power

theorem Tracks.blkSize_dvd (tracks : config.Tracks) : config.blkSize ∣ 2 ^ 17 := by
  rw [Tracks] at tracks
  have small : 2 ^ config.blkSize.log2 ≤ 2 ^ 17 := by
    rw [← eq_two_pow_log2 config.blkSize_isPowerOf2]
    omega
  rw [eq_two_pow_log2 config.blkSize_isPowerOf2]
  exact Nat.pow_dvd_pow 2 ((Nat.pow_le_pow_iff_right (Nat.one_lt_two)).mp small)

theorem blkSize_pos (config : FaLruConfig) : 0 < config.blkSize := by
  rw [eq_two_pow_log2 config.blkSize_isPowerOf2]
  exact Nat.two_pow_pos _

theorem Tracks.blocksIn_mul (tracks : config.Tracks) (i : Nat) :
    config.blocksIn i * config.blkSize = 2 ^ 17 * 2 ^ i := by
  rw [blocksIn, Nat.shiftLeft_eq, Nat.div_mul_cancel (tracks.blkSize_dvd.mul_right _)]

theorem Tracks.blocksIn_succ (tracks : config.Tracks) (i : Nat) :
    config.blocksIn (i + 1) = 2 * config.blocksIn i := by
  refine Nat.eq_of_mul_eq_mul_right config.blkSize_pos ?_
  rw [tracks.blocksIn_mul, Nat.mul_assoc, tracks.blocksIn_mul, Nat.pow_succ]
  omega

theorem Tracks.blocksIn_eq (tracks : config.Tracks) (i : Nat) :
    config.blocksIn i = 2 ^ 17 / config.blkSize * 2 ^ i := by
  induction i with
  | zero => rw [blocksIn, Nat.shiftLeft_zero, Nat.pow_zero, Nat.mul_one]
  | succ i ih =>
    have twice : 2 ^ (i + 1) = 2 * 2 ^ i := Nat.pow_succ'
    rw [tracks.blocksIn_succ, ih, twice, Nat.mul_left_comm]

theorem Tracks.two_le_blocksIn (tracks : config.Tracks) (i : Nat) : 2 ≤ config.blocksIn i := by
  induction i with
  | zero =>
    have whole := tracks.blocksIn_mul 0
    rw [Tracks] at tracks
    by_contra few
    have bound : config.blocksIn 0 * config.blkSize ≤ 1 * config.blkSize :=
      Nat.mul_le_mul_right _ (by omega)
    have positive := config.blkSize_pos
    omega
  | succ i ih =>
    rw [tracks.blocksIn_succ]
    omega

theorem Tracks.blocksIn_lt (tracks : config.Tracks) {i j : Nat} (smaller : i < j) :
    config.blocksIn i < config.blocksIn j := by
  refine strictMono_nat_of_lt_succ (fun i => ?_) smaller
  have some_block := tracks.two_le_blocksIn i
  rw [tracks.blocksIn_succ]
  omega

theorem numBlocks_eq (config : FaLruConfig) :
    config.numBlocks = config.blocksIn config.numCaches := by
  rw [numBlocks, size_eq, blocksIn, Nat.shiftLeft_eq]

end FaLruConfig

namespace FaLru

variable {config : FaLruConfig} {tags after : FaLru} {i j : Nat}

theorem prev_eq (distinct : tags.order.Nodup) {k : Nat} (place : tags.order[k + 1]? = some i) :
    tags.prev i = tags.order[k]? := by
  rw [prev]
  generalize tags.order = order at distinct place
  -- The induction follows the list, whose neighbours are looked through from the front.
  induction order generalizing k with
  | nil => simp at place
  | cons a rest ih =>
    cases rest with
    | nil => simp at place
    | cons b rest =>
      obtain ⟨-, others⟩ := List.nodup_cons.mp distinct
      rw [List.tail_cons, List.zip_cons_cons, List.find?_cons]
      cases k with
      | zero =>
        obtain rfl : b = i := by simpa using place
        simp
      | succ k =>
        have later : b ≠ i := by
          rintro rfl
          have same : k + 1 = 0 := (List.getElem?_inj (by
            rw [List.getElem?_cons_succ] at place
            exact (List.getElem?_eq_some_iff.mp place).1) others).mp (by
              rw [List.getElem?_cons_succ] at place
              rw [place, List.getElem?_cons_zero])
          omega
        rw [beq_eq_false_iff_ne.mpr later]
        exact ih others place

/-- The blocks of every smaller cache come first, and its boundary is the last of them. -/
structure Tracked (config : FaLruConfig) (tags : FaLru) : Prop where
  listed : tags.order.Perm (List.range config.numBlocks)
  inCache : ∀ j < config.numCaches, ∀ b ∈ tags.order,
    (tags.blks b).inCache j = decide (tags.order.idxOf b < config.blocksIn j)
  boundary : ∀ j < config.numCaches,
    tags.cacheBoundaries j = tags.order[config.blocksIn j - 1]?

/-- Whether a block that moves to the front passes the boundary of a smaller cache. -/
def passes (i j : Nat) (tags : FaLru) : Bool :=
  !(tags.blks i).inCache j || tags.cacheBoundaries j == some i

/-- The tag store after some boundaries have been kept for a block that moves to the front. -/
def shifted (i n : Nat) (tags : FaLru) : FaLru :=
  { tags with
    blks := fun b => { tags.blks b with
      inCache := fun j =>
        if j < n ∧ (tags.blks i).inCache j = false ∧ tags.cacheBoundaries j = some b then false
        else (tags.blks b).inCache j }
    cacheBoundaries := fun j =>
      if j < n ∧ tags.passes i j then (tags.cacheBoundaries j).bind tags.prev
      else tags.cacheBoundaries j }

theorem shifted_zero (i : Nat) (tags : FaLru) : tags.shifted i 0 = tags := by
  simp [shifted]

/-- Keeping one more boundary. -/
theorem moveBoundary_shifted (i n : Nat) (tags : FaLru) {last : Nat}
    (real : tags.cacheBoundaries n = some last) :
    moveBoundary i (!(tags.blks i).inCache n) n (tags.shifted i n) =
      .ok (tags.shifted i (n + 1)) := by
  have kept : (tags.shifted i n).cacheBoundaries n = some last := by
    simp [shifted, real]
  have prev (b : Nat) : (tags.shifted i n).prev b = tags.prev b := rfl
  have next (j : Nat) : j < n + 1 ↔ j < n ∨ j = n := by omega
  rw [moveBoundary, kept]
  -- A block from outside pushes the last one out; one from inside may itself be the last.
  cases outside : (tags.blks i).inCache n with
  | false =>
    have passed : tags.passes i n = true := by rw [passes, outside, Bool.not_false, Bool.true_or]
    simp only [Bool.not_false, if_true, Except.ok.injEq, prev]
    simp only [shifted, setBlk, FaLru.mk.injEq]
    refine ⟨funext fun b => ?_, trivial, trivial, funext fun j => ?_⟩
    · rw [Function.update_apply]
      split_ifs with same
      · rw [same, FALRUBlk.mk.injEq]
        refine ⟨rfl, funext fun j => ?_⟩
        rw [Function.update_apply]
        by_cases here : j = n
        · rw [if_pos here, if_pos ⟨by omega, here ▸ outside, here ▸ real⟩]
        · simp only [next, here, or_false, if_false]
      · rw [FALRUBlk.mk.injEq]
        refine ⟨rfl, funext fun j => ?_⟩
        by_cases here : j = n
        · have other : tags.cacheBoundaries j ≠ some b := by
            rw [here, real, ne_eq, Option.some.injEq]
            exact Ne.symm same
          simp only [other, and_false, if_false]
        · simp only [next, here, or_false]
    · rw [Function.update_apply]
      by_cases here : j = n
      · rw [if_pos here, if_pos ⟨by omega, here ▸ passed⟩, here, real, Option.bind_some]
      · simp only [next, here, or_false, if_false]
  | true =>
    have inside (b j : Nat) : (j < n + 1 ∧ (tags.blks i).inCache j = false ∧
        tags.cacheBoundaries j = some b) ↔ (j < n ∧ (tags.blks i).inCache j = false ∧
        tags.cacheBoundaries j = some b) := by
      rw [next]
      constructor
      · rintro ⟨earlier | rfl, out, boundary⟩
        · exact ⟨earlier, out, boundary⟩
        · rw [outside] at out
          cases out
      · rintro ⟨earlier, rest⟩
        exact ⟨.inl earlier, rest⟩
    rw [Bool.not_true, if_neg Bool.false_ne_true]
    have passed : tags.passes i n = decide (last = i) := by
      rw [passes, outside, real]
      rfl
    by_cases here : last = i
    · rw [if_pos (congrArg some here), Except.ok.injEq, prev]
      simp only [shifted, inside, FaLru.mk.injEq, true_and]
      refine funext fun j => ?_
      rw [Function.update_apply]
      by_cases same : j = n
      · rw [if_pos same, if_pos ⟨by omega, by rw [same, passed, decide_eq_true here]⟩, same, real,
          Option.bind_some, here]
      · simp only [next, same, or_false, if_false]
    · rw [if_neg (by rwa [Option.some.injEq]), Except.ok.injEq]
      simp only [shifted, inside, FaLru.mk.injEq, true_and]
      refine funext fun j => ?_
      by_cases same : j = n
      · have stays : tags.passes i j = false := by rw [same, passed, decide_eq_false here]
        simp only [stays, Bool.false_eq_true, and_false]
      · simp only [next, same, or_false]

theorem foldlM_moveBoundary (i : Nat) (tags : FaLru) {n : Nat}
    (real : ∀ j < n, tags.cacheBoundaries j ≠ none) :
    (List.range n).foldlM
      (fun middle j => moveBoundary i (!(tags.blks i).inCache j) j middle) tags =
        .ok (tags.shifted i n) := by
  -- The induction follows the smaller caches, of which the last is kept after the others.
  induction n with
  | zero => rw [shifted_zero]; rfl
  | succ n ih =>
    obtain ⟨last, boundary⟩ := Option.ne_none_iff_exists'.mp (real n (by omega))
    rw [List.range_succ, List.foldlM_append, ih fun j earlier => real j (by omega)]
    simp only [List.foldlM_cons, List.foldlM_nil, bind_pure]
    exact moveBoundary_shifted i n tags boundary

namespace Tracked

variable (tracked : Tracked config tags) (tracks : config.Tracks)

include tracked

theorem distinct : tags.order.Nodup :=
  tracked.listed.nodup_iff.mpr List.nodup_range

theorem mem_iff {b : Nat} : b ∈ tags.order ↔ b < config.numBlocks := by
  rw [tracked.listed.mem_iff, List.mem_range]

theorem length_eq : tags.order.length = config.numBlocks := by
  rw [tracked.listed.length_eq, List.length_range]

include tracks

theorem exists_boundary (smaller : j < config.numCaches) :
    ∃ last, tags.cacheBoundaries j = some last ∧
      tags.order[config.blocksIn j - 1]? = some last := by
  have inside : config.blocksIn j - 1 < tags.order.length := by
    have fewer := tracks.blocksIn_lt smaller
    rw [tracked.length_eq, config.numBlocks_eq]
    omega
  rw [tracked.boundary j smaller, List.getElem?_eq_getElem inside]
  exact ⟨_, rfl, rfl⟩

theorem boundary_ne_none : ∀ j < config.numCaches, tags.cacheBoundaries j ≠ none := by
  intro j smaller
  obtain ⟨last, boundary, -⟩ := tracked.exists_boundary tracks smaller
  rw [boundary]
  exact Option.some_ne_none last

theorem boundary_eq_iff (smaller : j < config.numCaches) {b : Nat} (member : b ∈ tags.order) :
    tags.cacheBoundaries j = some b ↔ tags.order.idxOf b + 1 = config.blocksIn j := by
  obtain ⟨last, boundary, place⟩ := tracked.exists_boundary tracks smaller
  have some_block := tracks.two_le_blocksIn j
  have at_place : tags.order[tags.order.idxOf b]? = some b := by
    rw [List.getElem?_eq_getElem (List.idxOf_lt_length_of_mem member), List.getElem_idxOf]
  rw [boundary, Option.some.injEq]
  constructor
  · rintro rfl
    have same := (List.getElem?_inj (List.getElem?_eq_some_iff.mp place).1 tracked.distinct).mp
      (place.trans at_place.symm)
    omega
  · intro same
    rw [← same, Nat.add_sub_cancel, at_place] at place
    exact (Option.some.inj place).symm

theorem passes_iff (member : i ∈ tags.order) (smaller : j < config.numCaches) :
    tags.passes i j = true ↔ config.blocksIn j ≤ tags.order.idxOf i + 1 := by
  simp only [passes, tracked.inCache j smaller i member, Bool.or_eq_true, Bool.not_eq_true',
    decide_eq_false_iff_not, beq_iff_eq, tracked.boundary_eq_iff tracks smaller member]
  omega

/-- A block that moves to the front leaves the smaller caches and their boundaries in order. -/
theorem moveToHead (member : i ∈ tags.order) :
    ∃ after, moveToHead config i tags = .ok after ∧ Tracked config after ∧
      after.order = i :: tags.order.erase i := by
  rw [FaLru.moveToHead, foldlM_moveBoundary i tags (tracked.boundary_ne_none tracks)]
  refine ⟨_, rfl, ⟨?listed, ?inCache, ?boundary⟩, rfl⟩
  case listed => exact (List.perm_cons_erase member).symm.trans tracked.listed
  case inCache =>
    intro j smaller b inside
    replace inside : b ∈ tags.order := (List.perm_cons_erase member).symm.mem_iff.mp inside
    have some_block := tracks.two_le_blocksIn j
    show (((tags.shifted i config.numCaches).setBlk i _).blks b).inCache j =
      decide ((i :: tags.order.erase i).idxOf b < config.blocksIn j)
    rw [setBlk_blks, Recency.idxOf_moveToHead member]
    by_cases moved : b = i
    · rw [if_pos moved, if_pos moved]
      exact (decide_eq_true (by omega)).symm
    · -- The places of two blocks differ.
      have apart : tags.order.idxOf b ≠ tags.order.idxOf i :=
        fun same => moved ((List.idxOf_inj inside).mp same)
      rw [if_neg moved, if_neg moved]
      simp only [shifted, smaller, true_and, tracked.inCache j smaller i member,
        tracked.inCache j smaller b inside, tracked.boundary_eq_iff tracks smaller inside,
        decide_eq_false_iff_not]
      split_ifs <;> first
        | exact (decide_eq_false (by omega)).symm
        | exact decide_eq_decide.mpr (by omega)
  case boundary =>
    intro j smaller
    have some_block := tracks.two_le_blocksIn j
    obtain ⟨last, boundary, place⟩ := tracked.exists_boundary tracks smaller
    show (tags.shifted i config.numCaches).cacheBoundaries j =
      (i :: tags.order.erase i)[config.blocksIn j - 1]?
    have before : tags.prev last = tags.order[config.blocksIn j - 1 - 1]? :=
      prev_eq tracked.distinct (by rwa [show config.blocksIn j - 1 - 1 + 1 =
        config.blocksIn j - 1 by omega])
    rw [Recency.getElem?_moveToHead, if_neg (by omega), shifted]
    simp only [smaller, true_and, tracked.passes_iff tracks member smaller, boundary, place,
      Option.bind_some, before]
    split_ifs <;> first | rfl | omega

end Tracked

end FaLru

end GemDroid
