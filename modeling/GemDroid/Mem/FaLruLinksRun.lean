import GemDroid.Mem.FaLruBoundaries

/-! The pointers and bits of the fully associative tag store hold its list and smaller caches. -/

namespace GemDroid

open Function (update update_apply)

open Outcome

theorem and_bit_ne_zero {i : Nat} (few : i < 32) (bits : BitVec 32) :
    1#32 <<< i &&& bits ≠ 0 ↔ bits.getLsbD i = true := by
  rw [← BitVec.twoPow_eq, BitVec.twoPow_and]
  cases bits.getLsbD i with
  | false => simp
  | true =>
    have other : BitVec.twoPow 32 i ≠ 0 := by
      intro none
      have bit := congrArg (fun b => b.getLsbD i) none
      simp [few] at bit
    simpa using other

theorem getLsbD_clear_bit {i : Nat} (few : i < 32) (bits : BitVec 32) (j : Nat) :
    (bits &&& ~~~(1#32 <<< i)).getLsbD j = (bits.getLsbD j && !decide (j = i)) := by
  rw [← BitVec.twoPow_eq, BitVec.getLsbD_and, BitVec.getLsbD_not, BitVec.getLsbD_twoPow]
  by_cases inside : j < 32
  · by_cases same : i = j
    · simp [same, inside]
    · simp [inside, few, same, Ne.symm same]
  · simp [BitVec.getLsbD_of_ge bits j (by omega)]

theorem FaLruConfig.numCaches_lt {config : FaLruConfig} (unsigned : config.size < 2 ^ 32) :
    config.numCaches < 15 := by
  have positive := config.size_large
  have few := (Nat.log2_lt (by omega)).mpr unsigned
  rw [numCaches]
  omega

theorem FaLruConfig.cacheMask_getLsbD {config : FaLruConfig} (unsigned : config.size < 2 ^ 32)
    (j : Nat) : config.cacheMask.getLsbD j = decide (j < config.numCaches) := by
  have few := numCaches_lt unsigned
  have inside : 2 ^ config.numCaches < 2 ^ 32 := Nat.pow_lt_pow_right (by decide) (by omega)
  have positive := Nat.two_pow_pos config.numCaches
  have number : config.cacheMask.toNat = 2 ^ config.numCaches - 1 := by
    rw [cacheMask, BitVec.toNat_sub, BitVec.toNat_shiftLeft, BitVec.toNat_ofNat, Nat.shiftLeft_eq]
    omega
  rw [← BitVec.testBit_toNat, number, Nat.testBit_two_pow_sub_one]

namespace FALRU

variable {config : FaLruConfig} {tags after : FALRU} {s : FaLru} {blk : Nat}

/-- The list of the code's pointers and the bits of its words are those of a list of blocks. -/
structure Refines (config : FaLruConfig) (tags : FALRU) (s : FaLru) : Prop where
  blks : ∀ b, (s.blks b).toCacheBlk = tags.blks b
  inCache : ∀ b j,
    (tags.inCache b).getLsbD j = (decide (j < config.numCaches) && (s.blks b).inCache j)
  list : tags.list.Holds s.order
  tagHash : tags.tagHash = s.tagHash
  cacheBoundaries : ∀ j < config.numCaches, tags.cacheBoundaries j = s.cacheBoundaries j

theorem takeOut_eq {list : Links Nat} {order : List Nat} (holds : list.Holds order)
    (member : blk ∈ order) (later : list.head ≠ some blk) :
    takeOut blk list = .ok (list.unlink blk) := by
  obtain ⟨before, before_eq⟩ := Option.ne_none_iff_exists'.mp (holds.prev_ne_none member later)
  rw [takeOut, Links.unlink, before_eq]
  by_cases last : list.tail = some blk
  · have behind := (holds.next_eq_none_iff member).mpr last
    rw [if_pos last, if_neg (by rw [behind]; exact fun other => other rfl), behind]
    rfl
  · obtain ⟨behind, behind_eq⟩ := Option.ne_none_iff_exists'.mp
      (mt (holds.next_eq_none_iff member).mp last)
    rw [if_neg last, behind_eq]
    rfl

theorem relink_holds {list : Links Nat} {order : List Nat} (holds : list.Holds order)
    (member : blk ∈ order) :
    ∃ list', relink blk list = .ok list' ∧ list'.Holds (blk :: order.erase blk) := by
  by_cases first : list.head = some blk
  · obtain ⟨rest, rfl⟩ : ∃ rest, order = blk :: rest := by
      rw [holds.head] at first
      exact ⟨_, (List.cons_head?_tail first).symm⟩
    exact ⟨list, if_pos first, by rwa [List.erase_cons_head]⟩
  · have later : (list.unlink blk).head = list.head := by
      rw [Links.unlink_head, if_neg (holds.prev_ne_none member first)]
    obtain ⟨head, head_eq⟩ : ∃ head, list.head = some head := by
      rw [holds.head]
      exact ⟨_, List.head?_eq_some_head (List.ne_nil_of_mem member)⟩
    refine ⟨(list.unlink blk).pushFront blk, ?_, holds.moveToFront member⟩
    rw [relink, if_neg first, takeOut_eq holds member first, Links.pushFront, later, head_eq]
    show (deref (list.unlink blk).head >>= _) = _
    rw [later, head_eq]
    rfl

theorem moveBoundary_ends (blk : Nat) (mask : BitVec 32) (tags : FALRU) (i : Nat) :
    Ends Any (moveBoundary blk mask tags i) fun after => ∃ bits boundaries,
      after = { tags with inCache := bits, cacheBoundaries := boundaries } := by
  rw [moveBoundary]
  split_ifs
  · cases tags.cacheBoundaries i with
    | none => trivial
    | some last => exact ⟨_, _, rfl⟩
  · exact ⟨_, _, rfl⟩
  · exact ⟨_, _, rfl⟩

theorem moveToHead_ends (config : FaLruConfig) (blk : Nat) (tags : FALRU) :
    Ends Any (moveToHead config blk tags) fun after => ∃ bits boundaries list,
      after = { tags with inCache := bits, cacheBoundaries := boundaries, list } := by
  rw [moveToHead, ends_bind]
  refine (ends_foldlM (I := fun middle => ∃ bits boundaries,
    middle = { tags with inCache := bits, cacheBoundaries := boundaries }) ?_ _
      ⟨_, _, rfl⟩).mono ?_
  · rintro - i ⟨bits, boundaries, rfl⟩
    refine (moveBoundary_ends blk _ _ i).mono ?_
    rintro - ⟨bits', boundaries', rfl⟩
    exact ⟨bits', boundaries', rfl⟩
  · rintro - ⟨bits, boundaries, rfl⟩
    rw [ends_bind]
    refine (ends_any _).mono fun list _ => ?_
    exact ⟨_, _, _, rfl⟩

namespace Refines

variable (refines : Refines config tags s)

include refines

theorem prev_eq {b k : Nat} (place : s.order[k + 1]? = some b) : tags.list.prev b = s.prev b := by
  rw [refines.list.prev k b place, FaLru.prev_eq refines.list.distinct place]

/-- Keeping a boundary of the words keeps that of the bits. -/
theorem moveBoundary (unsigned : config.size < 2 ^ 32) {mask : BitVec 32} {outside : Bool}
    {i last k : Nat} (smaller : i < config.numCaches) (bit : mask.getLsbD i = outside)
    (real : s.cacheBoundaries i = some last) (place : s.order[k + 1]? = some last) {s' : FaLru}
    (moved : FaLru.moveBoundary blk outside i s = .ok s') :
    ∃ after, moveBoundary blk mask tags i = .ok after ∧ Refines config after s' := by
  have few := FaLruConfig.numCaches_lt unsigned
  have boundary := refines.cacheBoundaries i smaller
  have before := refines.prev_eq place
  -- Where the list has its new boundary, the pointers have the same.
  have kept {j : Nat} (inside : j < config.numCaches) :
      update tags.cacheBoundaries i (tags.list.prev last) j =
        update s.cacheBoundaries i (s.prev last) j := by
    rw [update_apply, update_apply, before, refines.cacheBoundaries j inside]
  rw [FaLru.moveBoundary, real] at moved
  rw [FALRU.moveBoundary, boundary, real]
  cases outside with
  | true =>
    rw [if_pos rfl, Except.ok.injEq] at moved
    subst moved
    refine ⟨_, if_pos ((and_bit_ne_zero (by omega) mask).mpr bit), ?_, ?_, refines.list,
      refines.tagHash, fun j inside => kept inside⟩
    · intro b
      rw [FaLru.setBlk_blks]
      split_ifs with same
      · rw [same]
        exact refines.blks last
      · exact refines.blks b
    · intro b j
      show (update tags.inCache last _ b).getLsbD j = _
      rw [FaLru.setBlk_blks, update_apply]
      split_ifs with same
      · rw [getLsbD_clear_bit (by omega), refines.inCache]
        show _ = (_ && update (s.blks last).inCache i false j)
        rw [update_apply]
        split_ifs with here <;> simp [here]
      · exact refines.inCache b j
  | false =>
    rw [if_neg Bool.false_ne_true] at moved
    rw [if_neg (by rw [and_bit_ne_zero (by omega), bit]; exact Bool.false_ne_true)]
    by_cases here : last = blk
    · rw [if_pos (congrArg some here), Except.ok.injEq] at moved
      subst moved here
      exact ⟨_, if_pos rfl, refines.blks, refines.inCache, refines.list, refines.tagHash,
        fun j inside => kept inside⟩
    · have other : some last ≠ some blk := fun same => here (Option.some.inj same)
      rw [if_neg other, Except.ok.injEq] at moved
      subst moved
      exact ⟨tags, if_neg other, refines⟩

theorem foldlM_moveBoundary (unsigned : config.size < 2 ^ 32) (tracks : config.Tracks)
    (tracked : FaLru.Tracked config s) (blk : Nat) {n : Nat} (some_caches : n ≤ config.numCaches) :
    ∃ after, (List.range n).foldlM
        (FALRU.moveBoundary blk (tags.inCache blk ^^^ config.cacheMask)) tags = .ok after ∧
      Refines config after (s.shifted blk n) := by
  -- The induction follows the smaller caches, of which the last is kept after the others.
  induction n with
  | zero => exact ⟨tags, rfl, by rwa [FaLru.shifted_zero]⟩
  | succ n ih =>
    obtain ⟨middle, walked, refined⟩ := ih (by omega)
    obtain ⟨last, boundary, place⟩ := tracked.exists_boundary tracks (show n < _ by omega)
    have some_block := tracks.two_le_blocksIn n
    have bit : (tags.inCache blk ^^^ config.cacheMask).getLsbD n = !(s.blks blk).inCache n := by
      rw [BitVec.getLsbD_xor, refines.inCache, FaLruConfig.cacheMask_getLsbD unsigned,
        decide_eq_true (show n < config.numCaches by omega), Bool.true_and, Bool.xor_true]
    have kept : (s.shifted blk n).cacheBoundaries n = some last := by
      simp [FaLru.shifted, boundary]
    obtain ⟨after, moved, refined'⟩ := refined.moveBoundary unsigned (by omega) bit kept
      (by rwa [show config.blocksIn n - 1 = config.blocksIn n - 2 + 1 by omega] at place)
      (FaLru.moveBoundary_shifted blk n s boundary)
    refine ⟨after, ?_, refined'⟩
    rw [List.range_succ, List.foldlM_append, walked]
    simp only [List.foldlM_cons, List.foldlM_nil, bind_pure]
    exact moved

theorem moveToHead (unsigned : config.size < 2 ^ 32) (tracks : config.Tracks)
    (tracked : FaLru.Tracked config s) (member : blk ∈ s.order) :
    ∃ after s', moveToHead config blk tags = .ok after ∧ FaLru.moveToHead config blk s = .ok s' ∧
      Refines config after s' ∧ FaLru.Tracked config s' ∧ s'.order = blk :: s.order.erase blk := by
  obtain ⟨middle, walked, refined⟩ :=
    refines.foldlM_moveBoundary unsigned tracks tracked blk (Nat.le_refl _)
  obtain ⟨list, relinked, holds⟩ := relink_holds refined.list member
  obtain ⟨s', moved, tracked', order⟩ := tracked.moveToHead tracks member
  refine ⟨{ middle.setInCache blk config.cacheMask with list }, s', ?_, moved, ?_, tracked', order⟩
  · rw [FALRU.moveToHead, walked]
    show (relink blk middle.list >>= _) = _
    rw [relinked]
    rfl
  · rw [FaLru.moveToHead,
      FaLru.foldlM_moveBoundary blk s (tracked.boundary_ne_none tracks)] at moved
    obtain rfl := Except.ok.inj moved
    refine ⟨fun b => ?_, fun b j => ?_, holds, refined.tagHash, refined.cacheBoundaries⟩
    · show (((s.shifted blk config.numCaches).setBlk blk _).blks b).toCacheBlk = _
      rw [FaLru.setBlk_blks]
      split_ifs with same
      · rw [same]
        exact refined.blks blk
      · exact refined.blks b
    · show (update middle.inCache blk config.cacheMask b).getLsbD j =
        (_ && (((s.shifted blk config.numCaches).setBlk blk _).blks b).inCache j)
      rw [FaLru.setBlk_blks, update_apply]
      split_ifs with same
      · rw [FaLruConfig.cacheMask_getLsbD unsigned]
        exact (Bool.and_true _).symm
      · exact refined.inCache b j

end Refines

/-- The first blocks are set up, up to one that lies before the next boundary. -/
structure Building.Built (config : FaLruConfig) (raw : Nat → Nat → UInt8) (m : Nat)
    (b : Building) : Prop where
  blks : b.tags.blks = (ends config raw).blks
  tagHash : ∀ a, b.tags.tagHash a = none
  inCache : ∀ k c, (b.tags.inCache k).getLsbD c =
    (decide (c < config.numCaches) && decide (k ≤ m ∧ k < config.blocksIn c))
  prev : ∀ k, b.tags.list.prev k =
    if k = 0 then none else if k ≤ m ∨ k + 1 = config.numBlocks then some (k - 1) else none
  next : ∀ k, b.tags.list.next k = if k ≤ m then some (k + 1) else none
  head : b.tags.list.head = some 0
  tail : b.tags.list.tail = some (config.numBlocks - 1)
  j : b.j ≤ config.numCaches
  index : b.index = BitVec.ofNat 32 (config.blocksIn b.j)
  behind : m + 1 < config.blocksIn b.j
  before : ∀ c < b.j, config.blocksIn c ≤ m + 1
  flags : ∀ c, b.flags.getLsbD c = (decide (c < config.numCaches) && decide (b.j ≤ c))
  boundary : ∀ c < b.j, b.tags.cacheBoundaries c = some (config.blocksIn c - 1)

theorem begun_built (unsigned : config.size < 2 ^ 32) (tracks : config.Tracks)
    (raw : Nat → Nat → UInt8) :
    (begun config raw).Built config raw 0 := by
  have some_block := tracks.two_le_blocksIn
  have twoBlocks : 2 ≤ config.numBlocks := config.numBlocks_eq ▸ some_block _
  refine ⟨rfl, fun _ => rfl, ?inCache, ?prev, ?next, rfl, rfl, Nat.zero_le _, ?index, ?behind,
    fun c earlier => absurd earlier (Nat.not_lt_zero c), ?flags,
    fun c earlier => absurd earlier (Nat.not_lt_zero c)⟩
  case inCache =>
    intro k c
    have first := some_block c
    simp only [begun, ends, update_apply]
    split_ifs with same
    · rw [FaLruConfig.cacheMask_getLsbD unsigned, decide_eq_true (p := k ≤ 0 ∧ _) (by omega),
        Bool.and_true]
    · rw [BitVec.getLsbD_zero, decide_eq_false (p := k ≤ 0 ∧ _) (by omega), Bool.and_false]
  case prev =>
    intro k
    simp only [begun, ends, update_apply]
    split_ifs <;> first | rfl | omega | exact congrArg some (by omega)
  case next =>
    intro k
    simp only [begun, ends, update_apply]
    split_ifs <;> first | rfl | omega | exact congrArg some (by omega)
  case index => rw [begun, FaLruConfig.blocksIn, Nat.shiftLeft_zero]
  case behind => exact some_block 0
  case flags =>
    intro c
    show config.cacheMask.getLsbD c = (_ && decide (0 ≤ c))
    rw [FaLruConfig.cacheMask_getLsbD unsigned, decide_eq_true (Nat.zero_le c), Bool.and_true]

theorem blocksIn_unsigned (unsigned : config.size < 2 ^ 32) (tracks : config.Tracks) {j : Nat}
    (tracked : j ≤ config.numCaches) : config.blocksIn j < 2 ^ 32 := by
  have all : config.blocksIn config.numCaches ≤ config.size := by
    rw [← config.numBlocks_eq, FaLruConfig.numBlocks]
    exact Nat.div_le_self ..
  rcases Nat.lt_or_eq_of_le tracked with smaller | rfl
  · have fewer := tracks.blocksIn_lt smaller
    omega
  · omega

/-- The next block is set up. -/
theorem Building.Built.add (unsigned : config.size < 2 ^ 32) (tracks : config.Tracks)
    {raw : Nat → Nat → UInt8} {m : Nat} {b : Building} (built : b.Built config raw m)
    (inside : m + 3 ≤ config.numBlocks) : (b.add (m + 1)).Built config raw (m + 1) := by
  have few := FaLruConfig.numCaches_lt unsigned
  have number := blocksIn_unsigned unsigned tracks built.j
  have behind := built.behind
  have j := built.j
  have whole := config.numBlocks_eq
  have at_boundary : BitVec.ofNat 32 (m + 1) = b.index - 1#32 ↔ m + 2 = config.blocksIn b.j := by
    rw [built.index, BitVec.toNat_eq, BitVec.toNat_sub, BitVec.toNat_ofNat, BitVec.toNat_ofNat,
      BitVec.toNat_ofNat]
    omega
  -- Exactly the smaller caches whose flag is left reach up to the block.
  have reach {c : Nat} : b.j ≤ c ↔ m + 1 < config.blocksIn c := by
    constructor
    · intro later
      rcases Nat.lt_or_eq_of_le later with more | rfl
      · have larger := tracks.blocksIn_lt more
        omega
      · exact behind
    · intro far
      by_contra earlier
      have near := built.before c (by omega)
      omega
  have inCache (k c : Nat) : (update b.tags.inCache (m + 1) b.flags k).getLsbD c =
      (decide (c < config.numCaches) && decide (k ≤ m + 1 ∧ k < config.blocksIn c)) := by
    rw [update_apply]
    split_ifs with same
    · rw [built.flags, same]
      congr 1
      exact decide_eq_decide.mpr (by rw [reach]; omega)
    · rw [built.inCache]
      congr 1
      exact decide_eq_decide.mpr (by omega)
  have prev (k : Nat) : update b.tags.list.prev (m + 1) (some (m + 1 - 1)) k =
      if k = 0 then none
      else if k ≤ m + 1 ∨ k + 1 = config.numBlocks then some (k - 1) else none := by
    rw [update_apply, built.prev]
    split_ifs <;> first | rfl | omega | exact congrArg some (by omega)
  have next (k : Nat) : update b.tags.list.next (m + 1) (some (m + 1 + 1)) k =
      if k ≤ m + 1 then some (k + 1) else none := by
    rw [update_apply, built.next]
    split_ifs <;> first | rfl | omega | exact congrArg some (by omega)
  rw [Building.add]
  by_cases here : m + 2 = config.blocksIn b.j
  · rw [if_pos (at_boundary.mpr here)]
    have smaller : b.j < config.numCaches := by
      by_contra last
      rw [show b.j = config.numCaches by omega] at here
      omega
    refine ⟨built.blks, built.tagHash, inCache, prev, next, built.head, built.tail, smaller,
      ?index, ?behind, ?before, ?flags, ?boundary⟩
    case index =>
      show b.index <<< 1 = BitVec.ofNat 32 (config.blocksIn (b.j + 1))
      rw [built.index, tracks.blocksIn_succ, BitVec.toNat_eq, BitVec.toNat_shiftLeft,
        BitVec.toNat_ofNat, BitVec.toNat_ofNat, Nat.shiftLeft_eq]
      omega
    case behind =>
      show m + 1 + 1 < config.blocksIn (b.j + 1)
      rw [tracks.blocksIn_succ]
      omega
    case before =>
      intro c earlier
      rcases Nat.lt_succ_iff_lt_or_eq.mp earlier with lower | rfl
      · have near := built.before c lower
        omega
      · omega
    case flags =>
      intro c
      show (b.flags &&& ~~~(1#32 <<< b.j)).getLsbD c = (_ && decide (b.j + 1 ≤ c))
      rw [getLsbD_clear_bit (by omega), built.flags, Bool.and_assoc]
      congr 1
      rw [← decide_not, ← Bool.decide_and]
      exact decide_eq_decide.mpr (by omega)
    case boundary =>
      intro c earlier
      replace earlier : c < b.j + 1 := earlier
      show update b.tags.cacheBoundaries b.j (some (m + 1)) c = _
      rw [update_apply]
      split_ifs with same
      · rw [same, ← here]
        rfl
      · exact built.boundary c (by omega)
  · rw [if_neg (mt at_boundary.mp here)]
    have farther : m + 1 + 1 < config.blocksIn b.j := by omega
    exact ⟨built.blks, built.tagHash, inCache, prev, next, built.head, built.tail, j, built.index,
      farther, fun c earlier => (built.before c earlier).trans (Nat.le_succ _), built.flags,
      built.boundary⟩

theorem Building.foldl_built (unsigned : config.size < 2 ^ 32) (tracks : config.Tracks)
    (raw : Nat → Nat → UInt8) {start : Building} (built : start.Built config raw 0) {m : Nat}
    (inside : m + 2 ≤ config.numBlocks) :
    ((List.range' 1 m).foldl Building.add start).Built config raw m := by
  induction m with
  | zero => exact built
  | succ m ih =>
    rw [List.range'_1_concat, List.foldl_append, Nat.add_comm 1 m]
    exact (ih (by omega)).add unsigned tracks inside

theorem getElem?_range_eq (n k : Nat) : (List.range n)[k]? = if k < n then some k else none := by
  split_ifs with inside
  · exact List.getElem?_range inside
  · exact List.getElem?_eq_none (by rw [List.length_range]; omega)

theorem Building.Built.holds {raw : Nat → Nat → UInt8} {b : Building}
    (twoBlocks : 2 ≤ config.numBlocks) (built : b.Built config raw (config.numBlocks - 2)) :
    b.tags.list.Holds (List.range config.numBlocks) := by
  have at_place {k a : Nat} (place : (List.range config.numBlocks)[k]? = some a) :
      k < config.numBlocks ∧ a = k := by
    rw [getElem?_range_eq] at place
    split_ifs at place with inside
    exact ⟨inside, (Option.some.inj place).symm⟩
  refine ⟨List.nodup_range, ?head, ?tail, ?next, ?prev, ?first⟩
  case head => rw [built.head, List.head?_range, if_neg (by omega)]
  case tail => rw [built.tail, List.getLast?_range, if_neg (by omega)]
  case next =>
    intro k a place
    obtain ⟨inside, rfl⟩ := at_place place
    rw [built.next, getElem?_range_eq]
    split_ifs <;> first | rfl | omega
  case prev =>
    intro k a place
    obtain ⟨inside, rfl⟩ := at_place place
    rw [built.prev, getElem?_range_eq, if_neg (Nat.succ_ne_zero k), if_pos (by omega),
      if_pos (by omega), Nat.add_sub_cancel]
  case first =>
    intro a place
    rw [List.head?_eq_getElem?] at place
    rw [built.prev, if_pos (at_place place).2]

theorem Building.Built.refines (tracks : config.Tracks) {raw : Nat → Nat → UInt8} {b : Building}
    (built : b.Built config raw (config.numBlocks - 2)) (whole : b.j = config.numCaches) :
    Refines config b.tags (FaLru.start config raw) := by
  have twoBlocks : 2 ≤ config.numBlocks := config.numBlocks_eq ▸ tracks.two_le_blocksIn _
  refine ⟨fun k => ?_, fun k c => ?_, built.holds twoBlocks, funext built.tagHash,
    fun c smaller => ?_⟩
  · rw [built.blks]
    rfl
  · rw [built.inCache]
    by_cases smaller : c < config.numCaches
    · -- A smaller cache has at most half of the blocks.
      have half : 2 * config.blocksIn c ≤ config.numBlocks := by
        rw [← tracks.blocksIn_succ, config.numBlocks_eq]
        rcases Nat.lt_or_eq_of_le (show c + 1 ≤ config.numCaches from smaller) with less | same
        · exact (tracks.blocksIn_lt less).le
        · rw [same]
      have reach : ((FaLru.start config raw).blks k).inCache c =
          decide (k < 2 ^ 17 / config.blkSize * 2 ^ c) := rfl
      rw [reach, ← tracks.blocksIn_eq]
      congr 1
      exact decide_eq_decide.mpr (by omega)
    · rw [decide_eq_false smaller, Bool.false_and, Bool.false_and]
  · rw [built.boundary c (whole ▸ smaller), tracks.blocksIn_eq]
    rfl

theorem start_tracked (tracks : config.Tracks) (raw : Nat → Nat → UInt8) :
    FaLru.Tracked config (FaLru.start config raw) := by
  refine ⟨.refl _, fun c smaller b member => ?_, fun c smaller => ?_⟩
  · have place : (List.range config.numBlocks).idxOf b = b := by
      have inside := List.mem_range.mp member
      have at_place := List.nodup_range.idxOf_getElem b (by rwa [List.length_range])
      rwa [List.getElem_range] at at_place
    show decide (b < _) = decide ((List.range config.numBlocks).idxOf b < _)
    rw [place, tracks.blocksIn_eq]
  · have fewer := tracks.blocksIn_lt smaller
    have some_block := tracks.two_le_blocksIn c
    show some (2 ^ 17 / config.blkSize * 2 ^ c - 1) = (List.range config.numBlocks)[_]?
    rw [← tracks.blocksIn_eq, List.getElem?_range (by rw [config.numBlocks_eq]; omega)]

theorem Building.foldl_stuck (coarse : ¬config.Tracks) (raw : Nat → Nat → UInt8) {m : Nat}
    (inside : m + 2 < 2 ^ 32) :
    ((List.range' 1 m).foldl Building.add (begun config raw)).j = 0 ∧
      ((List.range' 1 m).foldl Building.add (begun config raw)).index =
        BitVec.ofNat 32 (2 ^ 17 / config.blkSize) := by
  have few : 2 ^ 17 / config.blkSize < 2 := by
    rw [FaLruConfig.Tracks] at coarse
    exact (Nat.div_lt_iff_lt_mul config.blkSize_pos).mpr (by omega)
  induction m with
  | zero => exact ⟨rfl, rfl⟩
  | succ m ih =>
    obtain ⟨j, index⟩ := ih (by omega)
    rw [List.range'_1_concat, List.foldl_append, List.foldl_cons, List.foldl_nil, Building.add]
    have elsewhere : BitVec.ofNat 32 (1 + m) ≠
        ((List.range' 1 m).foldl Building.add (begun config raw)).index - 1#32 := by
      rw [index, ne_eq, BitVec.toNat_eq, BitVec.toNat_sub, BitVec.toNat_ofNat, BitVec.toNat_ofNat,
        BitVec.toNat_ofNat]
      generalize 2 ^ 17 / config.blkSize = blocks at few
      omega
    rw [if_neg elsewhere]
    exact ⟨j, index⟩

theorem numBlocks_unsigned (unsigned : config.size < 2 ^ 32) : config.numBlocks < 2 ^ 32 := by
  rw [FaLruConfig.numBlocks]
  exact (Nat.div_le_self ..).trans_lt unsigned

theorem construct_eq (unsigned : config.size < 2 ^ 32) {raw : Nat → Nat → UInt8}
    (made : construct config raw = some tags) :
    config.Tracks ∧ Refines config tags (FaLru.start config raw) := by
  have blocks := numBlocks_unsigned unsigned
  rw [construct] at made
  split_ifs at made with fine
  obtain rfl := Option.some.inj made
  have tracks : config.Tracks := by
    by_contra coarse
    have stuck := (Building.foldl_stuck coarse raw (m := config.numBlocks - 2) (by omega)).1
    -- Without a smaller cache there are two blocks of the smallest size.
    have none_tracked : config.numCaches = 0 := fine.1.symm.trans stuck
    have size := config.size_eq
    have twoBlocks := config.twoBlocks
    rw [none_tracked, Nat.pow_zero, Nat.mul_one] at size
    exact coarse (twoBlocks.trans_eq size)
  have twoBlocks : 2 ≤ config.numBlocks := config.numBlocks_eq ▸ tracks.two_le_blocksIn _
  have built := Building.foldl_built unsigned tracks raw (begun_built unsigned tracks raw)
    (m := config.numBlocks - 2) (by omega)
  exact ⟨tracks, built.refines tracks fine.1⟩

theorem exists_construct (unsigned : config.size < 2 ^ 32) (tracks : config.Tracks)
    (raw : Nat → Nat → UInt8) : ∃ tags, construct config raw = some tags := by
  have twoBlocks : 2 ≤ config.numBlocks := config.numBlocks_eq ▸ tracks.two_le_blocksIn _
  have built := Building.foldl_built unsigned tracks raw (begun_built unsigned tracks raw)
    (m := config.numBlocks - 2) (by omega)
  have last : ¬ ((List.range' 1 (config.numBlocks - 2)).foldl Building.add (begun config raw)).j <
      config.numCaches := by
    -- Behind the last but one block only the boundary of the whole cache is left.
    intro smaller
    have larger := tracks.blocksIn_lt smaller
    have behind := built.behind
    have whole := config.numBlocks_eq
    omega
  have j := Nat.le_antisymm built.j (Nat.le_of_not_lt last)
  refine ⟨_, if_pos ⟨j, ?_⟩⟩
  rw [built.index, j, config.numBlocks_eq]

end FALRU

end GemDroid
