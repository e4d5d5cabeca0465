import GemDroid.Mem.FaLruLinksRun

/-! The list and the smaller caches of the fully associative tag store over whole runs. -/

namespace GemDroid

open Function (update update_apply)

open Outcome

namespace FALRU

variable {config : FaLruConfig} {tags after : FALRU} {s : FaLru} {blk : Nat}

theorem idxOf_of_place {order : List Nat} (distinct : order.Nodup) {k : Nat}
    (place : order[k]? = some blk) : order.idxOf blk = k := by
  obtain ⟨inside, rfl⟩ := List.getElem?_eq_some_iff.mp place
  exact distinct.idxOf_getElem k inside

theorem size_le_of_tracked (tracks : config.Tracks) {j : Nat} (smaller : j ≤ config.numCaches) :
    2 ^ 17 * 2 ^ j ≤ config.size ∧ config.numBlocks * config.blkSize = config.size := by
  constructor
  · rw [config.size_eq]
    exact Nat.mul_le_mul_left _ (Nat.pow_le_pow_right (by decide) smaller)
  · rw [config.numBlocks_eq, tracks.blocksIn_mul, config.size_eq]

/-- From any place of the list the walk finds what it expects. -/
theorem Refines.checkFrom_eq (refines : Refines config tags s)
    (tracked : FaLru.Tracked config s) (tracks : config.Tracks) (unsigned : config.size < 2 ^ 32)
    {fuel k j : Nat} {flags : BitVec 32} (reached : k ≤ config.numBlocks)
    (enough : config.numBlocks - k < fuel) (smaller : j ≤ config.numCaches)
    (inside : k < config.blocksIn j ∨ k = config.numBlocks)
    (passed : ∀ c < j, config.blocksIn c ≤ k)
    (left : ∀ c, flags.getLsbD c = (decide (c < config.numCaches) && decide (j ≤ c))) :
    checkFrom config tags fuel s.order[k]? (BitVec.ofNat 32 (k * config.blkSize))
      (BitVec.ofNat 32 (2 ^ 17 * 2 ^ j)) j flags = some true := by
  -- The walk goes on by one block a round, so the induction follows its fuel.
  induction fuel generalizing k j flags with
  | zero => omega
  | succ fuel ih =>
    rcases Nat.lt_or_eq_of_le reached with here | rfl
    · have length : k < s.order.length := by rwa [tracked.length_eq]
      generalize at_place : s.order[k]? = found
      rw [List.getElem?_eq_getElem length] at at_place
      subst at_place
      have place : s.order[k]? = some s.order[k] := List.getElem?_eq_getElem length
      have member : s.order[k] ∈ s.order := List.getElem_mem length
      have idxOf := idxOf_of_place tracked.distinct place
      have next := refines.list.next k _ place
      generalize s.order[k] = blk at place member idxOf next
      -- Exactly the smaller caches whose flag is left reach up to the block.
      have reach {c : Nat} : j ≤ c ↔ k < config.blocksIn c := by
        constructor
        · intro later
          rcases Nat.lt_or_eq_of_le later with more | rfl
          · have larger := tracks.blocksIn_lt more
            omega
          · omega
        · intro far
          by_contra earlier
          have near := passed c (by omega)
          omega
      have bits : tags.inCache blk = flags := by
        refine BitVec.eq_of_getLsbD_eq fun c _ => ?_
        rw [refines.inCache, left]
        by_cases inside : c < config.numCaches
        · rw [tracked.inCache c inside blk member, idxOf]
          congr 1
          exact decide_eq_decide.mpr reach.symm
        · rw [decide_eq_false inside, Bool.false_and, Bool.false_and]
      have last : tags.list.tail = some blk ↔ k + 1 = config.numBlocks := by
        rw [refines.list.tail, List.getLast?_eq_getElem?, tracked.length_eq]
        constructor
        · intro same
          have := (List.getElem?_inj length tracked.distinct).mp (place.trans same.symm)
          omega
        · intro same
          rwa [show config.numBlocks - 1 = k by omega]
      have sum : BitVec.ofNat 32 (k * config.blkSize) + BitVec.ofNat 32 config.blkSize =
          BitVec.ofNat 32 ((k + 1) * config.blkSize) := by
        rw [← BitVec.ofNat_add, Nat.succ_mul]
      have at_boundary : BitVec.ofNat 32 ((k + 1) * config.blkSize) =
          BitVec.ofNat 32 (2 ^ 17 * 2 ^ j) ↔ k + 1 = config.blocksIn j := by
        obtain ⟨small, whole⟩ := size_le_of_tracked tracks smaller
        have part : (k + 1) * config.blkSize ≤ config.numBlocks * config.blkSize :=
          Nat.mul_le_mul_right _ here
        rw [BitVec.toNat_eq, BitVec.toNat_ofNat, BitVec.toNat_ofNat, Nat.mod_eq_of_lt (by omega),
          Nat.mod_eq_of_lt (by omega), ← tracks.blocksIn_mul,
          Nat.mul_left_inj config.blkSize_pos.ne']
      rw [checkFrom, if_neg (not_not.mpr bits), sum, next]
      by_cases boundary : k + 1 = config.blocksIn j ∧ k + 1 ≠ config.numBlocks
      · rw [if_pos ⟨at_boundary.mpr boundary.1, mt last.mp boundary.2⟩]
        have less : j < config.numCaches := by
          by_contra whole
          rw [show j = config.numCaches by omega, ← config.numBlocks_eq] at boundary
          exact boundary.2 boundary.1
        have found : tags.cacheBoundaries j = some blk := by
          rw [refines.cacheBoundaries j less, tracked.boundary j less, ← boundary.1]
          exact place
        have doubled : BitVec.ofNat 32 (2 ^ 17 * 2 ^ j) <<< 1 =
            BitVec.ofNat 32 (2 ^ 17 * 2 ^ (j + 1)) := by
          have twice : 2 ^ (j + 1) = 2 ^ j * 2 := Nat.pow_succ ..
          rw [twice, BitVec.toNat_eq, BitVec.toNat_shiftLeft, BitVec.toNat_ofNat,
            BitVec.toNat_ofNat, Nat.shiftLeft_eq]
          generalize 2 ^ j = blocks
          omega
        rw [if_neg (not_not.mpr found), doubled]
        refine ih here (by omega) less (.inl ?_) (fun c earlier => ?_) fun c => ?_
        · rw [tracks.blocksIn_succ]
          omega
        · rcases Nat.lt_succ_iff_lt_or_eq.mp earlier with lower | rfl
          · exact (passed c lower).trans (Nat.le_succ k)
          · omega
        · rw [getLsbD_clear_bit (by have := FaLruConfig.numCaches_lt unsigned; omega), left,
            Bool.and_assoc, ← decide_not, ← Bool.decide_and]
          congr 1
          exact decide_eq_decide.mpr (by omega)
      · rw [if_neg fun both => boundary ⟨at_boundary.mp both.1, mt last.mpr both.2⟩]
        exact ih here (by omega) smaller (by omega)
          (fun c earlier => (passed c earlier).trans (Nat.le_succ k)) left
    · rw [List.getElem?_eq_none (by rw [tracked.length_eq])]
      rfl

theorem Refines.check_eq (refines : Refines config tags s) (tracked : FaLru.Tracked config s)
    (tracks : config.Tracks) (unsigned : config.size < 2 ^ 32) :
    check config (config.numBlocks + 1) tags = some true := by
  have some_block := tracks.two_le_blocksIn 0
  have walked : checkFrom config tags (config.numBlocks + 1) s.order[0]?
      (BitVec.ofNat 32 (0 * config.blkSize)) (BitVec.ofNat 32 (2 ^ 17 * 2 ^ 0)) 0
        config.cacheMask = some true :=
    refines.checkFrom_eq tracked tracks unsigned (Nat.zero_le _) (by omega) (Nat.zero_le _)
      (.inl (by omega)) (fun c earlier => absurd earlier (Nat.not_lt_zero c)) fun c => by
        rw [FaLruConfig.cacheMask_getLsbD unsigned, decide_eq_true (Nat.zero_le c), Bool.and_true]
  rwa [Nat.zero_mul, ← List.head?_eq_getElem?, ← refines.list.head] at walked

/-- What is done with a tag store. -/
inductive Op
  | accessBlock (addr : Addr)
  | findVictim (addr : Addr) (now : Nat)
  | invalidate
  /-- The cache rewrites a block that it was given. -/
  | rewrite (blk : Nat) (written : CacheBlk)

/-- A tag store with the blocks that were moved to the head, from the last one on. -/
structure Run where
  tags : FALRU
  moved : List Nat

/-- Take one step. -/
def Run.step (config : FaLruConfig) (r : Run) : Op → Except FALRUFault Run
  | .accessBlock addr => do
    let (tags, found, _) ← r.tags.accessBlock config addr
    match found with
    | some blk =>
      return { tags, moved := if r.tags.list.head = some blk then r.moved else blk :: r.moved }
    | none => return { r with tags }
  | .findVictim addr now => do
    let (tags, blk) ← r.tags.findVictim config addr now
    return { tags, moved := blk :: r.moved }
  | .invalidate => .ok { r with tags := r.tags.invalidate }
  | .rewrite blk written =>
    .ok { r with tags := { r.tags with blks := update r.tags.blks blk written } }

/-- The pointers and words are those of a list in order, which the moves have sorted. -/
structure Run.Sorted (config : FaLruConfig) (r : Run) (s : FaLru) : Prop where
  refines : Refines config r.tags s
  tracked : FaLru.Tracked config s
  hashed : ∀ a blk, r.tags.tagHash a = some blk → blk ∈ r.moved
  moved : ∀ blk ∈ r.moved, blk ∈ s.order ∧ Recency.ahead blk s.order = Recency.ahead blk r.moved

theorem ahead_move {order moved : List Nat}
    (sorted : ∀ b ∈ moved, b ∈ order ∧ Recency.ahead b order = Recency.ahead b moved) :
    ∀ b ∈ blk :: moved, b ∈ blk :: order.erase blk ∧
      Recency.ahead b (blk :: order.erase blk) = Recency.ahead b (blk :: moved) := by
  intro b inside
  by_cases same : b = blk
  · rw [same, Recency.ahead_cons_self, Recency.ahead_cons_self]
    exact ⟨List.mem_cons_self, rfl⟩
  · obtain ⟨listed, ahead⟩ := sorted b ((List.mem_cons.mp inside).resolve_left same)
    rw [Recency.ahead_moveToHead blk order (Ne.symm same),
      Recency.ahead_cons _ (Ne.symm same), ahead]
    exact ⟨List.mem_cons_of_mem _ ((List.mem_erase_of_ne same).mpr listed), rfl⟩

theorem findBlock_ends (config : FaLruConfig) (addr : Addr) (tags : FALRU) :
    Ends (· = .wrongTag) (findBlock config addr tags) fun found =>
      ∀ blk, found = some blk → tags.tagHash (config.blkAlign addr) = some blk := by
  rw [findBlock]
  cases tags.tagHash (config.blkAlign addr) with
  | none => exact fun blk none_found => nomatch none_found
  | some blk =>
    dsimp only
    split_ifs
    · exact fun blk' same => same
    · exact rfl
    · exact fun blk none_found => nomatch none_found

/-- The tag store when a hit on a block has been counted. -/
def counted (config : FaLruConfig) (blk : Nat) (tags : FALRU) : FALRU :=
  countHit config (tags.inCache blk) { tags with accesses := tags.accesses + 1 }

theorem accessBlock_error {addr : Addr} {fault : FALRUFault}
    (failed : findBlock config addr tags = .error fault) :
    accessBlock config addr tags = .error fault := by
  have same : findBlock config addr { tags with accesses := tags.accesses + 1 } = .error fault :=
    failed
  rw [accessBlock, same]
  rfl

theorem accessBlock_none {addr : Addr} (missed : findBlock config addr tags = .ok none) :
    accessBlock config addr tags =
      .ok (countMiss config { tags with accesses := tags.accesses + 1 }, none, 0#32) := by
  have same : findBlock config addr { tags with accesses := tags.accesses + 1 } = .ok none := missed
  rw [accessBlock, same]
  rfl

theorem accessBlock_some {addr : Addr} (found : findBlock config addr tags = .ok (some blk)) :
    accessBlock config addr tags =
      (if tags.list.head = some blk then .ok (tags.counted config blk)
        else moveToHead config blk (tags.counted config blk)) >>= fun after =>
          .ok (after, some blk, tags.inCache blk) := by
  have same : findBlock config addr { tags with accesses := tags.accesses + 1 } = .ok (some blk) :=
    found
  rw [accessBlock, same]
  show (if tags.list.head = some blk then _ else _) = _
  by_cases first : tags.list.head = some blk
  · rw [if_pos first, if_pos first]
    rfl
  · rw [if_neg first, if_neg first]
    rfl

theorem findVictim_eq {addr : Addr} {now : Nat} (last : tags.list.tail = some blk)
    (outside : tags.inCache blk = 0#32) (moved : moveToHead config blk tags = .ok after) :
    ∃ replacements tagsInUse warmedUp warmupCycle, findVictim config addr now tags =
      .ok ({ after with
        tagHash := update (update after.tagHash (after.blks blk).tag none)
          (config.blkAlign addr) (some blk)
        replacements, tagsInUse, warmedUp, warmupCycle }, blk) := by
  rw [findVictim, last]
  show ∃ _ _ _ _, (if tags.inCache blk ≠ 0#32 then _ else moveToHead config blk tags >>= _) = _
  rw [if_neg (not_not.mpr outside), moved]
  show ∃ _ _ _ _, (if (after.blks blk).isValid = true then _ else _) = _
  split_ifs
  · exact ⟨_, _, _, _, rfl⟩
  · simp only [countInUse]
    split_ifs <;> exact ⟨_, _, _, _, rfl⟩

theorem Refines.of_counts (refines : Refines config tags s) {accesses : Nat}
    {hits misses : Nat → Nat}
    {tagsInUse : Int} : Refines config { tags with accesses, hits, misses, tagsInUse } s :=
  ⟨refines.blks, refines.inCache, refines.list, refines.tagHash, refines.cacheBoundaries⟩

namespace Run.Sorted

variable {r : Run} (sorted : r.Sorted config s) (tracks : config.Tracks)
  (unsigned : config.size < 2 ^ 32)

include sorted

theorem of_same {tags : FALRU} {s' : FaLru} (refines : Refines config tags s')
    (tracked : FaLru.Tracked config s') (order : s'.order = s.order)
    (tagHash : tags.tagHash = r.tags.tagHash) : Sorted config { r with tags } s' := by
  refine ⟨refines, tracked, fun a b found => sorted.hashed a b (tagHash ▸ found), ?_⟩
  rw [order]
  exact sorted.moved

include tracks unsigned

theorem moveToHead (member : blk ∈ s.order) : ∃ tags s', moveToHead config blk r.tags = .ok tags ∧
    Sorted config { tags, moved := blk :: r.moved } s' := by
  obtain ⟨tags, s', moved, -, refines, tracked, order⟩ :=
    sorted.refines.moveToHead unsigned tracks sorted.tracked member
  obtain ⟨bits, boundaries, list, same⟩ := (moveToHead_ends config blk r.tags).of_ok moved
  refine ⟨tags, s', moved, refines, tracked, fun a b found => ?_, ?_⟩
  · rw [same] at found
    exact List.mem_cons_of_mem _ (sorted.hashed a b found)
  · rw [order]
    exact ahead_move sorted.moved

theorem accessBlock (addr : Addr) : Ends (· = .wrongTag) (r.step config (.accessBlock addr))
    fun r' => ∃ s', r'.Sorted config s' := by
  have looked := findBlock_ends config addr r.tags
  cases found : findBlock config addr r.tags with
  | error fault =>
    rw [found] at looked
    rw [Run.step, accessBlock_error found]
    exact looked
  | ok place =>
    rw [found] at looked
    cases place with
    | none =>
      rw [Run.step, accessBlock_none found]
      exact ⟨s, sorted.of_same sorted.refines.of_counts sorted.tracked rfl rfl⟩
    | some blk =>
      have member := (sorted.moved blk (sorted.hashed _ blk (looked blk rfl))).1
      -- What is counted leaves the list as it is, so the block moves as it would without that.
      have counted : Sorted config { tags := r.tags.counted config blk, moved := r.moved } s :=
        sorted.of_same sorted.refines.of_counts sorted.tracked rfl rfl
      rw [Run.step, accessBlock_some found]
      by_cases first : r.tags.list.head = some blk
      · rw [if_pos first]
        refine ⟨s, ?_⟩
        rw [if_pos first]
        exact counted
      · obtain ⟨tags, s', moved, after⟩ := counted.moveToHead tracks unsigned member
        rw [if_neg first, moved]
        refine ⟨s', ?_⟩
        rw [if_neg first]
        exact after

/-- Taking the last block keeps the order. -/
theorem findVictim (addr : Addr) (now : Nat) :
    Ends (· = .wrongTag) (r.step config (.findVictim addr now))
      fun r' => ∃ s', r'.Sorted config s' := by
  have some_block := tracks.two_le_blocksIn
  have length : config.numBlocks - 1 < s.order.length := by
    have first := some_block config.numCaches
    rw [sorted.tracked.length_eq, config.numBlocks_eq]
    omega
  -- The last block of the list is in none of the smaller caches.
  obtain ⟨blk, place⟩ : ∃ blk, s.order[config.numBlocks - 1]? = some blk :=
    ⟨_, List.getElem?_eq_getElem length⟩
  have member := List.mem_of_getElem? place
  have last : r.tags.list.tail = some blk := by
    rw [sorted.refines.list.tail, List.getLast?_eq_getElem?, sorted.tracked.length_eq, place]
  have outside : r.tags.inCache blk = 0#32 := by
    refine BitVec.eq_of_getLsbD_eq fun c _ => ?_
    rw [sorted.refines.inCache, BitVec.getLsbD_zero]
    by_cases smaller : c < config.numCaches
    · have fewer := tracks.blocksIn_lt smaller
      have beyond : ¬ config.blocksIn config.numCaches - 1 < config.blocksIn c := by omega
      rw [sorted.tracked.inCache c smaller blk member,
        idxOf_of_place sorted.tracked.distinct place, config.numBlocks_eq,
        decide_eq_false beyond, Bool.and_false]
    · rw [decide_eq_false smaller, Bool.false_and]
  obtain ⟨tags, s', moved, after⟩ := sorted.moveToHead tracks unsigned member
  have hashed : ∀ a b, update (update tags.tagHash (tags.blks blk).tag none)
      (config.blkAlign addr) (some blk) a = some b → b ∈ blk :: r.moved := by
    intro a b found
    rw [update_apply, update_apply] at found
    split_ifs at found
    · rw [Option.some.inj found]
      exact List.mem_cons_self
    · exact after.hashed a b found
  obtain ⟨_, _, _, _, taken⟩ := findVictim_eq last outside moved
  rw [Run.step, taken]
  exact ⟨{ s' with
      tagHash := update (update tags.tagHash (tags.blks blk).tag none)
        (config.blkAlign addr) (some blk) },
    ⟨after.refines.blks, after.refines.inCache, after.refines.list, rfl,
      after.refines.cacheBoundaries⟩,
    ⟨after.tracked.listed, after.tracked.inCache, after.tracked.boundary⟩, hashed, after.moved⟩

theorem step (op : Op) : Ends (· = .wrongTag) (r.step config op)
    fun r' => ∃ s', r'.Sorted config s' := by
  cases op with
  | accessBlock addr => exact sorted.accessBlock tracks unsigned addr
  | findVictim addr now => exact sorted.findVictim tracks unsigned addr now
  | invalidate => exact ⟨s, sorted.of_same sorted.refines.of_counts sorted.tracked rfl rfl⟩
  | rewrite blk written =>
    refine ⟨s.setBlk blk { s.blks blk with toCacheBlk := written },
      sorted.of_same ⟨fun b => ?_, fun b c => ?_, sorted.refines.list, sorted.refines.tagHash,
        sorted.refines.cacheBoundaries⟩
        ⟨sorted.tracked.listed, fun c smaller b member => ?_, sorted.tracked.boundary⟩ rfl rfl⟩
    · show _ = update r.tags.blks blk written b
      rw [FaLru.setBlk_blks, update_apply]
      split_ifs
      · rfl
      · exact sorted.refines.blks b
    · rw [FaLru.setBlk_blks]
      split_ifs with same
      · rw [same]
        exact sorted.refines.inCache blk c
      · exact sorted.refines.inCache b c
    · rw [FaLru.setBlk_blks]
      split_ifs with same
      · rw [same]
        rw [same] at member
        exact sorted.tracked.inCache c smaller blk member
      · exact sorted.tracked.inCache c smaller b member

end Run.Sorted

/-- The list and the smaller caches are as the code checks them, and hits are counted by them. -/
structure Run.InOrder (config : FaLruConfig) (r : Run) : Prop where
  check : check config (config.numBlocks + 1) r.tags = some true
  /-- Every block is in the list once, and the first of them are those of a smaller cache. -/
  list : ∃ order, r.tags.list.Holds order ∧ order.Perm (List.range config.numBlocks) ∧
    ∀ i < config.numCaches,
      (∀ blk < config.numBlocks, (r.tags.inCache blk).getLsbD i = true ↔
        blk ∈ order.take (config.blocksIn i)) ∧
      ∃ last, r.tags.cacheBoundaries i = some last ∧
        (order.take (config.blocksIn i)).getLast? = some last
  /-- A hit counts for the caches with more blocks than were moved to the head since. -/
  hit : ∀ addr after blk bits, accessBlock config addr r.tags = .ok (after, some blk, bits) →
    blk ∈ r.moved ∧ ∀ i < config.numCaches,
      after.hits i = r.tags.hits i +
        (if (Recency.ahead blk r.moved).card < config.blocksIn i then 1 else 0) ∧
      after.misses i = r.tags.misses i +
        (if (Recency.ahead blk r.moved).card < config.blocksIn i then 0 else 1)
  miss : ∀ addr after bits, accessBlock config addr r.tags = .ok (after, none, bits) →
    after.hits = r.tags.hits

theorem accessBlock_counts {addr : Addr} {bits : BitVec 32}
    (found : accessBlock config addr tags = .ok (after, some blk, bits)) :
    tags.tagHash (config.blkAlign addr) = some blk ∧
      after.hits = (tags.counted config blk).hits ∧
      after.misses = (tags.counted config blk).misses := by
  have looked := findBlock_ends config addr tags
  cases result : findBlock config addr tags with
  | error fault =>
    rw [accessBlock_error result] at found
    cases found
  | ok place =>
    rw [result] at looked
    cases place with
    | none =>
      rw [accessBlock_none result] at found
      cases found
    | some blk' =>
      rw [accessBlock_some result] at found
      obtain ⟨after', moved, same⟩ := bind_eq_ok.mp found
      cases same
      refine ⟨looked blk rfl, ?_⟩
      split_ifs at moved with first
      · obtain rfl := Except.ok.inj moved
        exact ⟨rfl, rfl⟩
      · obtain ⟨bits, boundaries, list, rfl⟩ := (moveToHead_ends config blk _).of_ok moved
        exact ⟨rfl, rfl⟩

/-- What the moves have sorted is in order. -/
theorem Run.Sorted.inOrder {r : Run} (sorted : r.Sorted config s) (tracks : config.Tracks)
    (unsigned : config.size < 2 ^ 32) : r.InOrder config := by
  have few := FaLruConfig.numCaches_lt unsigned
  have bit {i b : Nat} (smaller : i < config.numCaches) (member : b ∈ s.order) :
      (r.tags.inCache b).getLsbD i = true ↔ s.order.idxOf b < config.blocksIn i := by
    rw [sorted.refines.inCache, decide_eq_true smaller, Bool.true_and,
      sorted.tracked.inCache i smaller b member, decide_eq_true_iff]
  refine ⟨sorted.refines.check_eq sorted.tracked tracks unsigned,
    ⟨s.order, sorted.refines.list, sorted.tracked.listed, fun i smaller =>
      ⟨fun blk inside => ?_, ?_⟩⟩, ?hit, ?miss⟩
  · have member := sorted.tracked.mem_iff.mpr inside
    rw [bit smaller member, List.mem_take_iff_idxOf_lt member]
  · obtain ⟨last, boundary, place⟩ := sorted.tracked.exists_boundary tracks smaller
    have some_block := tracks.two_le_blocksIn i
    have length := (List.getElem?_eq_some_iff.mp place).1
    refine ⟨last, (sorted.refines.cacheBoundaries i smaller).trans boundary, ?_⟩
    rw [List.getLast?_eq_getElem?, List.length_take, Nat.min_eq_left (by omega),
      List.getElem?_take, if_pos (by omega), place]
  case hit =>
    intro addr after blk bits found
    obtain ⟨hashed, hits, misses⟩ := accessBlock_counts found
    have moved := sorted.hashed _ blk hashed
    obtain ⟨member, ahead⟩ := sorted.moved blk moved
    refine ⟨moved, fun i smaller => ?_⟩
    have counted : 1#32 <<< i &&& r.tags.inCache blk ≠ 0 ↔
        (Recency.ahead blk r.moved).card < config.blocksIn i := by
      rw [and_bit_ne_zero (by omega), bit smaller member, ← ahead,
        Recency.card_ahead sorted.tracked.distinct member]
    rw [hits, misses]
    simp only [FALRU.counted, countHit, smaller, true_and, counted, smaller.ne, or_false]
    split_ifs <;> exact ⟨rfl, rfl⟩
  case miss =>
    intro addr after bits missed
    cases result : findBlock config addr r.tags with
    | error fault =>
      rw [accessBlock_error result] at missed
      cases missed
    | ok place =>
      cases place with
      | none =>
        rw [accessBlock_none result] at missed
        cases missed
        rfl
      | some blk =>
        rw [accessBlock_some result] at missed
        obtain ⟨after', moved, same⟩ := bind_eq_ok.mp missed
        cases same

/--
A tag store stays in order over every sequence of steps.

The only assertion that can end it is the one on a tag that the cache writes.
-/
theorem steps_inOrder (unsigned : config.size < 2 ^ 32) {raw : Nat → Nat → UInt8} {start : FALRU}
    (made : construct config raw = some start) (ops : List Op) :
    Ends (· = .wrongTag) (ops.foldlM (Run.step config) ⟨start, []⟩) (Run.InOrder config) := by
  obtain ⟨tracks, refines⟩ := construct_eq unsigned made
  have empty : ∀ a, start.tagHash a = none := congrFun refines.tagHash
  have sorted : Run.Sorted config ⟨start, []⟩ (FaLru.start config raw) :=
    { refines := refines
      tracked := start_tracked tracks raw
      hashed := fun a b found => nomatch (empty a).symm.trans found
      moved := fun b never => nomatch never }
  refine (ends_foldlM (I := fun r => ∃ s, r.Sorted config s) ?_ ops ⟨_, sorted⟩).mono ?_
  · rintro r op ⟨s, sorted⟩
    exact sorted.step tracks unsigned op
  · rintro r ⟨s, sorted⟩
    exact sorted.inOrder tracks unsigned

/-- A tag store of 256K with blocks of 64 bytes. -/
def quarterMegabyte : FaLruConfig where
  blkSize := 64
  size := 2 ^ 18
  blkSize_isPowerOf2 := isPowerOf2_sixtyFour
  blkSize_unsigned := sixtyFour_unsigned
  size_isPowerOf2 := by decide
  size_large := by decide
  twoBlocks := by decide

/-- The last block is taken for an address, filled by the cache and looked up. -/
def fillAndHit : List Op :=
  [.findVictim 64 0,
    .rewrite 4095 { tag := 64, status := { BlkStatus.zero with valid := true }
                    data := fun _ => 0, lockList := [] },
    .accessBlock 64]

theorem quarterMegabyte_inOrder : ∃ start, construct quarterMegabyte (fun _ _ => 0) = some start ∧
    Ends (· = .wrongTag) (fillAndHit.foldlM (Run.step quarterMegabyte) ⟨start, []⟩)
      (Run.InOrder quarterMegabyte) := by
  obtain ⟨start, made⟩ := exists_construct (show quarterMegabyte.size < 2 ^ 32 by decide)
    (show 2 * 64 ≤ 2 ^ 17 by decide) fun _ _ => 0
  exact ⟨start, made, steps_inOrder (by decide) made _⟩

end FALRU

end GemDroid
