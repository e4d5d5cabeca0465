import GemDroid.Mem.Blk

/-! The LRU tag store: the split of addresses, the recency order of a set and the blocks. -/

namespace GemDroid

/-- Whether a number is a power of two: it has no bit but its lowest one (`isPowerOf2`). -/
def isPowerOf2 (n : Nat) : Bool :=
  n != 0 && n &&& (n - 1) == 0

theorem isPowerOf2_sixtyFour : isPowerOf2 64 = true := by decide

theorem sixtyFour_unsigned : 64 < 2 ^ 32 := by decide

/-- The sizes of a tag store, as far as its constructor accepts them. -/
structure LruConfig where
  blkSize : Nat
  numSets : Nat
  assoc : Nat
  blkSize_large : 4 ≤ blkSize
  blkSize_isPowerOf2 : isPowerOf2 blkSize = true
  blkSize_unsigned : blkSize < 2 ^ 32
  numSets_isPowerOf2 : isPowerOf2 numSets = true
  numSets_unsigned : numSets < 2 ^ 32
  assoc_positive : 0 < assoc

namespace LruConfig

variable (config : LruConfig)

/-- How far the set index stands in an address (`setShift`). -/
def setShift : Nat :=
  config.blkSize.log2

/-- How far the tag stands in an address (`tagShift`). -/
def tagShift : Nat :=
  config.setShift + config.numSets.log2

/-- The bits of the block offset (`blkMask`). -/
def blkMask : Addr :=
  BitVec.ofNat 64 (config.blkSize - 1)

/-- The bits of the set index (`setMask`). -/
def setMask : Addr :=
  BitVec.ofNat 64 (config.numSets - 1)

/-- The tag of an address (`extractTag`). -/
def extractTag (addr : Addr) : Addr :=
  addr >>> config.tagShift

/-- The set of an address (`extractSet`). -/
def extractSet (addr : Addr) : Nat :=
  ((addr >>> config.setShift) &&& config.setMask).toNat

/-- The place of an address in its block (`extractBlkOffset`). -/
def extractBlkOffset (addr : Addr) : Nat :=
  (addr &&& config.blkMask).toNat

/-- The first address of a block (`blkAlign`). -/
def blkAlign (addr : Addr) : Addr :=
  addr &&& ~~~config.blkMask

/-- The first address of the block with a tag in a set (`regenerateBlkAddr`). -/
def regenerateBlkAddr (tag : Addr) (set : Nat) : Addr :=
  (tag <<< config.tagShift) ||| (BitVec.ofNat 64 set <<< config.setShift)

end LruConfig

theorem eq_two_pow_log2 {n : Nat} (power : isPowerOf2 n = true) : n = 2 ^ n.log2 := by
  simp only [isPowerOf2, Bool.and_eq_true, bne_iff_ne, ne_eq, beq_iff_eq] at power
  obtain ⟨k, rfl⟩ := (Nat.and_sub_one_eq_zero_iff_isPowerOfTwo power.1).mp power.2
  rw [Nat.log2_two_pow]

namespace LruConfig

variable {config : LruConfig}

theorem blkSize_eq (config : LruConfig) : config.blkSize = 2 ^ config.setShift :=
  eq_two_pow_log2 config.blkSize_isPowerOf2

theorem blkSize_narrow (config : LruConfig) : config.setShift < 64 := by
  have small := config.blkSize_unsigned
  rw [config.blkSize_eq] at small
  have := (Nat.pow_lt_pow_iff_right (by omega : 1 < 2)).mp small
  omega

theorem getLsbD_mask {n k i : Nat} (size : n = 2 ^ k) (width : i < 64) :
    (BitVec.ofNat 64 (n - 1)).getLsbD i = decide (i < k) := by
  rw [size, BitVec.getLsbD_ofNat, Nat.testBit_two_pow_sub_one]
  simp [width]

theorem setMask_width (config : LruConfig) : config.numSets = 2 ^ config.numSets.log2 :=
  eq_two_pow_log2 config.numSets_isPowerOf2

/-- The set and the tag of an address give back the address of its block. -/
theorem regenerateBlkAddr_extract (addr : Addr) :
    config.regenerateBlkAddr (config.extractTag addr) (config.extractSet addr) =
      config.blkAlign addr := by
  -- Bit by bit: the tag holds the bits above the index, and the index those above the offset.
  apply BitVec.eq_of_getLsbD_eq
  intro i width
  have offset : config.blkMask.getLsbD i = decide (i < config.setShift) :=
    getLsbD_mask config.blkSize_eq width
  simp only [regenerateBlkAddr, extractTag, extractSet, blkAlign, BitVec.getLsbD_or,
    BitVec.getLsbD_shiftLeft, BitVec.getLsbD_ushiftRight, BitVec.ofNat_toNat, BitVec.setWidth_eq,
    BitVec.getLsbD_and, BitVec.getLsbD_not, offset, width, decide_true, Bool.true_and]
  by_cases low : i < config.setShift
  · have lower : i < config.tagShift := by
      unfold tagShift
      omega
    simp [low, lower]
  · have index : config.setMask.getLsbD (i - config.setShift) =
        decide (i - config.setShift < config.numSets.log2) :=
      getLsbD_mask config.setMask_width (by omega)
    have back : config.setShift + (i - config.setShift) = i := by omega
    rw [index, back]
    by_cases middle : i < config.tagShift
    · have inside : i - config.setShift < config.numSets.log2 := by
        unfold tagShift at middle
        omega
      simp [low, middle, inside]
    · have outside : ¬ i - config.setShift < config.numSets.log2 := by
        unfold tagShift at middle
        omega
      have high : config.tagShift + (i - config.tagShift) = i := by omega
      simp [low, middle, outside, high]

theorem extract_blkAlign (config : LruConfig) (addr : Addr) :
    config.extractTag (config.blkAlign addr) = config.extractTag addr ∧
      config.extractSet (config.blkAlign addr) = config.extractSet addr := by
  -- Both read only bits above the offset.
  have kept : ∀ i < 64, config.setShift ≤ i →
      (config.blkAlign addr).getLsbD i = addr.getLsbD i := by
    intro i width above
    have offset : config.blkMask.getLsbD i = decide (i < config.setShift) :=
      getLsbD_mask config.blkSize_eq width
    simp only [blkAlign, BitVec.getLsbD_and, BitVec.getLsbD_not, offset, width]
    simp [above]
  have shifted : ∀ shift, config.setShift ≤ shift →
      config.blkAlign addr >>> shift = addr >>> shift := by
    intro shift above
    apply BitVec.eq_of_getLsbD_eq
    intro i width
    simp only [BitVec.getLsbD_ushiftRight]
    by_cases inside : shift + i < 64
    · exact kept _ inside (by omega)
    · rw [BitVec.getLsbD_of_ge _ _ (by omega), BitVec.getLsbD_of_ge _ _ (by omega)]
  refine ⟨shifted _ (by unfold tagShift; omega), ?_⟩
  simp only [extractSet, shifted config.setShift (le_refl _)]

theorem blkAlign_eq_iff (addr other : Addr) :
    config.blkAlign addr = config.blkAlign other ↔
      config.extractTag addr = config.extractTag other ∧
        config.extractSet addr = config.extractSet other := by
  constructor
  · intro same
    have first := extract_blkAlign config addr
    have second := extract_blkAlign config other
    rw [same] at first
    exact ⟨first.1.symm.trans second.1, first.2.symm.trans second.2⟩
  · rintro ⟨tag, set⟩
    rw [← regenerateBlkAddr_extract, ← regenerateBlkAddr_extract, tag, set]

end LruConfig

namespace CacheSet

-- The array of a set holds its blocks in LRU order, and is generic in what it points to.

variable {Blktype : Type} [DecidableEq Blktype]

/-- Write `next` into the array and carry on with what stood there, until `blk` is met. -/
def shift (blk : Blktype) : Blktype → List Blktype → Except CacheFault (List Blktype)
  | _, [] => .error .notInSet
  | next, tmp :: rest =>
    if tmp = blk then .ok (next :: rest)
    else (shift blk tmp rest).map (next :: ·)

/-- Move a block to the front of the array (`moveToHead`). -/
def moveToHead (blk : Blktype) (blks : List Blktype) : Except CacheFault (List Blktype) :=
  if blks.head? = some blk then .ok blks else shift blk blk blks

/-- Move a block to the end of the array, walking it from there (`moveToTail`). -/
def moveToTail (blk : Blktype) (blks : List Blktype) : Except CacheFault (List Blktype) :=
  if blks.getLast? = some blk then .ok blks
  else (shift blk blk blks.reverse).map List.reverse

theorem shift_eq {blk next : Blktype} {blks : List Blktype} (member : blk ∈ blks) :
    shift blk next blks = .ok (next :: blks.erase blk) := by
  -- The induction follows the array, with the element in hand free to change.
  induction blks generalizing next with
  | nil => simp at member
  | cons tmp rest ih =>
    unfold shift
    by_cases met : tmp = blk
    · simp [met]
    · have later : blk ∈ rest := by
        simpa [Ne.symm met] using member
      simp [met, ih later, Except.map]

theorem moveToHead_eq {blk : Blktype} {blks : List Blktype} (member : blk ∈ blks) :
    moveToHead blk blks = .ok (blk :: blks.erase blk) := by
  unfold moveToHead
  split
  case isTrue first =>
    -- The array is left alone when the block already stands there.
    obtain ⟨rest, rfl⟩ : ∃ rest, blks = blk :: rest := by
      cases blks with
      | nil => simp at member
      | cons head rest => exact ⟨rest, by simpa using first⟩
    simp
  case isFalse => exact shift_eq member

theorem moveToTail_eq {blk : Blktype} {blks : List Blktype} (member : blk ∈ blks)
    (distinct : blks.Nodup) : moveToTail blk blks = .ok (blks.erase blk ++ [blk]) := by
  unfold moveToTail
  split
  case isTrue last =>
    obtain ⟨front, rfl⟩ : ∃ front, blks = front ++ [blk] := by
      exact ⟨blks.dropLast, (List.dropLast_append_getLast? blk last).symm⟩
    have absent : blk ∉ front := by
      intro again
      exact (List.nodup_append.mp distinct).2.2 blk again blk (by simp) rfl
    rw [List.erase_append_right _ absent]
    simp
  case isFalse =>
    rw [shift_eq (List.mem_reverse.mpr member)]
    simp only [Except.map, List.reverse_cons]
    rw [List.Nodup.erase_eq_filter (List.nodup_reverse.mpr distinct),
      List.Nodup.erase_eq_filter distinct, ← List.filter_reverse, List.reverse_reverse]

end CacheSet

/-- Where a block lies in the block storage: the set it belongs to and its place there. -/
structure BlkPtr where
  set : Nat
  way : Nat
  deriving DecidableEq, Repr

/-- The tag store: the block storage, and for each set the array of its blocks in LRU order. -/
structure Lru where
  blks : BlkPtr → CacheBlk
  sets : Nat → List BlkPtr

namespace LruConfig

variable (config : LruConfig)

/-- The blocks of a set, in the order of the storage. -/
def ways (set : Nat) : List BlkPtr :=
  (List.range config.assoc).map (⟨set, ·⟩)

/-- All blocks, in the order in which `forEachBlk` visits them. -/
def allBlks : List BlkPtr :=
  (List.range config.numSets).flatMap config.ways

end LruConfig

namespace Lru

/-- The constructor: all blocks invalid, with the place in the set for a tag. -/
def start (config : LruConfig) (raw : BlkPtr → Nat → UInt8) : Lru :=
  { blks := fun ptr =>
      { tag := BitVec.ofNat 64 ptr.way, status := .zero, data := raw ptr, lockList := [] }
    sets := config.ways }

/-- Rewrite one block. -/
def setBlk (ptr : BlkPtr) (blk : CacheBlk) (tags : Lru) : Lru :=
  { tags with blks := Function.update tags.blks ptr blk }

/-- Rewrite the array of one set. -/
def setOrder (set : Nat) (order : List BlkPtr) (tags : Lru) : Lru :=
  { tags with sets := Function.update tags.sets set order }

/-- Whether a block is valid and holds a tag of a security state. -/
def holds (tag : Addr) (isSecure : Bool) (blk : CacheBlk) : Bool :=
  blk.tag == tag && blk.isValid && blk.isSecure == isSecure

/-- The block of an address, without a change to the recency order (`findBlock`). -/
def findBlock (config : LruConfig) (addr : Addr) (isSecure : Bool) (tags : Lru) :
    Option BlkPtr :=
  (tags.sets (config.extractSet addr)).find? fun ptr =>
    holds (config.extractTag addr) isSecure (tags.blks ptr)

/-- The block of an address, which becomes the most recent one of its set (`accessBlock`). -/
def accessBlock (config : LruConfig) (addr : Addr) (isSecure : Bool) (tags : Lru) :
    Except CacheFault (Lru × Option BlkPtr) :=
  let set := config.extractSet addr
  match tags.findBlock config addr isSecure with
  | some ptr => do
    let order ← CacheSet.moveToHead ptr (tags.sets set)
    return (tags.setOrder set order, some ptr)
  | none => .ok (tags, none)

/-- The candidate for a replacement: the last block of the array (`findVictim`). -/
def findVictim (config : LruConfig) (addr : Addr) (tags : Lru) : Except CacheFault BlkPtr :=
  match (tags.sets (config.extractSet addr))[config.assoc - 1]? with
  | some ptr => .ok ptr
  | none => .error .noSuchWay

/--
What inserting makes of a block.

The caller sets the status; only the secure bit is set here, and never cleared.
-/
def placed (config : LruConfig) (addr : Addr) (isSecure : Bool) (blk : CacheBlk) : CacheBlk :=
  -- A block that was valid is cleared first.
  let blk := if blk.isValid then blk.invalidate else blk
  { blk with
    tag := config.extractTag addr
    status := { blk.status with secure := blk.status.secure || isSecure } }

/-- Give a block to an address, as the most recent one of its set (`insertBlock`). -/
def insertBlock (config : LruConfig) (addr : Addr) (isSecure : Bool) (ptr : BlkPtr)
    (tags : Lru) : Except CacheFault Lru := do
  let set := config.extractSet addr
  let order ← CacheSet.moveToHead ptr (tags.sets set)
  return (tags.setBlk ptr (placed config addr isSecure (tags.blks ptr))).setOrder set order

/-- Let a valid block be the next to be replaced; the caller clears its status (`invalidate`). -/
def invalidate (ptr : BlkPtr) (tags : Lru) : Except CacheFault Lru :=
  if (tags.blks ptr).isValid then do
    let order ← CacheSet.moveToTail ptr (tags.sets ptr.set)
    return tags.setOrder ptr.set order
  else .error .invalidateInvalid

/-- Drop every load lock (`clearLocks`). -/
def clearLocks (tags : Lru) : Lru :=
  { tags with blks := fun ptr => { tags.blks ptr with lockList := [] } }

end Lru

end GemDroid
