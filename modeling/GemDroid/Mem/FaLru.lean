import GemDroid.Mem.Cache

/-! The fully associative tag store, and the cache functions that allocate in it. -/

namespace GemDroid

/-- The sizes of a fully associative tag store, as far as its constructor accepts them. -/
structure FaLruConfig where
  blkSize : Nat
  size : Nat
  blkSize_isPowerOf2 : isPowerOf2 blkSize = true
  blkSize_unsigned : blkSize < 2 ^ 32
  size_isPowerOf2 : isPowerOf2 size = true
  /-- Caches from 128K up are tracked (`assert(index == numBlocks)`). -/
  size_large : 2 ^ 17 ≤ size
  /-- The list is built from its two ends. -/
  twoBlocks : 2 * blkSize ≤ size

namespace FaLruConfig

variable (config : FaLruConfig)

def numBlocks : Nat :=
  config.size / config.blkSize

/-- How many smaller caches are tracked along (`numCaches`). -/
def numCaches : Nat :=
  config.size.log2 - 17

/-- The first address of a block (`blkAlign`), which is also its tag (`extractTag`). -/
def blkAlign (addr : Addr) : Addr :=
  addr &&& ~~~BitVec.ofNat 64 (config.blkSize - 1)

end FaLruConfig

/-- A block of the fully associative tag store (`FALRUBlk`). -/
structure FALRUBlk extends CacheBlk where
  /-- Which of the smaller caches the block is in, one bit for each. -/
  inCache : Nat → Bool

/-- What ends a run of a cache with this tag store. -/
inductive FaLruFault
  /-- A block is found under an address that is not its tag (`assert(blk->tag == blkAddr)`). -/
  | wrongTag
  /-- The last block is in one of the smaller caches (`assert(blk->inCache == 0)`). -/
  | victimInCache
  /-- A list pointer leads nowhere. -/
  | nullPointer
  /-- An assertion of the cache itself. -/
  | cache (fault : CacheFault)
  deriving DecidableEq, Repr

/-- The fully associative tag store (`FALRU`). -/
structure FaLru where
  blks : Nat → FALRUBlk
  /-- The blocks from the most to the least recently used (`head` to `tail`). -/
  order : List Nat
  tagHash : Addr → Option Nat
  /-- The last block of each smaller cache. -/
  cacheBoundaries : Nat → Option Nat

namespace FaLru

variable (config : FaLruConfig)

/-- The tag store of a cache without blocks (the constructor). -/
def start (raw : Nat → Nat → UInt8) : FaLru :=
  { blks := fun i =>
      { tag := 0, status := .zero, data := raw i, lockList := []
        inCache := fun j => decide (i < 2 ^ 17 / config.blkSize * 2 ^ j) }
    order := List.range config.numBlocks
    tagHash := fun _ => none
    cacheBoundaries := fun j => some (2 ^ 17 / config.blkSize * 2 ^ j - 1) }

/-- Rewrite a block. -/
def setBlk (i : Nat) (blk : FALRUBlk) (tags : FaLru) : FaLru :=
  { tags with blks := Function.update tags.blks i blk }

/-- The block before a block in the list (`prev`). -/
def prev (i : Nat) (tags : FaLru) : Option Nat :=
  ((tags.order.zip tags.order.tail).find? fun pair => pair.2 == i).map Prod.fst

/-- Keep the boundary of a smaller cache when a block moves to the front (in `moveToHead`). -/
def moveBoundary (i : Nat) (outside : Bool) (j : Nat) (tags : FaLru) : Except FaLruFault FaLru :=
  if outside then
    -- The block enters the smaller cache, so its last block drops out.
    match tags.cacheBoundaries j with
    | none => .error .nullPointer
    | some last =>
      let blk := tags.blks last
      .ok { tags.setBlk last { blk with inCache := Function.update blk.inCache j false } with
        cacheBoundaries := Function.update tags.cacheBoundaries j (tags.prev last) }
  else if tags.cacheBoundaries j = some i then
    .ok { tags with cacheBoundaries := Function.update tags.cacheBoundaries j (tags.prev i) }
  else .ok tags

/-- Move a block to the front of the list (`moveToHead`). -/
def moveToHead (i : Nat) (tags : FaLru) : Except FaLruFault FaLru := do
  let inCache := (tags.blks i).inCache
  let tags ← (List.range config.numCaches).foldlM
    (fun tags j => moveBoundary i (!inCache j) j tags) tags
  return { tags.setBlk i { tags.blks i with inCache := fun _ => true } with
    order := i :: tags.order.erase i }

/-- The valid block under an address, which has to be its tag (`findBlock`). -/
def findBlock (addr : Addr) (tags : FaLru) : Except FaLruFault (Option Nat) :=
  let blkAddr := config.blkAlign addr
  match tags.tagHash blkAddr with
  | some i =>
    if (tags.blks i).isValid then
      if (tags.blks i).tag = blkAddr then .ok (some i) else .error .wrongTag
    else .ok none
  | none => .ok none

/-- Look a block up, which makes it the most recently used (`accessBlock`). -/
def accessBlock (addr : Addr) (tags : FaLru) : Except FaLruFault (FaLru × Option Nat) := do
  match ← findBlock config addr tags with
  | some i =>
    let tags ← if tags.order.head? = some i then .ok tags else moveToHead config i tags
    return (tags, some i)
  | none => return (tags, none)

/--
Take the last block of the list for an address (`findVictim`).

The hash table is rewritten before the caller knows whether it can use the block.
-/
def findVictim (addr : Addr) (tags : FaLru) : Except FaLruFault (FaLru × Nat) :=
  match tags.order.getLast? with
  | none => .error .nullPointer
  | some i =>
    if (List.range config.numCaches).any (tags.blks i).inCache then .error .victimInCache
    else do
      let tags ← moveToHead config i tags
      let erased := Function.update tags.tagHash (tags.blks i).tag none
      return ({ tags with tagHash := Function.update erased (config.blkAlign addr) (some i) }, i)

/-- Nothing is left to be done for a block that was given to an address (`insertBlock`). -/
def insertBlock (_pkt : Packet) (_i : Nat) (tags : FaLru) : FaLru :=
  tags

/-- Drop a block, whose tag and place in the hash table stay (`invalidate`). -/
def invalidate (i : Nat) (tags : FaLru) : FaLru :=
  tags.setBlk i { tags.blks i with toCacheBlk := (tags.blks i).toCacheBlk.invalidate }

end FaLru

/-- The blocks of a cache with the fully associative tag store (`Cache<FALRU>`). -/
structure FaCache where
  tags : FaLru
  tempBlock : CacheBlk

namespace FaCache

variable (config : FaLruConfig)

/-- Make place for a block (`allocateBlock`), as far as it is not written back. -/
def allocateBlock (findMatch : Addr → Bool → Option Mshr) (addr : Addr) (tags : FaLru) :
    Except FaLruFault (FaLru × Option Nat) := do
  let (tags, i) ← tags.findVictim config addr
  let blk := tags.blks i
  if blk.isValid then
    match findMatch blk.tag blk.isSecure with
    | some repl_mshr =>
      if blk.isWritable then .error (.cache .replacesWritable)
      else if !repl_mshr.targets.needsExclusive then .error (.cache .replacesPending)
      else .ok (tags, none)
    | none =>
      if blk.isDirty then
        -- The block is handed to the caller as a packet, and is then clean.
        .ok (tags.setBlk i { blk with status := { blk.status with dirty := false } }, some i)
      else .ok (tags, some i)
  else .ok (tags, some i)

/-- Take in a response (`handleFill`). -/
def handleFill (findMatch : Addr → Bool → Option Mshr) (pkt : Packet) (blk : Option Nat)
    (c : FaCache) : Except FaLruFault FaCache :=
  match blk with
  | none =>
    if !pkt.cmd.hasData then .error (.cache .fillWithoutData)
    else do
      let (tags, place) ← allocateBlock config findMatch pkt.addr c.tags
      match place with
      | none =>
        if c.tempBlock.isValid then .error (.cache .tempBlockInUse)
        else
          let temp := { c.tempBlock with tag := config.blkAlign pkt.addr }
          return { tags, tempBlock := Cache.filled pkt temp }
      | some i =>
        let tags := tags.insertBlock pkt i
        if (tags.blks i).isValid then .error (.cache .overwritesValid)
        else
          return { c with tags := tags.setBlk i { tags.blks i with
            toCacheBlk := Cache.filled pkt (tags.blks i).toCacheBlk } }
  | some i =>
    if (c.tags.blks i).tag ≠ config.blkAlign pkt.addr then .error (.cache .otherTag)
    else if !pkt.cmd.hasData && !(c.tags.blks i).isValid then .error (.cache .fillWithoutData)
    else
      .ok { c with tags := c.tags.setBlk i { c.tags.blks i with
        toCacheBlk := Cache.filled pkt (c.tags.blks i).toCacheBlk } }

/-- Take in the block that a cache above gives up, if there is place for it (in `access`). -/
def takeWriteback (findMatch : Addr → Bool → Option Mshr) (pkt : Packet) (blk : Option Nat)
    (c : FaCache) : Except FaLruFault (FaCache × Bool) :=
  if config.blkSize ≠ pkt.size then .error (.cache .partialWriteback)
  else do
    let (tags, place) ←
      match blk with
      | some i => .ok (c.tags, some i)
      | none => do
        let (tags, place) ← allocateBlock config findMatch pkt.addr c.tags
        match place with
        | none => .ok (tags, none)
        | some i =>
          let tags := tags.insertBlock pkt i
          .ok (tags.setBlk i { tags.blks i with
            status := { BlkStatus.zero with valid := true, readable := true } }, some i)
    match place with
    | none => return ({ c with tags }, false)
    | some i =>
      let status := (tags.blks i).status
      let written := { tags.blks i with
        data := pkt.data
        status := { status with
          dirty := true
          writable := status.writable || pkt.supplyExclusive } }
      if pkt.cmd.needsResponse then .error (.cache .writebackNeedsResponse)
      else return ({ c with tags := tags.setBlk i written }, true)

end FaCache

end GemDroid
