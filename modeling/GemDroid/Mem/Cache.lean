import GemDroid.Mem.Lru
import GemDroid.Mem.Mshr

/-! A cache: how requests are satisfied from its blocks, and how blocks come, change and go. -/

namespace GemDroid

/-- The parameters of a cache that its functions read. -/
structure CacheConfig extends LruConfig where
  isTopLevel : Bool
  forwardSnoops : Bool

namespace CacheConfig

/-- A cache of one set with blocks of 16 bytes. -/
def oneSet (otherWays : Nat) (isTopLevel : Bool) : CacheConfig where
  blkSize := 16
  numSets := 1
  assoc := otherWays + 1
  blkSize_large := by decide
  blkSize_isPowerOf2 := by decide
  blkSize_unsigned := by decide
  numSets_isPowerOf2 := by decide
  numSets_unsigned := by decide
  assoc_positive := Nat.succ_pos otherWays
  isTopLevel := isTopLevel
  forwardSnoops := true

end CacheConfig

/-- A block of the tag store, or the block for a fill that finds no place there. -/
inductive BlkRef
  | stored (ptr : BlkPtr)
  | temp
  deriving DecidableEq, Repr

/-- The blocks of a cache (`Cache`). -/
structure Cache where
  tags : Lru
  tempBlock : CacheBlk
  /-- The set of the address that the temporary block holds. -/
  tempSet : Nat

namespace CacheBlk

/-- Change the status word. -/
def mapStatus (change : BlkStatus → BlkStatus) (blk : CacheBlk) : CacheBlk :=
  { blk with status := change blk.status }

end CacheBlk

namespace Packet

/-- The bytes that a conditional swap compares with, in the order of a little-endian host. -/
def conditionByte (pkt : Packet) (i : Nat) : UInt8 :=
  UInt8.ofNat (pkt.req.extraData / 256 ^ i)

end Packet

namespace Cache

/-- A cache without blocks. -/
def start (config : CacheConfig) (raw : BlkPtr → Nat → UInt8) : Cache :=
  { tags := Lru.start config.toLruConfig raw
    tempBlock := { tag := 0, status := .zero, data := fun _ => 0, lockList := [] }
    tempSet := 0 }

/-- The block behind a reference. -/
def blk (c : Cache) : BlkRef → CacheBlk
  | .stored ptr => c.tags.blks ptr
  | .temp => c.tempBlock

/-- The set of a block. -/
def blkSet (c : Cache) : BlkRef → Nat
  | .stored ptr => ptr.set
  | .temp => c.tempSet

/-- Rewrite a block. -/
def setBlk (ref : BlkRef) (blk : CacheBlk) (c : Cache) : Cache :=
  match ref with
  | .stored ptr => { c with tags := c.tags.setBlk ptr blk }
  | .temp => { c with tempBlock := blk }

/-- Give up a block; only one of the tag store has a place in a set. -/
def invalidate (ref : BlkRef) (c : Cache) : Except CacheFault Cache :=
  match ref with
  | .stored ptr => do
    let tags ← c.tags.invalidate ptr
    return { c with tags := tags.setBlk ptr (tags.blks ptr).invalidate }
  | .temp => .ok { c with tempBlock := c.tempBlock.invalidate }

variable (config : CacheConfig)

/-- Exchange the data of a packet with that of a block (`cmpAndSwap`). -/
def cmpAndSwap (pkt : Packet) (blk : CacheBlk) : Except CacheFault (Packet × CacheBlk) :=
  let offset := config.extractBlkOffset pkt.addr
  let overwrite_val := pkt.data
  let blk_data := fun i => blk.data (offset + i)
  let equal := (List.range pkt.size).all fun i => blk_data i == pkt.conditionByte i
  if 8 < pkt.size then .error .swapTooLarge
  else if pkt.req.isCondSwap && pkt.size ≠ 8 && pkt.size ≠ 4 then .error .invalidSwapSize
  else
    let overwrite_mem := !pkt.req.isCondSwap || equal
    .ok (pkt.setData blk_data,
      if overwrite_mem then
        { blk with
          data := fun i =>
            if offset ≤ i ∧ i < offset + pkt.size then overwrite_val (i - offset) else blk.data i
          status := { blk.status with dirty := true } }
      else blk)

/--
Hand a whole block to a cache above (in `satisfyCpuSideRequest`).

The last part of the answer says whether the copy here is given up.
-/
def supplyBlock (deferred_response pending_downgrade : Bool) (pkt : Packet) (blk : CacheBlk) :
    Packet × CacheBlk × Bool :=
  if pkt.cmd.needsExclusive then
    -- The recipient of a dirty copy has to keep it marked dirty.
    ({ pkt with memInhibit := pkt.memInhibit || blk.isDirty }, blk, true)
  else if blk.isWritable && !pending_downgrade && !pkt.shared && !pkt.req.isInstFetch then
    if blk.isDirty then
      if !deferred_response && !config.isTopLevel then
        -- Ownership goes along with exclusivity.
        ({ pkt with memInhibit := true },
          blk.mapStatus fun status => { status with dirty := false }, false)
      else ({ pkt with shared := true }, blk, false)
    else (pkt, blk, false)
  else ({ pkt with shared := true }, blk, false)

/-- What a request makes of its packet and of a block (the cases of `satisfyCpuSideRequest`). -/
def satisfy (deferred_response pending_downgrade : Bool) (pkt : Packet) (blk : CacheBlk) :
    Except CacheFault (Packet × CacheBlk × Bool) :=
  -- A swap both reads and writes, so it comes first.
  if pkt.cmd = .swapReq then do
    let (pkt, blk) ← cmpAndSwap config pkt blk
    return (pkt, blk, false)
  else if pkt.cmd.isWrite then
    let (blk, pkt, allowed) := blk.checkWrite pkt
    if allowed then
      .ok (pkt,
        { blk with
          data := pkt.writeDataToBlock config.blkSize blk.data
          status := { blk.status with dirty := true } }, false)
    else .ok (pkt, blk, false)
  else if pkt.cmd.isRead then
    let blk := if pkt.cmd.isLLSC then blk.trackLoadLocked pkt.req else blk
    let pkt := pkt.setDataFromBlock blk.data config.blkSize
    if pkt.size = config.blkSize then
      .ok (supplyBlock config deferred_response pending_downgrade pkt blk)
    else .ok (pkt, blk, false)
  else if pkt.cmd.isUpgrade then .ok (pkt, blk, true)
  else .error .notUpgrade

/-- Satisfy a request from a block (`satisfyCpuSideRequest`). -/
def satisfyCpuSideRequest (deferred_response pending_downgrade : Bool) (pkt : Packet)
    (ref : BlkRef) (c : Cache) : Except CacheFault (Packet × Cache) :=
  if !(c.blk ref).isValid then .error .invalidBlk
  else if config.blkSize < pkt.getOffset config.blkSize + pkt.size then .error .crossesBlk
  else if pkt.cmd.isUpgrade && ref = .temp then .error .upgradesTempBlock
  else do
    let (pkt, blk, gone) ← satisfy config deferred_response pending_downgrade pkt (c.blk ref)
    let c := c.setBlk ref blk
    if gone then do
      let c ← c.invalidate ref
      return (pkt, c)
    else return (pkt, c)

/-- A request of the cache's own for a whole block. -/
def blkRequest (tag : Addr) (set : Nat) (isSecure : Bool) : Request :=
  { paddr := config.regenerateBlkAddr tag set, size := config.blkSize, contextId := -1,
    isSecure := isSecure, isUncacheable := false, isInstFetch := false, isCondSwap := false,
    isClearLL := false, extraData := 0 }

/-- The packet that writes a block back (in `writebackBlk`). -/
def writebackPacket (set : Nat) (blk : CacheBlk) : Packet :=
  { Packet.ofRequest (blkRequest config blk.tag set blk.isSecure) .writeback blk.data with
    supplyExclusive := blk.isWritable }

/-- Write a dirty block back, which is then clean (`writebackBlk`). -/
def writebackBlk (ref : BlkRef) (c : Cache) : Except CacheFault (Packet × Cache) :=
  let blk := c.blk ref
  if !(blk.isValid && blk.isDirty) then .error .nothingDirty
  else
    .ok (writebackPacket config (c.blkSet ref) blk,
      c.setBlk ref (blk.mapStatus fun status => { status with dirty := false }))

/--
Make place for a block (`allocateBlock`).

The caller says which request is outstanding for an address; a block that waits for one stays.
-/
def allocateBlock (findMatch : Addr → Bool → Option Mshr) (addr : Addr) (writebacks : List Packet)
    (c : Cache) : Except CacheFault (Option BlkRef × List Packet × Cache) := do
  let ptr ← c.tags.findVictim config.toLruConfig addr
  let blk := c.tags.blks ptr
  if blk.isValid then
    let repl_addr := config.regenerateBlkAddr blk.tag ptr.set
    match findMatch repl_addr blk.isSecure with
    | some repl_mshr =>
      if blk.isWritable then .error .replacesWritable
      else if !repl_mshr.targets.needsExclusive then .error .replacesPending
      else .ok (none, writebacks, c)
    | none =>
      if blk.isDirty then do
        let (packet, c) ← writebackBlk config (.stored ptr) c
        .ok (some (.stored ptr), writebacks ++ [packet], c)
      else .ok (some (.stored ptr), writebacks, c)
  else .ok (some (.stored ptr), writebacks, c)

/-- The tag store gives a block to the address of a packet (`LRU::insertBlock`). -/
def insertBlock (pkt : Packet) (ref : BlkRef) (c : Cache) : Except CacheFault Cache :=
  match ref with
  | .stored ptr => do
    let tags ← c.tags.insertBlock config.toLruConfig pkt.addr pkt.isSecure ptr
    return { c with tags := tags }
  | .temp => .ok c

/-- The block that a fill goes to, and the writebacks that make place for it (in `handleFill`). -/
def fillPlace (findMatch : Addr → Bool → Option Mshr) (pkt : Packet) (blk : Option BlkRef)
    (writebacks : List Packet) (c : Cache) : Except CacheFault (BlkRef × List Packet × Cache) :=
  match blk with
  | none =>
    if !pkt.cmd.hasData then .error .fillWithoutData
    else do
      let (place, writebacks, c) ← allocateBlock config findMatch pkt.addr writebacks c
      let (ref, c) ←
        match place with
        | none =>
          if c.tempBlock.isValid then .error .tempBlockInUse
          else .ok (BlkRef.temp, { c with
            tempSet := config.extractSet pkt.addr
            tempBlock := { c.tempBlock with tag := config.extractTag pkt.addr } })
        | some ref => do
          let c ← insertBlock config pkt ref c
          .ok (ref, c)
      if (c.blk ref).isValid then .error .overwritesValid else return (ref, writebacks, c)
  | some ref =>
    -- An existing block is upgraded, and keeps its status.
    if (c.blk ref).tag ≠ config.extractTag pkt.addr then .error .otherTag
    else if !pkt.cmd.hasData && !(c.blk ref).isValid then .error .fillWithoutData
    else .ok (ref, writebacks, c)

/-- What a fill makes of its block (in `handleFill`). -/
def filled (pkt : Packet) (blk : CacheBlk) : CacheBlk :=
  let status := blk.status
  { blk with
    status := { status with
      secure := status.secure || pkt.isSecure
      valid := true
      readable := true
      writable := status.writable || !pkt.shared
      -- The copy was taken away from an owner, so it has to be written back.
      dirty := status.dirty || (!pkt.shared && pkt.memInhibit) }
    data := if pkt.cmd.isRead then pkt.data else blk.data }

/-- Take in a response (`handleFill`). -/
def handleFill (findMatch : Addr → Bool → Option Mshr) (pkt : Packet) (blk : Option BlkRef)
    (writebacks : List Packet) (c : Cache) : Except CacheFault (BlkRef × List Packet × Cache) := do
  let (ref, writebacks, c) ← fillPlace config findMatch pkt blk writebacks c
  return (ref, writebacks, c.setBlk ref (filled pkt (c.blk ref)))

/-- Write a dirty block back with a functional access; it stays clean (`writebackVisitor`). -/
def writebackVisitor (ptr : BlkPtr) (c : Cache) : Except CacheFault (List Packet × Cache) :=
  let blk := c.tags.blks ptr
  if blk.isDirty then
    if !blk.isValid then .error .nothingDirty
    else
      -- The request is built without the security state of the block.
      .ok ([Packet.ofRequest (blkRequest config blk.tag ptr.set false) .writeReq blk.data],
        c.setBlk (.stored ptr) (blk.mapStatus fun status => { status with dirty := false }))
  else .ok ([], c)

/-- Drop a block (`invalidateVisitor`). -/
def invalidateVisitor (ptr : BlkPtr) (c : Cache) : Except CacheFault Cache :=
  let blk := c.tags.blks ptr
  if blk.isValid then
    if blk.isDirty then .error .invalidatesDirty else c.invalidate (.stored ptr)
  else .ok c

/-- Write all dirty blocks back (`memWriteback`). -/
def memWriteback (c : Cache) : Except CacheFault (List Packet × Cache) :=
  config.allBlks.foldlM (fun (sent, c) ptr => do
    let (more, c) ← writebackVisitor config ptr c
    return (sent ++ more, c)) ([], c)

/-- Drop all blocks (`memInvalidate`). -/
def memInvalidate (c : Cache) : Except CacheFault Cache :=
  config.allBlks.foldlM (fun c ptr => invalidateVisitor ptr c) c

/-- Write back and drop the block of an uncacheable request (`uncacheableFlush`). -/
def uncacheableFlush (pkt : Packet) (c : Cache) : Except CacheFault (List Packet × Cache) :=
  let c := if pkt.req.isClearLL then { c with tags := c.tags.clearLocks } else c
  match c.tags.findBlock config.toLruConfig pkt.addr pkt.isSecure with
  | some ptr => do
    let (sent, c) ← writebackVisitor config ptr c
    let c ← invalidateVisitor ptr c
    return (sent, c)
  | none => .ok ([], c)

/-- What an access leads to: whether it is satisfied, and the packets it sends or leaves to send. -/
structure Accessed where
  satisfied : Bool
  pkt : Packet
  blk : Option BlkRef
  writebacks : List Packet
  /-- The functional writes of an uncacheable access. -/
  flushed : List Packet
  cache : Cache

/-- Take in the block that a cache above gives up (in `access`). -/
def takeWriteback (findMatch : Addr → Bool → Option Mshr) (pkt : Packet) (blk : Option BlkRef)
    (c : Cache) : Except CacheFault Accessed :=
  if config.blkSize ≠ pkt.size then .error .partialWriteback
  else do
    let (place, writebacks, c) ←
      match blk with
      | some ref => .ok (some ref, [], c)
      | none => do
        let (place, writebacks, c) ← allocateBlock config findMatch pkt.addr [] c
        match place with
        | none => .ok (none, writebacks, c)
        | some ref => do
          let c ← insertBlock config pkt ref c
          -- The whole status word is written, whatever the tag store has set in it.
          .ok (some ref, writebacks, c.setBlk ref { c.blk ref with
            status := { BlkStatus.zero with valid := true, readable := true } })
    match place with
    | none => return ⟨false, pkt, none, writebacks, [], c⟩
    | some ref =>
      let status := (c.blk ref).status
      let c := c.setBlk ref { c.blk ref with
        data := pkt.data
        status := { status with
          dirty := true
          writable := status.writable || pkt.supplyExclusive } }
      if pkt.cmd.needsResponse then .error .writebackNeedsResponse
      else return ⟨true, pkt, some ref, writebacks, [], c⟩

/-- Look a request up and satisfy it if the block is there with enough permission (`access`). -/
def access (findMatch : Addr → Bool → Option Mshr) (pkt : Packet) (c : Cache) :
    Except CacheFault Accessed :=
  if pkt.req.isUncacheable then do
    let (flushed, c) ← uncacheableFlush config pkt c
    return ⟨false, pkt, none, [], flushed, c⟩
  else do
    let (tags, found) ← c.tags.accessBlock config.toLruConfig pkt.addr pkt.isSecure
    let c := { c with tags := tags }
    let permitted := found.any fun ptr =>
      if pkt.cmd.needsExclusive then (c.tags.blks ptr).isWritable else (c.tags.blks ptr).isReadable
    match found, permitted with
    | some ptr, true => do
      let (pkt, c) ← satisfyCpuSideRequest config false false pkt (.stored ptr) c
      return ⟨true, pkt, some (.stored ptr), [], [], c⟩
    | found, _ =>
      if pkt.cmd = .writeback then takeWriteback config findMatch pkt (found.map .stored) c
      else if found = none && pkt.cmd.isLLSC && pkt.cmd.isWrite then
        -- A store-conditional that misses completely has failed.
        return ⟨true, { pkt with req := { pkt.req with extraData := 0 } }, none, [], [], c⟩
      else return ⟨false, pkt, found.map .stored, [], [], c⟩

/-- The packet that goes out for a request, or nothing when it is forwarded (`getBusPacket`). -/
def getBusPacket (cpu_pkt : Packet) (blk : Option CacheBlk) (needsExclusive : Bool) :
    Except CacheFault (Option Packet) :=
  let blkValid := blk.any CacheBlk.isValid
  if cpu_pkt.req.isUncacheable then .ok none
  else if !blkValid && (cpu_pkt.cmd == .writeback || cpu_pkt.cmd.isUpgrade) then .ok none
  else if !cpu_pkt.cmd.needsResponse then .error .needsNoResponse
  else if blkValid then
    -- The only reason to be here is a shared block where an exclusive one is needed.
    if needsExclusive && !blk.any CacheBlk.isWritable then
      .ok (some (.ofBlock cpu_pkt.req
        (if cpu_pkt.cmd.isLLSC then .scUpgradeReq else .upgradeReq) config.blkSize fun _ => 0))
    else .error .needlessRequest
  else
    .ok (some (.ofBlock cpu_pkt.req (if needsExclusive then .readExReq else .readReq)
      config.blkSize fun _ => 0))

end Cache

end GemDroid
