import GemDroid.Mem.Packet

/-! A cache block: its status bits, its data and the load locks held on it. -/

namespace GemDroid

/-- The status word of a block, one field for each bit (`CacheBlkStatusBits`). -/
structure BlkStatus where
  valid : Bool
  writable : Bool
  /-- A block can be valid but not readable while a write to it waits for permission. -/
  readable : Bool
  dirty : Bool
  hwPrefetched : Bool
  secure : Bool
  deriving DecidableEq, Repr

namespace BlkStatus

/-- No bit is set. -/
def zero : BlkStatus :=
  { valid := false, writable := false, readable := false, dirty := false,
    hwPrefetched := false, secure := false }

end BlkStatus

/-- A context that loaded an address range for a store-conditional to come (`CacheBlk::Lock`). -/
structure Lock where
  contextId : Int
  lowAddr : Addr
  highAddr : Addr
  deriving DecidableEq, Repr

namespace Lock

/-- The last byte a request names. -/
def reqHigh (req : Request) : Addr :=
  req.paddr + BitVec.ofNat 64 req.size - 1#64

/-- The lock that a load-locked request takes. -/
def ofRequest (req : Request) : Lock :=
  { contextId := req.contextId, lowAddr := req.paddr, highAddr := reqHigh req }

/-- Whether a store-conditional stays within a lock of its own context (`matchesContext`). -/
def matchesContext (req : Request) (lock : Lock) : Bool :=
  lock.contextId = req.contextId ∧ lock.lowAddr ≤ req.paddr ∧ reqHigh req ≤ lock.highAddr

/-- Whether a request touches the range of a lock (`overlapping`). -/
def overlapping (req : Request) (lock : Lock) : Bool :=
  req.paddr ≤ lock.highAddr ∧ lock.lowAddr ≤ reqHigh req

end Lock

/-- A block of the tag store, without what only statistics and latencies read (`CacheBlk`). -/
structure CacheBlk where
  tag : Addr
  status : BlkStatus
  data : Nat → UInt8
  lockList : List Lock

namespace CacheBlk

def isValid (blk : CacheBlk) : Bool :=
  blk.status.valid

def isWritable (blk : CacheBlk) : Bool :=
  blk.status.writable && blk.status.valid

def isReadable (blk : CacheBlk) : Bool :=
  blk.status.readable && blk.status.valid

def isDirty (blk : CacheBlk) : Bool :=
  blk.status.dirty

def isSecure (blk : CacheBlk) : Bool :=
  blk.status.secure

/-- Clear the status and the locks; tag and data stay as they are (`invalidate`). -/
def invalidate (blk : CacheBlk) : CacheBlk :=
  { blk with status := .zero, lockList := [] }

/-- Record a load-locked request (`trackLoadLocked`). -/
def trackLoadLocked (req : Request) (blk : CacheBlk) : CacheBlk :=
  { blk with lockList := Lock.ofRequest req :: blk.lockList }

/-- Drop the locks that overlap with a request (`clearLoadLocks`). -/
def clearLoadLocks (req : Request) (blk : CacheBlk) : CacheBlk :=
  { blk with lockList := blk.lockList.filter fun lock => !lock.overlapping req }

/--
Let a write drop locks, and say whether it may proceed (`checkWrite`).

A store-conditional needs a lock of its own, and reports in its request whether it had one.
-/
def checkWrite (pkt : Packet) (blk : CacheBlk) : CacheBlk × Packet × Bool :=
  if pkt.cmd.isLLSC then
    let success := blk.lockList.any (Lock.matchesContext pkt.req)
    (blk.clearLoadLocks pkt.req,
      { pkt with req := { pkt.req with extraData := if success then 1 else 0 } }, success)
  else (blk.clearLoadLocks pkt.req, pkt, true)

@[simp] theorem invalidate_isValid (blk : CacheBlk) : blk.invalidate.isValid = false := rfl

@[simp] theorem invalidate_isSecure (blk : CacheBlk) : blk.invalidate.isSecure = false := rfl

end CacheBlk

end GemDroid
