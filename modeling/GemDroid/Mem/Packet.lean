import GemDroid.Defines

/-! The commands of the memory system, and the requests and packets that carry them. -/

namespace GemDroid

/-- The commands of a packet (`MemCmd::Command`). -/
inductive MemCmd
  | invalidCmd
  | readReq
  | readResp
  | readRespWithInvalidate
  | writeReq
  | writeResp
  | writeback
  | softPFReq
  | hardPFReq
  | softPFResp
  | hardPFResp
  | writeInvalidateReq
  | writeInvalidateResp
  | upgradeReq
  /-- The weak upgrade of a store-conditional. -/
  | scUpgradeReq
  | upgradeResp
  /-- A weak upgrade that failed while it waited, never sent. -/
  | scUpgradeFailReq
  /-- An answer to a weak upgrade only. -/
  | upgradeFailResp
  | readExReq
  | readExResp
  | loadLockedReq
  | storeCondReq
  /-- A store-conditional that failed while it waited, never sent. -/
  | storeCondFailReq
  | storeCondResp
  | swapReq
  | swapResp
  | messageReq
  | messageResp
  | invalidDestError
  | badAddressError
  | functionalReadError
  | functionalWriteError
  | printReq
  | flushReq
  | invalidationReq
  deriving DecidableEq, Repr

namespace MemCmd

/-- What a command does and needs (`MemCmd::Attribute`). -/
inductive Attribute
  | isRead
  | isWrite
  | isUpgrade
  | isInvalidate
  | needsExclusive
  | isRequest
  | isResponse
  | needsResponse
  | isSWPrefetch
  | isHWPrefetch
  | isLlsc
  | hasData
  | isError
  | isPrint
  | isFlush
  deriving DecidableEq, Repr

/-- The attributes of each command and the command of its response (`commandInfo`). -/
def commandInfo : MemCmd → List Attribute × MemCmd
  | invalidCmd => ([], invalidCmd)
  | readReq => ([.isRead, .isRequest, .needsResponse], readResp)
  | readResp => ([.isRead, .isResponse, .hasData], invalidCmd)
  | readRespWithInvalidate => ([.isRead, .isResponse, .hasData, .isInvalidate], invalidCmd)
  | writeReq =>
    ([.isWrite, .needsExclusive, .isRequest, .needsResponse, .hasData], writeResp)
  | writeResp => ([.isWrite, .needsExclusive, .isResponse], invalidCmd)
  | writeback => ([.isWrite, .needsExclusive, .isRequest, .hasData], invalidCmd)
  | softPFReq => ([.isRead, .isRequest, .isSWPrefetch, .needsResponse], softPFResp)
  | hardPFReq => ([.isRead, .isRequest, .isHWPrefetch, .needsResponse], hardPFResp)
  | softPFResp => ([.isRead, .isResponse, .isSWPrefetch, .hasData], invalidCmd)
  | hardPFResp => ([.isRead, .isResponse, .isHWPrefetch, .hasData], invalidCmd)
  | writeInvalidateReq =>
    ([.isWrite, .needsExclusive, .isInvalidate, .isRequest, .hasData, .needsResponse],
      writeInvalidateResp)
  | writeInvalidateResp => ([.isWrite, .needsExclusive, .isResponse], invalidCmd)
  | upgradeReq =>
    ([.isInvalidate, .needsExclusive, .isUpgrade, .isRequest, .needsResponse], upgradeResp)
  -- The answer may also be a failure.
  | scUpgradeReq =>
    ([.isInvalidate, .needsExclusive, .isUpgrade, .isLlsc, .isRequest, .needsResponse],
      upgradeResp)
  | upgradeResp => ([.needsExclusive, .isUpgrade, .isResponse], invalidCmd)
  | scUpgradeFailReq =>
    ([.isInvalidate, .needsExclusive, .isLlsc, .isRequest, .needsResponse], upgradeFailResp)
  | upgradeFailResp => ([.needsExclusive, .isResponse], invalidCmd)
  | readExReq =>
    ([.isRead, .needsExclusive, .isInvalidate, .isRequest, .needsResponse], readExResp)
  | readExResp => ([.isRead, .needsExclusive, .isResponse, .hasData], invalidCmd)
  | loadLockedReq => ([.isRead, .isLlsc, .isRequest, .needsResponse], readResp)
  | storeCondReq =>
    ([.isWrite, .needsExclusive, .isLlsc, .isRequest, .needsResponse, .hasData], storeCondResp)
  | storeCondFailReq =>
    ([.isWrite, .needsExclusive, .isLlsc, .isRequest, .needsResponse, .hasData], storeCondResp)
  | storeCondResp => ([.isWrite, .needsExclusive, .isLlsc, .isResponse], invalidCmd)
  | swapReq =>
    ([.isRead, .isWrite, .needsExclusive, .isRequest, .hasData, .needsResponse], swapResp)
  | swapResp => ([.isRead, .isWrite, .needsExclusive, .isResponse, .hasData], invalidCmd)
  | messageReq => ([.isWrite, .isRequest, .needsResponse, .hasData], messageResp)
  | messageResp => ([.isWrite, .isResponse], invalidCmd)
  | invalidDestError => ([.isResponse, .isError], invalidCmd)
  | badAddressError => ([.isResponse, .isError], invalidCmd)
  | functionalReadError => ([.isRead, .isResponse, .isError], invalidCmd)
  | functionalWriteError => ([.isWrite, .isResponse, .isError], invalidCmd)
  | printReq => ([.isRequest, .isPrint], invalidCmd)
  | flushReq => ([.isRequest, .isFlush, .needsExclusive], invalidCmd)
  | invalidationReq => ([.needsExclusive, .isInvalidate, .isRequest], invalidCmd)

/-- Whether a command has an attribute (`testCmdAttrib`). -/
def testCmdAttrib (attrib : Attribute) (cmd : MemCmd) : Bool :=
  cmd.commandInfo.1.contains attrib

def isRead : MemCmd → Bool := testCmdAttrib .isRead
def isWrite : MemCmd → Bool := testCmdAttrib .isWrite
def isUpgrade : MemCmd → Bool := testCmdAttrib .isUpgrade
def isRequest : MemCmd → Bool := testCmdAttrib .isRequest
def isResponse : MemCmd → Bool := testCmdAttrib .isResponse
def needsExclusive : MemCmd → Bool := testCmdAttrib .needsExclusive
def needsResponse : MemCmd → Bool := testCmdAttrib .needsResponse
def isInvalidate : MemCmd → Bool := testCmdAttrib .isInvalidate
def hasData : MemCmd → Bool := testCmdAttrib .hasData
def isLLSC : MemCmd → Bool := testCmdAttrib .isLlsc
def isError : MemCmd → Bool := testCmdAttrib .isError

/-- The command of the response to a request (`responseCommand`). -/
def responseCommand (cmd : MemCmd) : MemCmd :=
  cmd.commandInfo.2

end MemCmd

/-- The part of a request that the caches and the memory read and write (`Request`). -/
structure Request where
  paddr : Addr
  size : Nat
  contextId : Int
  isSecure : Bool
  isUncacheable : Bool
  isInstFetch : Bool
  isCondSwap : Bool
  /-- The request is to drop all load locks. -/
  isClearLL : Bool
  /-- The condition of a conditional swap, or the result of a store-conditional. -/
  extraData : Nat
  deriving DecidableEq, Repr

/-- A transfer between two objects of the memory system (`Packet`). -/
structure Packet where
  cmd : MemCmd
  req : Request
  addr : Addr
  isSecure : Bool
  size : Nat
  data : Nat → UInt8
  shared : Bool
  expressSnoop : Bool
  supplyExclusive : Bool
  memInhibit : Bool
  prefetchSquashed : Bool

namespace Packet

/-- A packet for the bytes its request names. -/
def ofRequest (req : Request) (cmd : MemCmd) (data : Nat → UInt8) : Packet :=
  { cmd := cmd, req := req, addr := req.paddr, isSecure := req.isSecure, size := req.size,
    data := data, shared := false, expressSnoop := false, supplyExclusive := false,
    memInhibit := false, prefetchSquashed := false }

/-- A packet for the whole block around the bytes its request names. -/
def ofBlock (req : Request) (cmd : MemCmd) (blkSize : Nat) (data : Nat → UInt8) : Packet :=
  { ofRequest req cmd data with
    addr := req.paddr &&& ~~~(BitVec.ofNat 64 (blkSize - 1))
    size := blkSize }

/-- Where the bytes of a packet start in their block (`getOffset`). -/
def getOffset (blkSize : Nat) (pkt : Packet) : Nat :=
  (pkt.addr &&& BitVec.ofNat 64 (blkSize - 1)).toNat

/-- Turn a request into its response (`makeResponse`). -/
def makeResponse (pkt : Packet) : Packet :=
  { pkt with cmd := pkt.cmd.responseCommand, expressSnoop := false }

/-- A copy of a packet without its flags (`Packet(pkt, true)`). -/
def clearFlags (pkt : Packet) : Packet :=
  { pkt with
    shared := false
    expressSnoop := false
    supplyExclusive := false
    memInhibit := false
    prefetchSquashed := false }

/-- Copy data into the packet (`setData`). -/
def setData (source : Nat → UInt8) (pkt : Packet) : Packet :=
  { pkt with data := fun i => if i < pkt.size then source i else pkt.data i }

/-- Copy the bytes of the packet out of a block (`setDataFromBlock`). -/
def setDataFromBlock (blkData : Nat → UInt8) (blkSize : Nat) (pkt : Packet) : Packet :=
  pkt.setData fun i => blkData (pkt.getOffset blkSize + i)

/-- Copy the bytes of the packet into a block (`writeDataToBlock`). -/
def writeDataToBlock (blkSize : Nat) (pkt : Packet) (blkData : Nat → UInt8) : Nat → UInt8 :=
  fun i =>
    if pkt.getOffset blkSize ≤ i ∧ i < pkt.getOffset blkSize + pkt.size then
      pkt.data (i - pkt.getOffset blkSize)
    else blkData i

end Packet

/-- What ends a run of a cache: an assertion that failed, or a pointer that leads nowhere. -/
inductive CacheFault
  /-- A loop over a set runs past its ends (`assert(i < assoc)`, `assert(i >= 0)`). -/
  | notInSet
  /-- A way outside of the set is read. -/
  | noSuchWay
  /-- `LRU::invalidate` is called for a block that is not valid. -/
  | invalidateInvalid
  /-- A list of targets that is taken over has flags set (`assert(targets.isReset())`). -/
  | targetsNotReset
  /-- The first of no targets is asked for. -/
  | noTargets
  /-- Targets are left where there should be none (`assert(targets.empty())`). -/
  | targetsLeft
  /-- An entry in service is marked in service (`assert(!inService)`). -/
  | alreadyInService
  /-- A flag of the present request is asked of an entry that has none (`assert(inService)`). -/
  | notInService
  /-- A hardware prefetch joins a miss (`assert(pkt->cmd != MemCmd::HardPFReq)`). -/
  | prefetchJoins
  /-- Targets that wait for an exclusive copy are deferred behind one that needs it too. -/
  | exclusiveDeferred
  /-- A response arrives for a request that still waits further down. -/
  | pendingDownstream
  /-- A failed upgrade is the answer to a target that is no conditional store. -/
  | failedUpgradeTarget
  /-- A request that neither reads nor writes is no upgrade (`assert(pkt->isUpgrade())`). -/
  | notUpgrade
  /-- A target of the prefetcher is no prefetch. -/
  | notPrefetch
  /-- A deferred snoop meets an error response (`assert(!is_error)`). -/
  | snoopError
  /-- An invalidating response meets a deferred snoop but no invalidation was recorded. -/
  | lostInvalidation
  /-- A request is sent for a block that is there and needs no better copy. -/
  | needlessRequest
  /-- A request that needs no response waits for one (`assert(cpu_pkt->needsResponse())`). -/
  | needsNoResponse
  /-- An entry is allocated from an empty list (`assert(!freeList.empty())`). -/
  | noFreeEntry
  /-- An entry is taken out of a list that it is not in. -/
  | staleIterator
  /-- No entry is found to insert one before (`assert(false)`). -/
  | noLaterEntry
  /-- A request is satisfied from a block that is not valid (`assert(blk->isValid())`). -/
  | invalidBlk
  /-- A request reaches beyond its block. -/
  | crossesBlk
  /-- A swap is larger than the widest register (`assert(sizeof(uint64_t) >= size)`). -/
  | swapTooLarge
  /-- A conditional swap is of neither size that can be compared. -/
  | invalidSwapSize
  /-- The temporary block is upgraded (`assert(blk != tempBlock)`). -/
  | upgradesTempBlock
  /-- A block that is written back holds nothing to be written back. -/
  | nothingDirty
  /-- A dirty block is invalidated (`assert(!blk.isDirty())`). -/
  | invalidatesDirty
  /-- A block is replaced that is writable while a request for it is outstanding. -/
  | replacesWritable
  /-- A block is replaced while a request for it is outstanding that is no upgrade. -/
  | replacesPending
  /-- A fill brings no data for a block that is not there (`assert(pkt->hasData())`). -/
  | fillWithoutData
  /-- The temporary block is in use (`assert(!tempBlock->isValid())`). -/
  | tempBlockInUse
  /-- A fill overwrites a valid block (`assert(!blk->isValid())`). -/
  | overwritesValid
  /-- A fill updates a block of another tag. -/
  | otherTag
  /-- A writeback is not of the size of a block (`assert(blkSize == pkt->getSize())`). -/
  | partialWriteback
  /-- A writeback expects a response (`assert(!pkt->needsResponse())`). -/
  | writebackNeedsResponse
  /-- A request that was answered holds no response (`assert(bus_pkt->isResponse())`). -/
  | notResponse
  /-- A response is snooped (`assert(pkt->isRequest())`). -/
  | notRequest
  /-- A snooped read needs an exclusive copy but does not invalidate. -/
  | exclusiveRead
  /-- Two caches respond to one request. -/
  | respondsTwice
  /-- A response comes without the inhibition of the memory. -/
  | notInhibited
  /-- A request is uncacheable where it must not be. -/
  | uncacheable
  /-- A read at the memory also writes (`assert(!pkt->isWrite())`). -/
  | readWrites
  /-- An instruction fetch writes (`assert(!pkt->req->isInstFetch())`). -/
  | fetchWrites
  /-- A command is unknown to the memory. -/
  | unimplemented
  deriving DecidableEq, Repr

end GemDroid
