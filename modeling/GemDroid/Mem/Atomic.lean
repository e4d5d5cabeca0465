import GemDroid.Mem.Memory

/-! Atomic accesses: a cache, its snoops and the bus that joins caches to what is below them. -/

namespace GemDroid

/-- Where a cache stands in a system. -/
structure Slot (S : Type) where
  get : S → Cache
  set : Cache → S → S
  get_set : ∀ c s, get (set c s) = c
  set_get : ∀ s, set (get s) s = s
  set_set : ∀ c d s, set c (set d s) = set c s

/-- What a cache reaches through its port to the memory side. -/
structure MemSidePort (S : Type) where
  sendAtomic : Packet → S → Except CacheFault (Packet × S)
  sendFunctional : Packet → S → S

namespace Cache

variable {S : Type} (config : CacheConfig) (slot : Slot S)

/-- No request is outstanding while accesses are atomic. -/
def noMshr : Addr → Bool → Option Mshr :=
  fun _ _ => none

/-- A packet that a cache above responds to still invalidates here (in `recvAtomic`). -/
def recvInhibited (port : MemSidePort S) (pkt : Packet) (s : S) :
    Except CacheFault (Packet × S) :=
  if pkt.req.isUncacheable then .error .uncacheable
  else if pkt.cmd.isInvalidate then do
    let c := slot.get s
    let c ←
      match c.tags.findBlock config.toLruConfig pkt.addr pkt.isSecure with
      | some ptr => c.invalidate (.stored ptr)
      | none => .ok c
    port.sendAtomic pkt (slot.set c s)
  else .ok (pkt, s)

/-- Get what a request misses from below and satisfy it (in `recvAtomic`). -/
def fetch (port : MemSidePort S) (pkt : Packet) (blk : Option BlkRef) (writebacks : List Packet)
    (s : S) : Except CacheFault (Packet × List Packet × S) := do
  let bus ← getBusPacket config pkt (blk.map (slot.get s).blk) pkt.cmd.needsExclusive
  match bus with
  | none => do
    -- The same request goes to the next level, and no copy is kept here.
    let (pkt, s) ← port.sendAtomic pkt s
    return (pkt, writebacks, s)
  | some bus_pkt => do
    let (bus_pkt, s) ← port.sendAtomic bus_pkt s
    if !pkt.cmd.needsResponse then return (pkt, writebacks, s)
    else if !bus_pkt.cmd.isResponse then .error .notResponse
    else if bus_pkt.cmd.isError then
      return ({ pkt.makeResponse with cmd := bus_pkt.cmd }, writebacks, s)
    else if bus_pkt.cmd.isRead || bus_pkt.cmd = .upgradeResp then do
      let (ref, writebacks, c) ← handleFill config noMshr bus_pkt blk writebacks (slot.get s)
      let (pkt, c) ← satisfyCpuSideRequest config false false pkt ref c
      return (pkt, writebacks, slot.set c s)
    else return (pkt.makeResponse, writebacks, s)

/-- Send the blocks that were replaced (in `recvAtomic`). -/
def sendWritebacks (port : MemSidePort S) (writebacks : List Packet) (s : S) :
    Except CacheFault S :=
  writebacks.foldlM (fun s packet => do
    let (_, s) ← port.sendAtomic packet s
    return s) s

/-- Handle a request from the CPU side at once (`recvAtomic`). -/
def recvAtomic (port : MemSidePort S) (pkt : Packet) (s : S) : Except CacheFault (Packet × S) :=
  if pkt.memInhibit then recvInhibited config slot port pkt s
  else do
    let accessed ← access config noMshr pkt (slot.get s)
    let s := accessed.flushed.foldl (fun s packet => port.sendFunctional packet s)
      (slot.set accessed.cache s)
    let (pkt, writebacks, s) ←
      if accessed.satisfied then .ok (accessed.pkt, accessed.writebacks, s)
      else fetch config slot port accessed.pkt accessed.blk accessed.writebacks s
    let s ← sendWritebacks port writebacks s
    return (if pkt.cmd.needsResponse then pkt.makeResponse else pkt, s)

/--
What a snoop makes of its packet and of a valid block (in `handleSnoop`).

The last part of the answer says whether the copy here is given up.
-/
def snoopBlk (invalidate needs_exclusive : Bool) (pkt : Packet) (blk : CacheBlk) :
    Except CacheFault (Packet × CacheBlk × Bool) :=
  let respond := blk.isDirty && pkt.cmd.needsResponse
  let have_exclusive := blk.isWritable
  if pkt.cmd = .hardPFReq then .ok ({ pkt with prefetchSquashed := true }, blk, false)
  else
    let downgrade := pkt.cmd.isRead && !invalidate
    if downgrade && needs_exclusive then .error .exclusiveRead
    else
      let pkt := if downgrade then { pkt with shared := true } else pkt
      let blk :=
        if downgrade then blk.mapStatus fun status => { status with writable := false } else blk
      if respond then
        if pkt.memInhibit then .error .respondsTwice
        else
          let pkt := { pkt with
            memInhibit := true
            supplyExclusive := pkt.supplyExclusive || have_exclusive }
          .ok (pkt.makeResponse.setDataFromBlock blk.data config.blkSize, blk, invalidate)
      else .ok (pkt, blk, invalidate)

/-- Handle an atomic snoop (`handleSnoop`). -/
def handleSnoop (above : Packet → S → Except CacheFault (Packet × S)) (pkt : Packet)
    (found : Option BlkPtr) (s : S) : Except CacheFault (Packet × S) :=
  if !pkt.cmd.isRequest then .error .notRequest
  else do
    let invalidate := pkt.cmd.isInvalidate
    let needs_exclusive := pkt.cmd.needsExclusive
    let alreadyResponded := pkt.memInhibit
    let (pkt, s) ← if config.forwardSnoops then above pkt s else .ok (pkt, s)
    if config.forwardSnoops && !alreadyResponded && pkt.memInhibit && !pkt.cmd.isResponse then
      .error .notResponse
    else
      match found with
      | none => .ok (pkt, s)
      | some ptr => do
        let c := slot.get s
        let (pkt, blk, gone) ←
          snoopBlk config invalidate needs_exclusive pkt (c.tags.blks ptr)
        let c := c.setBlk (.stored ptr) blk
        if gone then do
          let c ← c.invalidate (.stored ptr)
          return (pkt, slot.set c s)
        else return (pkt, slot.set c s)

/-- Let a cache see a request of another one (`recvAtomicSnoop`). -/
def recvAtomicSnoop (above : Packet → S → Except CacheFault (Packet × S)) (pkt : Packet) (s : S) :
    Except CacheFault (Packet × S) :=
  if pkt.req.isUncacheable || pkt.cmd = .writeback then .ok (pkt, s)
  else
    let found := (slot.get s).tags.findBlock config.toLruConfig pkt.addr pkt.isSecure
    handleSnoop config slot above pkt found s

end Cache

namespace CoherentBus

variable {S Port : Type} [DecidableEq Port]

/-- One snoop; a response is kept aside, and the request restored for the others. -/
def forwardOne (snoop : Port → Packet → S → Except CacheFault (Packet × S)) (orig_cmd : MemCmd) :
    Packet × MemCmd × S → Port → Except CacheFault (Packet × MemCmd × S)
  | (pkt, snoop_response_cmd, s), port => do
    let (pkt, s) ← snoop port pkt s
    if pkt.cmd.isResponse then
      if pkt.cmd = orig_cmd || !pkt.memInhibit then .error .notInhibited
      else if snoop_response_cmd ≠ .invalidCmd then .error .respondsTwice
      else .ok ({ pkt with cmd := orig_cmd }, pkt.cmd, s)
    else .ok (pkt, snoop_response_cmd, s)

/-- Let all ports but the source snoop a request (`forwardAtomic`). -/
def forwardAtomic (snoop : Port → Packet → S → Except CacheFault (Packet × S)) (ports : List Port)
    (exclude : Port) (pkt : Packet) (s : S) : Except CacheFault (Packet × MemCmd × S) :=
  (ports.filter (· ≠ exclude)).foldlM (forwardOne snoop pkt.cmd) (pkt, .invalidCmd, s)

/-- Snoop a request, then let it go to its destination in any case (`recvAtomic`). -/
def recvAtomic (snoop : Port → Packet → S → Except CacheFault (Packet × S)) (ports : List Port)
    (below : Packet → S → Except CacheFault (Packet × S)) (source : Port) (pkt : Packet) (s : S) :
    Except CacheFault (Packet × S) := do
  let (pkt, snoop_response_cmd, s) ←
    if pkt.req.isUncacheable then .ok (pkt, .invalidCmd, s)
    else forwardAtomic snoop ports source pkt s
  let (pkt, s) ← below pkt s
  if snoop_response_cmd ≠ .invalidCmd then
    if pkt.cmd.isResponse then .error .respondsTwice
    else return ({ pkt with cmd := snoop_response_cmd }, s)
  else return (pkt, s)

end CoherentBus

end GemDroid
