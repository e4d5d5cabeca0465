import GemDroid.Mem.Cache

/-! The memory behind the caches: its bytes, and the load locks it would track. -/

namespace GemDroid

/-- A context that loaded an address for a store-conditional to come (`LockedAddr`). -/
structure LockedAddr where
  addr : Addr
  contextId : Int
  deriving DecidableEq, Repr

/-- The bytes of the memory and its load locks (`AbstractMemory`). -/
structure Memory where
  data : Addr → UInt8
  lockedAddrList : List LockedAddr

namespace LockedAddr

/-- Locks are kept for sixteen bytes each (`mask`). -/
def mask (paddr : Addr) : Addr :=
  paddr &&& ~~~(0xf#64)

end LockedAddr

namespace Memory

/-- The bytes from an address on. -/
def bytes (mem : Memory) (addr : Addr) (i : Nat) : UInt8 :=
  mem.data (addr + BitVec.ofNat 64 i)

/-- Write bytes from an address on. -/
def write (addr : Addr) (size : Nat) (source : Nat → UInt8) (mem : Memory) : Memory :=
  { mem with data := fun a =>
      let i := (a - addr).toNat
      if i < size then source i else mem.data a }

/-- Track a load-locked request; a context has one lock (`trackLoadLocked`). -/
def trackLoadLocked (req : Request) (mem : Memory) : Memory :=
  let paddr := LockedAddr.mask req.paddr
  match mem.lockedAddrList.findIdx? fun lock => lock.contextId == req.contextId with
  | some i =>
    { mem with lockedAddrList := mem.lockedAddrList.modify i fun lock =>
        { lock with addr := paddr } }
  | none => { mem with lockedAddrList := ⟨paddr, req.contextId⟩ :: mem.lockedAddrList }

/-- Whether a write may proceed, with the request and the locks after it (`writeOK`). -/
def writeOK (pkt : Packet) (mem : Memory) : Packet × Memory × Bool :=
  let paddr := LockedAddr.mask pkt.req.paddr
  let isLLSC := pkt.cmd.isLLSC
  let allowStore := !isLLSC || mem.lockedAddrList.any fun lock =>
    lock.addr == paddr && lock.contextId == pkt.req.contextId
  let pkt :=
    if isLLSC then
      { pkt with req := { pkt.req with extraData := if allowStore then 1 else 0 } }
    else pkt
  (pkt,
    if allowStore then
      { mem with lockedAddrList := mem.lockedAddrList.filter fun lock => lock.addr != paddr }
    else mem, allowStore)

/-- Exchange the data of a packet with that of the memory (in `access`). -/
def swap (pkt : Packet) (mem : Memory) : Except CacheFault (Packet × Memory) :=
  let old := mem.bytes pkt.addr
  let equal := (List.range pkt.size).all fun i => old i == pkt.conditionByte i
  if 8 < pkt.size then .error .swapTooLarge
  else if pkt.req.isCondSwap && pkt.size ≠ 8 && pkt.size ≠ 4 then .error .invalidSwapSize
  else if pkt.req.isInstFetch then .error .fetchWrites
  else
    .ok (pkt.setData old,
      if !pkt.req.isCondSwap || equal then mem.write pkt.addr pkt.size pkt.data else mem)

/-- Perform a request, unless a cache responds to it (`access`). -/
def access (pkt : Packet) (mem : Memory) : Except CacheFault (Packet × Memory) :=
  if pkt.memInhibit then .ok (pkt, mem)
  else do
    let (pkt, mem) ←
      if pkt.cmd = .swapReq then mem.swap pkt
      else if pkt.cmd.isRead then
        if pkt.cmd.isWrite then .error .readWrites
        else
          let mem := if pkt.cmd.isLLSC then mem.trackLoadLocked pkt.req else mem
          .ok (pkt.setData (mem.bytes pkt.addr), mem)
      else if pkt.cmd.isWrite then
        let (pkt, mem, allowed) := mem.writeOK pkt
        if !allowed then .ok (pkt, mem)
        else if pkt.req.isInstFetch then .error .fetchWrites
        else .ok (pkt, mem.write pkt.addr pkt.size pkt.data)
      else if pkt.cmd.isInvalidate then .ok (pkt, mem)
      else .error .unimplemented
    return (if pkt.cmd.needsResponse then pkt.makeResponse else pkt, mem)

end Memory

end GemDroid
