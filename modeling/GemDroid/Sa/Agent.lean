import GemDroid.Ip.Base
import GemDroid.Lib.Run

/-! The system agent between the cores, the IPs and the memory. -/

namespace GemDroid

/-- A memory request or its response on the way through the agent (`GemDroidMemMsg`). -/
structure MemMsg where
  ipType : IpType
  id : Int
  coreId : Int
  addr : Addr
  isRead : Bool
  isResponse : Bool
  deriving DecidableEq, Repr

/-- The message that answers a request: the sender stays, the core is not passed on. -/
def MemMsg.response (m : MemMsg) : MemMsg :=
  { m with coreId := 0, isResponse := true }

/-- A call for an IP on the way through the agent (`GemDroidIPRequest`). -/
structure IpReqMsg where
  senderType : IpType
  senderId : Int
  ipType : IpType
  req : IpRequest
  deriving DecidableEq, Repr

/-- The state of `GemDroidSA`, without the counters that are only reported. -/
structure Sa where
  cyclesToSkip : Int
  coreMemReq : List MemMsg
  ipMemReq : List MemMsg
  memCoreResp : List MemMsg
  memIpResp : List MemMsg
  ipReq : IpType → List IpReqMsg
  numCoreMemReqs : Nat
  numIPMemReqs : Nat
  numMemCoreResponse : Nat
  numMemIPResponse : Nat
  numIPReqs : Nat
  numRejected : Nat

/-- The IP types in the order in which the agent serves their calls. -/
def callableIpTypes : List IpType :=
  [.dc, .nw, .snd, .mic, .cam, .mmcIn, .mmcOut, .vd, .ve, .ad, .ae, .img, .gpu, .dma, .cache]

/-- First address that belongs to the IPs and not to the cores. -/
def ipAddrSpace : Nat := 2 * 1024 * 1024 * 1024

namespace Sa

/-- The agent after construction; the skip count keeps what its memory held. -/
def start (cyclesToSkip : Int) : Sa :=
  { cyclesToSkip := cyclesToSkip, coreMemReq := [], ipMemReq := [], memCoreResp := [],
    memIpResp := [], ipReq := fun _ => [], numCoreMemReqs := 0, numIPMemReqs := 0,
    numMemCoreResponse := 0, numMemIPResponse := 0, numIPReqs := 0, numRejected := 0 }

/-- Whether so many responses wait that the agent takes no further request. -/
def respLimitReached (sa : Sa) : Bool :=
  maxMemResps < sa.memCoreResp.length + sa.memIpResp.length

/-- A core asks the agent for memory (`enqueueCoreMemRequest`). -/
def enqueueCoreMemRequest (id : Int) (addr : Addr) (isRead : Bool) (sa : Sa) : Sa × Bool :=
  -- Both queues are compared with the whole buffer.
  if maxMemReqs < sa.coreMemReq.length + sa.ipMemReq.length then
    ({ sa with numRejected := sa.numRejected + 1 }, false)
  else if sa.respLimitReached then
    ({ sa with numRejected := sa.numRejected + 1 }, false)
  else
    -- The core is its own instance number.
    ({ sa with
      numCoreMemReqs := sa.numCoreMemReqs + 1
      coreMemReq := sa.coreMemReq ++ [⟨.cpu, id, id, addr, isRead, false⟩] }, true)

/-- An IP asks the agent for memory (`enqueueIPMemRequest`). -/
def enqueueIPMemRequest (ipType : IpType) (ipId coreId : Int) (addr : Addr) (isRead : Bool)
    (sa : Sa) : Sa × Bool :=
  -- Only the queue of the IPs is compared, and with their share alone.
  if maxIpMemReqs < sa.ipMemReq.length then
    ({ sa with numRejected := sa.numRejected + 1 }, false)
  else if sa.respLimitReached then
    ({ sa with numRejected := sa.numRejected + 1 }, false)
  else
    ({ sa with
      numIPMemReqs := sa.numIPMemReqs + 1
      ipMemReq := sa.ipMemReq ++ [⟨ipType, ipId, coreId, addr, isRead, false⟩] }, true)

/-- Whether the queue of calls for an IP type is full (`isIPReqLimitReached`). -/
def isIPReqLimitReached (ipType : IpType) (sa : Sa) : Bool :=
  maxIpOutstandingReqs ≤ (sa.ipReq ipType).length

/-- An IP calls another IP; a full queue drops the call (`enqueueIPIPRequest`). -/
def enqueueIPIPRequest (call : IpReqMsg) (sa : Sa) : Sa × Bool :=
  if sa.isIPReqLimitReached call.ipType then (sa, false)
  else
    ({ sa with
      numIPReqs := sa.numIPReqs + 1
      ipReq := Function.update sa.ipReq call.ipType (sa.ipReq call.ipType ++ [call]) }, true)

/--
The memory answers a request (`memResponse`).

A core's address lies below the IPs' memory regions and an IP's address above, or the run ends.
-/
def memResponse (addr : Addr) (isRead : Bool) (senderType : IpType) (senderId : Int) (sa : Sa) :
    Option Sa :=
  let response : MemMsg := ⟨senderType, senderId, 0, addr, isRead, true⟩
  if senderType = .cpu then
    if addr.toNat < ipAddrSpace then
      some { sa with
        memCoreResp := sa.memCoreResp ++ [response]
        numMemCoreResponse := sa.numMemCoreResponse + 1 }
    else none
  else if ipAddrSpace < addr.toNat then
    some { sa with
      memIpResp := sa.memIpResp ++ [response]
      numMemIPResponse := sa.numMemIPResponse + 1 }
  else none

/-- Pass the first waiting call on to an IP that takes it (`sendIPRequests`). -/
def sendIPRequests (taken : IpType → Bool) (sa : Sa) : Sa :=
  -- One call is passed on in each cycle; a refused one leaves the turn to the next type.
  match callableIpTypes.find? (fun i => !(sa.ipReq i).isEmpty && taken i) with
  | some i => { sa with ipReq := Function.update sa.ipReq i (sa.ipReq i).tail }
  | none => sa

end Sa

/-- The IP types whose object `memIPResponse` passes a response on to. -/
def takesMemResponse : IpType → Bool
  | .dc | .snd | .mic | .nw | .cam | .mmcIn | .mmcOut | .vd | .ve | .ad | .ae | .img => true
  | .cpu | .gpu | .dma | .cache => false

/--
The agent with the memory behind it and a record of the messages that passed its borders.

`inService` holds the requests the memory took and has not completed.
The record lists the requests the agent accepted, those the memory took, the completions, and the
responses the agent handed to `memCoreResponse` and `memIPResponse`.
`received` lists the responses that reached the object of an IP.
-/
structure SaSystem where
  sa : Sa
  perfectMemory : Bool
  numChannels : Nat
  inService : List MemMsg
  acceptedCore : List MemMsg
  acceptedIp : List MemMsg
  takenCore : List MemMsg
  takenIp : List MemMsg
  completed : List MemMsg
  deliveredCore : List MemMsg
  deliveredIp : List MemMsg
  received : List MemMsg

/-- What can happen to the agent, in any order. -/
inductive SaEvent
  | enqueueCoreMemRequest (id : Int) (addr : Addr) (isRead : Bool)
  | enqueueIPMemRequest (ipType : IpType) (ipId coreId : Int) (addr : Addr) (isRead : Bool)
  | enqueueIPIPRequest (call : IpReqMsg)
  | tick (canAccept : Nat → Bool) (callTaken : IpType → Bool)
  | memComplete (index : Nat)

namespace SaSystem

/-- The agent and the memory before any request. -/
def start (perfectMemory : Bool) (numChannels : Nat) (cyclesToSkip : Int) : SaSystem :=
  { sa := Sa.start cyclesToSkip, perfectMemory := perfectMemory, numChannels := numChannels,
    inService := [], acceptedCore := [], acceptedIp := [], takenCore := [], takenIp := [],
    completed := [], deliveredCore := [], deliveredIp := [], received := [] }

/-- A completed request is given to the agent (`readComplete`, `writeComplete`). -/
def complete (m : MemMsg) (s : SaSystem) : Option SaSystem :=
  (s.sa.memResponse m.addr m.isRead m.ipType m.id).map fun sa =>
    { s with sa := sa, completed := s.completed ++ [m.response] }

/--
The memory is offered a request (`enqueueMemReq`).

Perfect memory takes it and answers it in the same call.
Address zero ends the run.
-/
def enqueueMemReq (canAccept : Bool) (m : MemMsg) (s : SaSystem) : Option (SaSystem × Bool) :=
  if m.addr = 0 then none
  else if s.perfectMemory then (s.complete m).map fun s => (s, true)
  else if canAccept then some ({ s with inService := s.inService ++ [m] }, true)
  else some (s, false)

/-- Offer the memory one request, the cores' first (`sendMemoryRequests`). -/
def sendMemoryRequests (canAccept : Bool) (s : SaSystem) : Option SaSystem :=
  match s.sa.coreMemReq with
  | request :: _ =>
    (s.enqueueMemReq canAccept request).map fun (s, taken) =>
      if taken then
        { s with
          sa := { s.sa with coreMemReq := s.sa.coreMemReq.tail }
          takenCore := s.takenCore ++ [request] }
      else s
  | [] =>
    match s.sa.ipMemReq with
    | request :: _ =>
      (s.enqueueMemReq canAccept request).map fun (s, taken) =>
        if taken then
          { s with
            sa := { s.sa with ipMemReq := s.sa.ipMemReq.tail }
            takenIp := s.takenIp ++ [request] }
        else s
    | [] => some s

/-- Cycles the agent is busy after it passed a response on. -/
def transmitCycles (response : MemMsg) (s : SaSystem) : Int :=
  -- A write is answered by a message without data.
  if s.perfectMemory then 0
  else if response.isRead then memRespTransmitCycles
  else 1

/-- Pass one response on, the cores' first (`sendMemoryResponses`). -/
def sendMemoryResponses (s : SaSystem) : Option SaSystem :=
  match s.sa.memCoreResp with
  | response :: rest =>
    some { s with
      sa := { s.sa with
        memCoreResp := rest
        cyclesToSkip := s.transmitCycles response }
      deliveredCore := s.deliveredCore ++ [response] }
  | [] =>
    match s.sa.memIpResp with
    | response :: rest =>
      -- `memIPResponse` asserts that no core is meant.
      if response.ipType = .cpu then none
      else some { s with
        sa := { s.sa with
          memIpResp := rest
          cyclesToSkip := s.transmitCycles response }
        deliveredIp := s.deliveredIp ++ [response]
        received :=
          if takesMemResponse response.ipType then s.received ++ [response] else s.received }
    | [] => some s

/--
One cycle of the agent (`process`).

Each channel of the memory is offered one request and may return one response.
-/
def tick (canAccept : Nat → Bool) (callTaken : IpType → Bool) (s : SaSystem) :
    Option SaSystem := do
  let s ← Machine.run (fun s i => sendMemoryRequests (canAccept i) s) s (List.range s.numChannels)
  let s := { s with sa := s.sa.sendIPRequests callTaken }
  -- While a response is transmitted no other is passed on.
  if 0 < s.sa.cyclesToSkip then
    some { s with sa := { s.sa with cyclesToSkip := s.sa.cyclesToSkip - 1 } }
  else Machine.run (fun s (_ : Nat) => sendMemoryResponses s) s (List.range s.numChannels)

/-- One event; only IPs call for IP memory, and only requests in service are completed. -/
def step (s : SaSystem) : SaEvent → Option SaSystem
  | .enqueueCoreMemRequest id addr isRead =>
    let (sa, accepted) := s.sa.enqueueCoreMemRequest id addr isRead
    some { s with
      sa := sa
      acceptedCore :=
        if accepted then s.acceptedCore ++ [⟨.cpu, id, id, addr, isRead, false⟩]
        else s.acceptedCore }
  | .enqueueIPMemRequest ipType ipId coreId addr isRead =>
    if ipType = .cpu then none
    else
      let (sa, accepted) := s.sa.enqueueIPMemRequest ipType ipId coreId addr isRead
      some { s with
        sa := sa
        acceptedIp :=
          if accepted then s.acceptedIp ++ [⟨ipType, ipId, coreId, addr, isRead, false⟩]
          else s.acceptedIp }
  | .enqueueIPIPRequest call => some { s with sa := (s.sa.enqueueIPIPRequest call).1 }
  | .tick canAccept callTaken => s.tick canAccept callTaken
  | .memComplete index => do
    -- The memory completes in any order.
    let m ← s.inService[index]?
    complete m { s with inService := s.inService.eraseIdx index }

end SaSystem

end GemDroid
