import GemDroid.Mem.Memory

/-! A memory with a latency and a bandwidth, which answers its requests in order. -/

namespace GemDroid

/-- A packet as an object of its own, told from others by its number. -/
structure PacketPtr where
  number : Nat
  pkt : Packet

/-- A response, and the tick from which on it may be sent. -/
structure DeferredResponse where
  tick : Nat
  pkt : PacketPtr

/-- The latency with its variation, and for how many ticks a size keeps the memory busy. -/
structure SimpleMemoryParams where
  latency : Nat
  latency_var : Nat
  duration : (size : Nat) → Nat

/-- The assertions of the memory and of the event queue, and those of the access itself. -/
inductive SimpleMemoryFault where
  | notBusy
  | emptyQueue
  | notRetryResp
  | notResponse
  | scheduledTwice
  | whenPast
  | access (fault : CacheFault)

/-- The memory with its flags, its two events, and the responses that it has not yet sent. -/
structure SimpleMemory where
  memory : Memory
  isBusy : Bool := false
  retryReq : Bool := false
  retryResp : Bool := false
  releaseEvent : Option Nat := none
  dequeueEvent : Option Nat := none
  packetQueue : List DeferredResponse := []
  /-- Someone waits to be told that the memory is drained. -/
  drainManager : Bool := false

namespace SimpleMemory

/-- An event is scheduled, as the event queue allows. -/
def schedule (event : Option Nat) (curTick when : Nat) : Except SimpleMemoryFault (Option Nat) :=
  if when < curTick then .error .whenPast
  else if event.isSome then .error .scheduledTwice
  else .ok (some when)

/-- An event is scheduled, or moved to another tick. -/
def reschedule (curTick when : Nat) : Except SimpleMemoryFault (Option Nat) :=
  if when < curTick then .error .whenPast else .ok (some when)

/-- The latency of an access, to which a random part is added. -/
def getLatency (params : SimpleMemoryParams) (random : Nat) : Nat :=
  params.latency + if params.latency_var ≠ 0 then min random params.latency_var else 0

/-- The access is performed, which turns a packet that needs a response into one. -/
def recvAtomic (m : SimpleMemory) (pkt : Packet) :
    Except SimpleMemoryFault (Packet × SimpleMemory) :=
  match m.memory.access pkt with
  | .error fault => .error (.access fault)
  | .ok (pkt, memory) => .ok (pkt, { m with memory })

/-- A read or write keeps the memory busy for as long as its size takes. -/
def occupy (params : SimpleMemoryParams) (m : SimpleMemory) (curTick : Nat) (pkt : Packet) :
    Except SimpleMemoryFault SimpleMemory :=
  if (pkt.cmd.isRead || pkt.cmd.isWrite) && params.duration pkt.size != 0 then do
    let releaseEvent ← schedule m.releaseEvent curTick (curTick + params.duration pkt.size)
    return { m with releaseEvent, isBusy := true }
  else .ok m

/-- A response joins the queue, and the event is scheduled unless it is or a retry is due. -/
def defer (m : SimpleMemory) (curTick : Nat) (response : DeferredResponse) :
    Except SimpleMemoryFault SimpleMemory := do
  let m := { m with packetQueue := m.packetQueue ++ [response] }
  if !m.retryResp && m.dequeueEvent.isNone then
    return { m with dequeueEvent := ← schedule m.dequeueEvent curTick response.tick }
  else return m

/-- A request that finds the memory free is performed and, if it needs that, answered later. -/
def perform (params : SimpleMemoryParams) (m : SimpleMemory) (curTick random : Nat)
    (pkt : PacketPtr) : Except SimpleMemoryFault SimpleMemory := do
  let m ← m.occupy params curTick pkt.pkt
  let (result, m) ← m.recvAtomic pkt.pkt
  if pkt.pkt.cmd.needsResponse then
    if result.cmd.isResponse then
      m.defer curTick
        { tick := curTick + getLatency params random, pkt := { pkt with pkt := result } }
    else .error .notResponse
  else return m

/-- A request arrives, and is accepted or refused. -/
def recvTimingReq (params : SimpleMemoryParams) (m : SimpleMemory) (curTick random : Nat)
    (pkt : PacketPtr) : Except SimpleMemoryFault (SimpleMemory × Bool) :=
  -- A cache supplies the data.
  if pkt.pkt.memInhibit then .ok (m, true)
  else if m.retryReq then .ok (m, false)
  else if m.isBusy then .ok ({ m with retryReq := true }, false)
  else do return (← m.perform params curTick random pkt, true)

/-- The memory is free again; returns whether a retry is sent. -/
def release (m : SimpleMemory) : Except SimpleMemoryFault (SimpleMemory × Bool) :=
  if m.isBusy then .ok ({ m with isBusy := false, retryReq := false }, m.retryReq)
  else .error .notBusy

/-- The response that `dequeue` sends. -/
def front (m : SimpleMemory) : Except SimpleMemoryFault DeferredResponse :=
  match m.packetQueue with
  | [] => .error .emptyQueue
  | deferred_pkt :: _ => .ok deferred_pkt

/-- The rest of `dequeue` when the response has been accepted or refused. -/
def sent (m : SimpleMemory) (curTick : Nat) (accepted : Bool) :
    Except SimpleMemoryFault SimpleMemory :=
  if accepted then
    match m.packetQueue.tail with
    | [] => .ok { m with retryResp := false, packetQueue := [], drainManager := false }
    | next :: rest => do
      let dequeueEvent ← reschedule curTick (max next.tick curTick)
      return { m with retryResp := false, packetQueue := next :: rest, dequeueEvent }
  else .ok { m with retryResp := true }

/-- A retry from the peer is taken only when a response was refused. -/
def recvRetry (m : SimpleMemory) : Except SimpleMemoryFault DeferredResponse :=
  if m.retryResp then m.front else .error .notRetryResp

/-- Someone asks to be told when the memory is drained, unless it is. -/
def drain (m : SimpleMemory) : SimpleMemory :=
  if m.packetQueue.isEmpty then m else { m with drainManager := true }

end SimpleMemory

end GemDroid
