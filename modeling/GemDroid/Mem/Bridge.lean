import Mathlib.Logic.Basic

/-! The bridge between two buses, with a queue for requests and a queue for responses. -/

namespace GemDroid

/-- What a component remembers in a packet until the response comes back. -/
inductive SenderState where
  /-- The bridge remembers the port that the request came from. -/
  | requestState (origSrc : Nat)
  | other (owner : Nat)

/-- A packet as the bridge sees it, with a body that it does not look at. -/
structure BridgePacket (Body : Type) where
  body : Body
  src : Nat
  dest : Option Nat := none
  needsResponse : Bool
  memInhibitAsserted : Bool
  senderState : List SenderState := []
  busFirstWordDelay : Nat := 0
  busLastWordDelay : Nat := 0

/-- Does the bridge expect a response to the request? -/
def BridgePacket.expectsResponse {Body : Type} (pkt : BridgePacket Body) : Bool :=
  pkt.needsResponse && !pkt.memInhibitAsserted

/-- When the clock of an object has its edges, which is never in the past. -/
structure ClockEdges where
  clockEdge : (curTick cycles : Nat) → Nat
  not_past : ∀ curTick cycles, curTick ≤ clockEdge curTick cycles

/-- The edges of a clock that has had one period from the start. -/
def ClockEdges.ofPeriod (period : Nat) (positive : 0 < period) : ClockEdges where
  clockEdge curTick cycles := (curTick + (period - 1)) / period * period + period * cycles
  not_past curTick cycles := by
    have split := Nat.div_add_mod (curTick + (period - 1)) period
    have rest := Nat.mod_lt (curTick + (period - 1)) positive
    rw [Nat.mul_comm period] at split
    omega

theorem ClockEdges.ofPeriod_edges (period : Nat) (positive : 0 < period) (curTick cycles : Nat) :
    (ofPeriod period positive).clockEdge curTick cycles =
      (ofPeriod period positive).clockEdge curTick 0 + period * cycles := by
  simp [ofPeriod]

/-- The assertions that a port of the bridge can fail. -/
inductive BridgeFault where
  | inRetry
  | respQueueFull
  | reqQueueFull
  | emptyList
  | tooEarly
  | noneOutstanding
  | noRequestState
  | whenPast
  | scheduledTwice
  /-- The world would do something that it cannot do. -/
  | notPossible
  deriving DecidableEq

/-- A packet that waits in the bridge for its tick. -/
structure BridgeDeferred (Body : Type) where
  pkt : BridgePacket Body
  tick : Nat

/-- The port that requests leave by. -/
structure BridgeMasterPort (Body : Type) where
  transmitList : List (BridgeDeferred Body) := []
  reqQueueLimit : Nat
  sendEvent : Option Nat := none

/-- The port that requests come to and responses leave by. -/
structure BridgeSlavePort (Body : Type) where
  transmitList : List (BridgeDeferred Body) := []
  outstandingResponses : Nat := 0
  retryReq : Bool := false
  respQueueLimit : Nat
  sendEvent : Option Nat := none

/-- The bridge, whose two ports have the same delay and clock. -/
structure Bridge (Body : Type) where
  slavePort : BridgeSlavePort Body
  masterPort : BridgeMasterPort Body
  delay : Nat
  clock : ClockEdges

/-- An event that is not scheduled is, for now or later. -/
def Bridge.schedule (sendEvent : Option Nat) (curTick when : Nat) : Except BridgeFault
    (Option Nat) :=
  if when < curTick then .error .whenPast
  else if sendEvent.isSome then .error .scheduledTwice
  else .ok (some when)

/-- At the head of the queue a packet schedules the event; behind others it is scheduled already. -/
def Bridge.scheduleHead {Body : Type} (transmitList : List (BridgeDeferred Body))
    (sendEvent : Option Nat) (curTick when : Nat) : Except BridgeFault (Option Nat) :=
  if transmitList.isEmpty then Bridge.schedule sendEvent curTick when else .ok sendEvent

namespace BridgeMasterPort

variable {Body : Type}

/-- Is there no room for a request? -/
def reqQueueFull (port : BridgeMasterPort Body) : Bool :=
  port.transmitList.length == port.reqQueueLimit

/-- Queues a request, which remembers its source if a response is expected. -/
def schedTimingReq (port : BridgeMasterPort Body) (curTick : Nat) (pkt : BridgePacket Body)
    (when : Nat) : Except BridgeFault (BridgeMasterPort Body) := do
  let pkt :=
    if !pkt.memInhibitAsserted && pkt.needsResponse then
      { pkt with senderState := .requestState pkt.src :: pkt.senderState }
    else pkt
  let sendEvent ← Bridge.scheduleHead port.transmitList port.sendEvent curTick when
  if port.transmitList.length = port.reqQueueLimit then .error .reqQueueFull
  else .ok { port with sendEvent, transmitList := port.transmitList ++ [{ pkt, tick := when }] }

/-- The part of `trySendTiming` up to the call of the peer: the request that is sent. -/
def reqToSend (port : BridgeMasterPort Body) (curTick : Nat) :
    Except BridgeFault (BridgePacket Body) :=
  match port.transmitList with
  | [] => .error .emptyList
  | req :: _ => if req.tick ≤ curTick then .ok req.pkt else .error .tooEarly

end BridgeMasterPort

namespace BridgeSlavePort

variable {Body : Type}

/-- Is there no room to reserve for a response? -/
def respQueueFull (port : BridgeSlavePort Body) : Bool :=
  port.outstandingResponses == port.respQueueLimit

/-- Queues a response, whose destination is the source that its request remembers. -/
def schedTimingResp (port : BridgeSlavePort Body) (curTick : Nat) (pkt : BridgePacket Body)
    (when : Nat) : Except BridgeFault (BridgeSlavePort Body) :=
  match pkt.senderState with
  | .requestState origSrc :: senderState => do
    let pkt := { pkt with senderState, dest := some origSrc }
    let sendEvent ← Bridge.scheduleHead port.transmitList port.sendEvent curTick when
    .ok { port with sendEvent, transmitList := port.transmitList ++ [{ pkt, tick := when }] }
  | _ => .error .noRequestState

/-- The part of `trySendTiming` up to the call of the peer: the response that is sent. -/
def respToSend (port : BridgeSlavePort Body) (curTick : Nat) :
    Except BridgeFault (BridgePacket Body) :=
  match port.transmitList with
  | [] => .error .emptyList
  | resp :: _ => if resp.tick ≤ curTick then .ok resp.pkt else .error .tooEarly

end BridgeSlavePort

namespace Bridge

variable {Body : Type}

/-- A request comes to the slave port, and is accepted or stalled. -/
def recvTimingReq (b : Bridge Body) (curTick : Nat) (pkt : BridgePacket Body) :
    Except BridgeFault (Bridge Body × Bool) :=
  let stalled := ({ b with slavePort := { b.slavePort with retryReq := true } }, false)
  if b.slavePort.retryReq then .error .inRetry
  else if b.masterPort.reqQueueFull then .ok stalled
  else if pkt.expectsResponse && b.slavePort.respQueueFull then .ok stalled
  else do
    let outstandingResponses :=
      if pkt.expectsResponse then b.slavePort.outstandingResponses + 1
      else b.slavePort.outstandingResponses
    let masterPort ← b.masterPort.schedTimingReq curTick
      { pkt with busFirstWordDelay := 0, busLastWordDelay := 0 }
      (b.clock.clockEdge curTick b.delay)
    .ok ({ b with masterPort, slavePort := { b.slavePort with outstandingResponses } }, true)

/-- A response comes to the master port, and there is room for it. -/
def recvTimingResp (b : Bridge Body) (curTick : Nat) (pkt : BridgePacket Body) :
    Except BridgeFault (Bridge Body) := do
  let slavePort ← b.slavePort.schedTimingResp curTick
    { pkt with busFirstWordDelay := 0, busLastWordDelay := 0 }
    (b.clock.clockEdge curTick b.delay)
  .ok { b with slavePort }

/-- The send event of the next packet, if there is one. -/
def scheduleNext (b : Bridge Body) (curTick : Nat) (sendEvent : Option Nat) :
    List (BridgeDeferred Body) → Except BridgeFault (Option Nat)
  | [] => .ok sendEvent
  | next :: _ => schedule sendEvent curTick (max next.tick (b.clock.clockEdge curTick 0))

/-- The part of `trySendTiming` after the peer took a request, and whether a retry is then sent. -/
def reqSent (b : Bridge Body) (curTick : Nat) : Except BridgeFault (Bridge Body × Bool) := do
  let transmitList := b.masterPort.transmitList.tail
  let sendEvent ← b.scheduleNext curTick b.masterPort.sendEvent transmitList
  let masterPort := { b.masterPort with transmitList, sendEvent }
  -- Any stalled request is retried, whatever it was stalled for.
  if b.slavePort.retryReq then
    .ok ({ b with masterPort, slavePort := { b.slavePort with retryReq := false } }, true)
  else .ok ({ b with masterPort }, false)

/-- The part of `trySendTiming` after the peer took a response, and whether a retry is sent. -/
def respSent (b : Bridge Body) (curTick : Nat) : Except BridgeFault (Bridge Body × Bool) := do
  let transmitList := b.slavePort.transmitList.tail
  if b.slavePort.outstandingResponses = 0 then .error .noneOutstanding
  else
    let outstandingResponses := b.slavePort.outstandingResponses - 1
    let sendEvent ← b.scheduleNext curTick b.slavePort.sendEvent transmitList
    let slavePort := { b.slavePort with transmitList, outstandingResponses, sendEvent }
    -- A stalled request can be accepted now unless the request queue is full.
    if !b.masterPort.reqQueueFull && slavePort.retryReq then
      .ok ({ b with slavePort := { slavePort with retryReq := false } }, true)
    else .ok ({ b with slavePort }, false)

end Bridge

end GemDroid
