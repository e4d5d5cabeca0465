import Mathlib.Algebra.Group.Nat.Defs

/-! The queue of a port that sends its packets later, in the order of their ticks. -/

namespace GemDroid

/-- The tick that stands for no tick at all. -/
def MaxTick : Nat :=
  2 ^ 64 - 1

/-- A packet that is ready to be sent from a tick on. -/
structure DeferredPacket (Pkt : Type) where
  tick : Nat
  pkt : Pkt
  sendAsSnoop : Bool

/-- The assertions of the queue and of the event queue that it schedules its event in. -/
inductive PacketQueueFault where
  | whenPast
  | expressSnoop
  | beyond100
  | notReady
  | notWaiting
  | sendWhileWaiting
  | eventWhileWaiting
  | scheduledTwice
  deriving DecidableEq

/-- The queue, its send event with the tick it is scheduled for, and whether a retry is due. -/
structure PacketQueue (Pkt : Type) where
  transmitList : List (DeferredPacket Pkt) := []
  sendEvent : Option Nat := none
  waitingOnRetry : Bool := false
  /-- Someone waits to be told that the queue is drained. -/
  drainManager : Bool := false

namespace PacketQueue

variable {Pkt : Type}

/-- The send event is scheduled, as the event queue allows. -/
def schedule (q : PacketQueue Pkt) (curTick when : Nat) :
    Except PacketQueueFault (PacketQueue Pkt) :=
  if when < curTick then .error .whenPast
  else if q.sendEvent.isSome then .error .scheduledTwice
  else .ok { q with sendEvent := some when }

/-- The send event is moved to another tick. -/
def reschedule (q : PacketQueue Pkt) (curTick when : Nat) :
    Except PacketQueueFault (PacketQueue Pkt) :=
  if when < curTick then .error .whenPast
  else .ok { q with sendEvent := some when }

/-- The send event is scheduled no later than asked for, unless a retry is due. -/
def schedSendEvent (q : PacketQueue Pkt) (curTick when : Nat) :
    Except PacketQueueFault (PacketQueue Pkt) :=
  if q.waitingOnRetry then
    if q.sendEvent.isSome then .error .eventWhileWaiting else .ok q
  else match q.sendEvent with
  | none => q.schedule curTick when
  | some scheduled => if scheduled > when then q.reschedule curTick when else .ok q

/-- A packet joins the list behind all that are ready no later. -/
def schedSendTiming (isExpressSnoop : Pkt → Bool) (q : PacketQueue Pkt) (curTick : Nat)
    (pkt : Pkt) (when : Nat) (send_as_snoop : Bool) :
    Except PacketQueueFault (PacketQueue Pkt) :=
  let dp : DeferredPacket Pkt := { tick := when, pkt, sendAsSnoop := send_as_snoop }
  if when < curTick then .error .whenPast
  else if isExpressSnoop pkt then .error .expressSnoop
  else if q.transmitList.length > 100 then .error .beyond100
  else match q.transmitList with
  | [] => { q with transmitList := [dp] }.schedSendEvent curTick when
  | front :: rest =>
    if when < front.tick then
      { q with transmitList := dp :: front :: rest }.schedSendEvent curTick when
    else if ((front :: rest).getLast?.all fun back => decide (back.tick ≤ when)) then
      .ok { q with transmitList := front :: rest ++ [dp] }
    else
      let earlier := fun i : DeferredPacket Pkt => decide (i.tick ≤ when)
      .ok { q with transmitList :=
        front :: (rest.takeWhile earlier ++ dp :: rest.dropWhile earlier) }

/-- Is there a packet that may be sent? -/
def deferredPacketReady (q : PacketQueue Pkt) (curTick : Nat) : Bool :=
  q.transmitList.head?.any fun front => decide (front.tick ≤ curTick)

/-- When the first packet may be sent. -/
def deferredPacketReadyTime (q : PacketQueue Pkt) : Nat :=
  (q.transmitList.head?.map (·.tick)).getD MaxTick

/-- The first packet is sent, and the peer accepts or refuses it. -/
def trySendTiming (q : PacketQueue Pkt) (curTick : Nat) (accepts : Bool) :
    Except PacketQueueFault (PacketQueue Pkt) :=
  match q.transmitList with
  | [] => .error .notReady
  | dp :: rest =>
    if ¬q.deferredPacketReady curTick then .error .notReady
    else if accepts then .ok { q with transmitList := rest, waitingOnRetry := false }
    else if q.sendEvent.isSome then .error .eventWhileWaiting
    -- A packet that is refused goes back to the front.
    else .ok { q with transmitList := dp :: rest, waitingOnRetry := true }

/-- The next send is scheduled, or the queue may be drained. -/
def scheduleSend (q : PacketQueue Pkt) (curTick time : Nat) :
    Except PacketQueueFault (PacketQueue Pkt) :=
  let nextReady := min q.deferredPacketReadyTime time
  if nextReady ≠ MaxTick then
    if q.sendEvent.isNone then q.schedule curTick (max nextReady ((curTick + 1) % 2 ^ 64))
    else .ok q
  else if q.drainManager && q.transmitList.isEmpty && q.sendEvent.isNone then
    .ok { q with drainManager := false }
  else .ok q

/-- The first packet is sent and, if it is accepted, the next send is scheduled. -/
def sendDeferredPacket (q : PacketQueue Pkt) (curTick : Nat) (accepts : Bool) :
    Except PacketQueueFault (PacketQueue Pkt) := do
  let q ← q.trySendTiming curTick accepts
  if q.waitingOnRetry then pure q else q.scheduleSend curTick MaxTick

/-- What the send event does. -/
def processSendEvent (q : PacketQueue Pkt) (curTick : Nat) (accepts : Bool) :
    Except PacketQueueFault (PacketQueue Pkt) :=
  if q.waitingOnRetry then .error .sendWhileWaiting else q.sendDeferredPacket curTick accepts

/-- What a retry from the peer does. -/
def retry (q : PacketQueue Pkt) (curTick : Nat) (accepts : Bool) :
    Except PacketQueueFault (PacketQueue Pkt) :=
  if ¬q.waitingOnRetry then .error .notWaiting else q.sendDeferredPacket curTick accepts

/-- Someone asks to be told when the queue is drained, unless it is. -/
def drain (q : PacketQueue Pkt) : PacketQueue Pkt :=
  if q.transmitList.isEmpty && q.sendEvent.isNone then q else { q with drainManager := true }

end PacketQueue

end GemDroid
