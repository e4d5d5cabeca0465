import GemDroid.Mem.Bridge

/-! A layer of a bus, which ports occupy one after the other on their way to a destination. -/

namespace GemDroid

/-- What the layers of a bus have in common; its clock has edges one period apart. -/
structure BusTiming where
  headerCycles : Nat
  width : Nat
  clock : ClockEdges
  clockPeriod : (curTick : Nat) → Nat
  running : ∀ curTick, 0 < clockPeriod curTick
  edges : ∀ curTick cycles,
    clock.clockEdge curTick cycles = clock.clockEdge curTick 0 + clockPeriod curTick * cycles

namespace BusTiming

/-- A bus whose clock has had one period from the start. -/
def ofPeriod (headerCycles width period : Nat) (positive : 0 < period) : BusTiming where
  headerCycles := headerCycles
  width := width
  clock := .ofPeriod period positive
  clockPeriod _ := period
  running _ := positive
  edges := ClockEdges.ofPeriod_edges period positive

/-- The delay of the last word that `calcPacketTiming` gives to a packet with that much data. -/
def busLastWordDelay (bus : BusTiming) (curTick : Nat) (data : Option Nat) : Nat :=
  let offset := bus.clock.clockEdge curTick 0 - curTick
  let dataCycles :=
    match data with
    | some size => (size + bus.width - 1) / bus.width
    | none => 0
  (bus.headerCycles + dataCycles) * bus.clockPeriod curTick + offset

/-- When the bus is done with a packet. -/
def packetFinishTime (bus : BusTiming) (curTick : Nat) (data : Option Nat) : Nat :=
  bus.busLastWordDelay curTick data + curTick

end BusTiming

/-- What a layer does: it is free, occupied, or telling a port to retry. -/
inductive LayerState where
  | idle
  | busy
  | retry
  deriving DecidableEq

/-- The assertions that a layer can fail. -/
inductive LayerFault where
  | notBusy
  | untilZero
  | waitingAlready
  | peerWaits
  | releaseScheduled
  | nobodyWaits
  | notIdle
  | portRetries
  | noPeerWaits
  | whenPast
  | scheduledTwice
  /-- The world would do something that it cannot do. -/
  | notPossible
  deriving DecidableEq

/-- A layer of a bus. -/
structure Layer (Port : Type) where
  state : LayerState := .idle
  waitingForLayer : List Port := []
  retryingPort : Option Port := none
  waitingForPeer : Option Port := none
  releaseEvent : Option Nat := none

namespace Layer

variable {Port : Type}

/-- Keeps the layer busy for a while. -/
def occupyLayer (layer : Layer Port) (curTick busyUntil : Nat) : Except LayerFault (Layer Port) :=
  if layer.state ≠ .busy then .error .notBusy
  else if busyUntil = 0 then .error .untilZero
  else if busyUntil < curTick then .error .whenPast
  else if layer.releaseEvent.isSome then .error .scheduledTwice
  else .ok { layer with releaseEvent := some busyUntil }

/-- Takes a port onto the layer if that is free, and else lets the port wait. -/
def tryTiming [DecidableEq Port] (layer : Layer Port) (srcPort : Port) :
    Except LayerFault (Layer Port × Bool) :=
  if layer.state = .busy ∨ layer.waitingForPeer.isSome then
    if srcPort ∈ layer.waitingForLayer then .error .waitingAlready
    else .ok ({ layer with waitingForLayer := layer.waitingForLayer ++ [srcPort] }, false)
  else .ok ({ layer with state := .busy, retryingPort := none }, true)

/-- The destination accepted the packet. -/
def succeededTiming (layer : Layer Port) (curTick busyTime : Nat) :
    Except LayerFault (Layer Port) :=
  if layer.state ≠ .busy then .error .notBusy
  else layer.occupyLayer curTick busyTime

/-- The destination refused the packet. -/
def failedTiming (layer : Layer Port) (curTick : Nat) (srcPort : Port) (busyTime : Nat) :
    Except LayerFault (Layer Port) :=
  if layer.waitingForPeer.isSome then .error .peerWaits
  else
    let layer := { layer with waitingForPeer := some srcPort }
    if layer.state ≠ .busy then .error .notBusy
    else layer.occupyLayer curTick busyTime

/-- The part of `retryWaiting` up to the retry: the port that is told. -/
def retryFront (layer : Layer Port) : Except LayerFault (Layer Port × Port) :=
  match layer.waitingForLayer with
  | [] => .error .nobodyWaits
  | port :: ports =>
    if layer.state ≠ .idle then .error .notIdle
    else if layer.retryingPort.isSome then .error .portRetries
    else
      let layer :=
        { layer with state := .retry, waitingForLayer := ports, retryingPort := some port }
      .ok (layer, port)

/-- The part of `retryWaiting` after the retry: a cycle passes if the port did not call. -/
def retryDone (layer : Layer Port) (bus : BusTiming) (curTick : Nat) :
    Except LayerFault (Layer Port) :=
  if layer.state = .retry then
    let layer := { layer with state := .busy, retryingPort := none }
    layer.occupyLayer curTick (bus.clock.clockEdge curTick 1)
  else .ok layer

/-- The part of `releaseLayer` up to `retryWaiting`: is somebody told to retry? -/
def releaseLayer (layer : Layer Port) : Except LayerFault (Layer Port × Bool) :=
  if layer.state ≠ .busy then .error .notBusy
  else if layer.releaseEvent.isSome then .error .releaseScheduled
  else .ok ({ layer with state := .idle }, !layer.waitingForLayer.isEmpty)

/-- The part of `recvRetry` up to `retryWaiting`: is the port that waited told to retry? -/
def recvRetry (layer : Layer Port) : Except LayerFault (Layer Port × Bool) :=
  match layer.waitingForPeer with
  | none => .error .noPeerWaits
  | some port =>
    let layer :=
      { layer with waitingForLayer := port :: layer.waitingForLayer, waitingForPeer := none }
    if layer.state = .idle then .ok (layer, true)
    else if layer.state ≠ .busy then .error .notBusy
    else .ok (layer, false)

end Layer

end GemDroid
