import GemDroid.Mem.DramDevice

/-! The DRAM controller: its queues, its event handlers, and the system around it. -/

namespace GemDroid

/-- The direction of the data bus, and its turns (`BusState`). -/
inductive BusState
  | read
  | readToWrite
  | write
  | writeToRead
  deriving DecidableEq, Repr

/-- How far a refresh has come (`RefreshState`). -/
inductive RefreshState
  | idle
  | drain
  | pre
  | run
  deriving DecidableEq, Repr

/-- The power states that are entered (`PowerState`). -/
inductive PowerState
  | idle
  | ref
  | act
  deriving DecidableEq, Repr

/-- The counter for the bursts of a split packet (`BurstHelper`). -/
structure BurstHelper where
  burstCount : Nat
  burstsServiced : Nat
  deriving DecidableEq, Repr

/-- An event of the rest of the system, to be scheduled. -/
structure Reply where
  id : Nat
  priority : Int
  when : Nat
  deriving DecidableEq, Repr

/-- The queues of the controller, and what has become of the packets so far. -/
structure DramQueues where
  readQueue : List DramPacket
  writeQueue : List DramPacket
  respQueue : List DramPacket
  helpers : Nat → BurstHelper
  /-- The number of packets accepted, which gives the next one its own number. -/
  accepted : Nat
  /-- The packets answered, the latest first (`accessAndRespond`). -/
  answered : List Nat
  /-- The bursts of reads that were found among the writes or done by the DRAM. -/
  served : List (Nat × Burst)

/-- The state of the refreshes and of the power of the DRAM. -/
structure DramRefresh where
  refreshDueAt : Nat
  refreshState : RefreshState
  pwrState : PowerState
  pwrStateTrans : PowerState

/-- The DRAM controller (`DRAMCtrl`). -/
structure DramCtrl extends DramDevice, DramQueues, DramRefresh where
  retryRdReq : Bool
  retryWrReq : Bool
  busState : BusState
  writesThisTime : Nat

namespace DramQueues

variable (config : DramConfig)

/-- Whether some reads do not fit (`readQueueFull`). -/
def readQueueFull (neededEntries : Nat) (q : DramQueues) : Bool :=
  decide (config.readBufferSize < q.readQueue.length + q.respQueue.length + neededEntries)

/-- Whether some writes do not fit (`writeQueueFull`). -/
def writeQueueFull (neededEntries : Nat) (q : DramQueues) : Bool :=
  decide (config.writeBufferSize < q.writeQueue.length + neededEntries)

/-- Take a burst of a read, from the writes or into the read queue (in `addToReadQueue`). -/
def addReadBurst (curTick : Nat) (helper : Option Nat) (state : DramQueues × Nat)
    (burst : Burst) : Except DramFault (DramQueues × Nat) :=
  let (q, pktsServicedByWrQ) := state
  if q.writeQueue.any fun w => w.subsumes burst then
    .ok ({ q with served := (q.accepted, burst) :: q.served }, pktsServicedByWrQ + 1)
  else if readQueueFull config 1 q then .error .readQueueFull
  else
    .ok ({ q with readQueue := q.readQueue ++
      [config.dramPacket curTick q.accepted true helper burst] }, pktsServicedByWrQ)

/-- Let the bursts of a split packet share a counter (in `addToReadQueue`). -/
def setHelper (helper : Option Nat) (counter : BurstHelper) (q : DramQueues) : DramQueues :=
  match helper with
  | none => q
  | some helper => { q with helpers := Function.update q.helpers helper counter }

/-- Take a burst of a write, into one that is waiting or into the queue (in `addToWriteQueue`). -/
def addWriteBurst (curTick : Nat) (q : DramQueues) (burst : Burst) :
    Except DramFault DramQueues :=
  match mergeWrite config.burstSize burst q.writeQueue with
  | some writeQueue => .ok { q with writeQueue }
  | none =>
    if config.writeBufferSize ≤ q.writeQueue.length then .error .writeQueueFull
    else
      .ok { q with writeQueue := q.writeQueue ++
        [config.dramPacket curTick q.accepted false none burst] }

/-- Give the next packet its own number. -/
def accept (q : DramQueues) : DramQueues :=
  { q with accepted := q.accepted + 1 }

/-- Count a burst of a packet as served. -/
def serve (dram_pkt : DramPacket) (q : DramQueues) : DramQueues :=
  { q with served := (dram_pkt.pkt, dram_pkt.toBurst) :: q.served }

end DramQueues

namespace DramCtrl

variable (config : DramConfig)

/-- Change the device under the controller. -/
def onDevice (f : DramDevice → Except DramFault DramDevice) (s : DramCtrl) :
    Except DramFault DramCtrl := do
  return { s with toDramDevice := ← f s.toDramDevice }

/-- Schedule events of the rest of the system. -/
def scheduleReplies (replies : List Reply) (s : DramCtrl) : Except DramFault DramCtrl :=
  s.onDevice fun d =>
    replies.foldlM (fun d reply => d.schedule (.external reply.id reply.priority) reply.when) d

/-- Answer a packet; the port schedules its own events for it (`accessAndRespond`). -/
def accessAndRespond (pkt : Nat) (replies : List Reply) (s : DramCtrl) :
    Except DramFault DramCtrl :=
  scheduleReplies replies { s with answered := pkt :: s.answered }

/-- Schedule the request loop, unless it is (at the end of `addToReadQueue`). -/
def scheduleNextReq (s : DramCtrl) : Except DramFault DramCtrl :=
  if s.scheduled .nextReq then .ok s else s.onDevice (·.schedule .nextReq s.curTick)

/-- Take a read, burst by burst (`addToReadQueue`). -/
def addToReadQueue (pkt : Packet) (replies : List Reply) (s : DramCtrl) :
    Except DramFault DramCtrl := do
  let pktCount := config.pktCount pkt.addr.toNat pkt.size
  let helper := if 1 < pktCount then some s.accepted else none
  let (queues, pktsServicedByWrQ) ← (config.bursts pkt.addr.toNat pkt.size).foldlM
    (DramQueues.addReadBurst config s.curTick helper) (s.toDramQueues, 0)
  -- If all bursts are found among the writes, the packet is answered at once.
  if pktsServicedByWrQ = pktCount then
    accessAndRespond s.accepted replies { s with toDramQueues := queues.accept }
  else
    scheduleNextReq { s with
      toDramQueues := (queues.setHelper helper ⟨pktCount, pktsServicedByWrQ⟩).accept }

/-- Take a write, burst by burst, and answer it (`addToWriteQueue`). -/
def addToWriteQueue (pkt : Packet) (replies : List Reply) (s : DramCtrl) :
    Except DramFault DramCtrl := do
  let queues ← (config.bursts pkt.addr.toNat pkt.size).foldlM
    (DramQueues.addWriteBurst config s.curTick) s.toDramQueues
  let s ← accessAndRespond s.accepted replies { s with toDramQueues := queues.accept }
  scheduleNextReq s

/-- A packet comes in (`recvTimingReq`). -/
def recvTimingReq (pkt : Packet) (replies : List Reply) (s : DramCtrl) :
    Except DramFault DramCtrl :=
  let dram_pkt_count := config.pktCount pkt.addr.toNat pkt.size
  -- Packets that another cache answers are dropped.
  if pkt.memInhibit then .ok s
  else if pkt.cmd.isRead then
    if pkt.size = 0 then .error .emptyPacket
    else if s.readQueueFull config dram_pkt_count then .ok { s with retryRdReq := true }
    else if pkt.cmd.isWrite then .error .readIsWrite
    else if dram_pkt_count = 0 then .error .noBurst
    else addToReadQueue config pkt replies s
  else if pkt.cmd.isWrite then
    if pkt.size = 0 then .error .emptyPacket
    else if s.writeQueueFull config dram_pkt_count then .ok { s with retryWrReq := true }
    else addToWriteQueue config pkt replies s
  else accessAndRespond s.accepted replies { s with toDramQueues := s.toDramQueues.accept }

/-- Answer the packet of a burst once it is complete (in `processRespondEvent`). -/
def finishBurst (dram_pkt : DramPacket) (replies : List Reply) (s : DramCtrl) :
    Except DramFault DramCtrl :=
  let s := { s with toDramQueues := s.toDramQueues.serve dram_pkt }
  match dram_pkt.burstHelper with
  | none => accessAndRespond dram_pkt.pkt replies s
  | some helper =>
    let counter := s.helpers helper
    let counter := { counter with burstsServiced := counter.burstsServiced + 1 }
    let s := { s with helpers := Function.update s.helpers helper counter }
    if counter.burstsServiced = counter.burstCount then accessAndRespond dram_pkt.pkt replies s
    else .ok s

/-- Schedule the response event for the first response (in `processRespondEvent`). -/
def scheduleRespond (s : DramCtrl) : Except DramFault DramCtrl :=
  match s.respQueue with
  | [] => .ok s
  | first :: _ =>
    if first.readyTime < s.curTick then .error .readyInPast
    else if s.scheduled .respond then .error .respondScheduled
    else s.onDevice (·.schedule .respond first.readyTime)

/-- A burst has reached its ready time; says whether the port is to retry
(`processRespondEvent`). -/
def processRespondEvent (replies : List Reply) (s : DramCtrl) :
    Except DramFault (DramCtrl × Bool) :=
  match s.respQueue with
  | [] => .error .noResponse
  | dram_pkt :: rest => do
    let s ← finishBurst dram_pkt replies s
    let s ← scheduleRespond { s with respQueue := rest }
    return ({ s with retryRdReq := false }, s.retryRdReq)

/-- Schedule a change of the power state (`schedulePowerEvent`). -/
def schedulePowerEvent (pwr_state : PowerState) (tick : Nat) (s : DramCtrl) :
    Except DramFault DramCtrl :=
  if s.scheduled .power then .error .powerScheduled
  else { s with pwrStateTrans := pwr_state }.onDevice (·.schedule .power tick)

/-- A bank is activated now (`processActivateEvent`). -/
def processActivateEvent (s : DramCtrl) : Except DramFault DramCtrl :=
  if s.pwrState ≠ .act then schedulePowerEvent .act s.curTick s else .ok s

/-- The last precharge is done now (`processPrechargeEvent`). -/
def processPrechargeEvent (s : DramCtrl) : Except DramFault DramCtrl :=
  if s.numBanksActive = 0 then schedulePowerEvent .idle s.curTick s else .ok s

/-- The tick at which all banks can be precharged (in `processRefreshEvent`). -/
def preAt (s : DramCtrl) : Nat :=
  (DramDevice.allBanks config).foldl
    (fun pre_at (rank, bank) => max (s.banks rank bank).preAllowedAt pre_at) s.curTick

/-- Precharge a bank, or hold it back for as long if it is (in `processRefreshEvent`). -/
def prechargeForRefresh (pre_at : Nat) (d : DramDevice) (place : Nat × Nat) :
    Except DramFault DramDevice :=
  let b := d.banks place.1 place.2
  if b.openRow.isSome then d.prechargeBank config place.1 place.2 pre_at
  else
    .ok (d.setBank place.1 place.2 { b with
      actAllowedAt := max b.actAllowedAt (pre_at + config.tRP)
      preAllowedAt := max b.preAllowedAt pre_at })

/-- Precharge all banks, or begin the refresh if they are (in `processRefreshEvent`). -/
def beginRefresh (s : DramCtrl) : Except DramFault DramCtrl :=
  if s.pwrState ≠ .idle then
    s.onDevice fun d =>
      (DramDevice.allBanks config).foldlM (prechargeForRefresh config (s.preAt config)) d
  else schedulePowerEvent .ref s.curTick s

/-- All banks are precharged for a refresh (in `processRefreshEvent`). -/
def prepareRefresh (s : DramCtrl) : Except DramFault DramCtrl := do
  let s ← beginRefresh config s
  if s.numBanksActive ≠ 0 then .error .activeAtRefresh
  else .ok { s with refreshState := .run }

/-- Refresh (in `processRefreshEvent`). -/
def runRefresh (s : DramCtrl) : Except DramFault DramCtrl :=
  if s.numBanksActive ≠ 0 then .error .activeAtRefresh
  else if s.pwrState ≠ .ref then .error .notRefreshing
  else
    let ref_done_at := s.curTick + config.tRFC
    if s.refreshDueAt + config.tREFI < ref_done_at then .error .refreshTooLate
    else do
      let s := { s with banks := fun rank bank =>
        { s.banks rank bank with actAllowedAt := ref_done_at } }
      -- The next refresh makes up for the delay of this one.
      let s ← s.onDevice (·.schedule .refresh (s.refreshDueAt + config.tREFI - config.tRP))
      schedulePowerEvent .idle ref_done_at s

/-- Go on with a refresh (`processRefreshEvent`). -/
def processRefreshEvent (s : DramCtrl) : Except DramFault DramCtrl :=
  match s.refreshState with
  | .idle =>
    let s := { s with refreshDueAt := s.curTick }
    -- A request that is scheduled goes first.
    if s.scheduled .nextReq then .ok { s with refreshState := .drain }
    else prepareRefresh config { s with refreshState := .pre }
  | .drain =>
    if s.scheduled .nextReq then .ok s
    else prepareRefresh config { s with refreshState := .pre }
  | .pre => prepareRefresh config s
  | .run => runRefresh config s

/-- The power state changes (`processPowerEvent`). -/
def processPowerEvent (s : DramCtrl) : Except DramFault DramCtrl :=
  let prev_state := s.pwrState
  let s := { s with pwrState := s.pwrStateTrans }
  match s.pwrState with
  | .act => .ok s
  | .ref =>
    if s.refreshState ≠ .run then .error .refreshNotRunning else processRefreshEvent config s
  | .idle =>
    match prev_state with
    | .ref =>
      let s := { s with refreshState := .idle }
      if s.scheduled .nextReq then .error .requestsAtRefresh
      else s.onDevice (·.schedule .nextReq s.curTick)
    | .act =>
      if s.refreshState = .run then
        if s.scheduled .power then .error .powerScheduled
        else processRefreshEvent config { s with pwrState := .ref }
      else .ok s
    | .idle => .error .idleFromIdle

/-- Turn the bus around if that was decided (at the start of `processNextReqEvent`). -/
def turnBus (s : DramCtrl) : DramCtrl :=
  match s.busState with
  | .readToWrite => { s with busState := .write }
  | .writeToRead => { s with busState := .read, writesThisTime := 0 }
  | _ => s

/-- Leave the loop to a refresh that waits for it (in `processNextReqEvent`). -/
def handOver (s : DramCtrl) : Except DramFault DramCtrl :=
  if s.refreshState = .drain then
    { s with refreshState := .pre }.onDevice (·.schedule .refresh s.curTick)
  else .ok s

/-- See to the response event for a new response (in `processNextReqEvent`). -/
def respondFor (readyTime : Nat) (s : DramCtrl) : Except DramFault DramCtrl :=
  match s.respQueue.getLast? with
  | none =>
    if s.scheduled .respond then .error .respondScheduled
    else s.onDevice (·.schedule .respond readyTime)
  | some back =>
    if readyTime < back.readyTime then .error .respOrder
    else if !s.scheduled .respond then .error .respondScheduled
    else .ok s

/-- Keep a response until it is ready (in `processNextReqEvent`). -/
def addResponse (dram_pkt : DramPacket) (s : DramCtrl) : Except DramFault DramCtrl := do
  let s ← respondFor dram_pkt.readyTime s
  return { s with respQueue := s.respQueue ++ [dram_pkt] }

/-- Serve the next read (in `processNextReqEvent`). -/
def serveRead (s : DramCtrl) : Except DramFault DramCtrl := do
  let (dram_pkt, others) ← s.chooseNext config s.readQueue
  let (readyTime, device) ← s.doDRAMAccess config dram_pkt others
  let s := { s with toDramDevice := device, readQueue := others }
  if config.burstSize < dram_pkt.size then .error .oversized
  else if readyTime < s.curTick then .error .readyInPast
  else addResponse { dram_pkt with readyTime } s

/-- Turn to the writes after a bubble on the bus (in `processNextReqEvent`). -/
def switchToWrites (s : DramCtrl) : DramCtrl :=
  let busBusyUntil := s.busBusyUntil + config.tRTW
  { s with
    busState := .readToWrite
    busBusyUntil
    nextReqTime := busBusyUntil - (config.tRP + config.tRCD + config.tCL) }

/-- Turn to the reads after a bubble on the bus (in `processNextReqEvent`). -/
def switchToReads (s : DramCtrl) : DramCtrl :=
  let busBusyUntil := s.busBusyUntil + (config.tWTR + config.tCL)
  { s with
    busState := .writeToRead
    busBusyUntil
    nextReqTime := busBusyUntil - (config.tRP + config.tRCD + config.tCL) }

/-- Serve the next write (in `processNextReqEvent`). -/
def serveWrite (s : DramCtrl) : Except DramFault DramCtrl := do
  let (dram_pkt, others) ← s.chooseNext config s.writeQueue
  if config.burstSize < dram_pkt.size then .error .oversized
  else do
    let (_, device) ← s.doDRAMAccess config dram_pkt others
    let s := { s with
      toDramDevice := device
      writeQueue := others
      writesThisTime := s.writesThisTime + 1 }
    if s.writeQueue.isEmpty ||
        decide (s.writeQueue.length + config.minWritesPerSwitch < config.writeLowThreshold) ||
        (!s.readQueue.isEmpty && decide (config.minWritesPerSwitch ≤ s.writesThisTime)) then
      .ok (switchToReads config s)
    else .ok s

/-- Come back for the next request; says whether the port is to retry (`processNextReqEvent`). -/
def comeBack (s : DramCtrl) : Except DramFault (DramCtrl × Bool) := do
  let s ← s.onDevice (·.schedule .nextReq (max s.nextReqTime s.curTick))
  if s.retryWrReq && decide (s.writeQueue.length < config.writeBufferSize) then
    .ok ({ s with retryWrReq := false }, true)
  else .ok (s, false)

/-- Serve a read or a write, or turn the bus around; says whether the port is to retry
(`processNextReqEvent`). -/
def processNextReqEvent (s : DramCtrl) : Except DramFault (DramCtrl × Bool) :=
  let s := turnBus s
  if s.refreshState ≠ .idle then do return (← handOver s, false)
  else if s.busState = .read then
    if s.readQueue.isEmpty then
      if config.writeLowThreshold < s.writeQueue.length then
        comeBack config (switchToWrites config s)
      else .ok (s, false)
    else do
      let s ← serveRead config s
      if config.writeHighThreshold < s.writeQueue.length then
        comeBack config (switchToWrites config s)
      else comeBack config s
  else do
    let s ← serveWrite config s
    comeBack config s

/-- What the rest of the system does when it has control. -/
inductive Outside
  /-- It sends a packet, whose answer may make its port schedule events. -/
  | request (pkt : Packet) (replies : List Reply)
  | schedule (reply : Reply)
  | deschedule (id : Nat) (priority : Int)

/-- The rest of the system does something. -/
def act (s : DramCtrl) : Outside → Except DramFault DramCtrl
  | .request pkt replies => recvTimingReq config pkt replies s
  | .schedule reply => scheduleReplies [reply] s
  | .deschedule id priority =>
    match s.agenda.step DramEvent.priority (.deschedule (.external id priority)) with
    | .ok (agenda, _) => .ok { s with agenda }
    | .error fault => .error (.event fault)

/-- Handle an event; says whether the rest of the system gets control. -/
def handle (event : DramEvent) (replies : List Reply) (s : DramCtrl) :
    Except DramFault (DramCtrl × Bool) :=
  match event with
  | .nextReq => processNextReqEvent config s
  | .respond => processRespondEvent replies s
  | .activate => do return (← processActivateEvent s, false)
  | .precharge => do return (← processPrechargeEvent s, false)
  | .refresh => do return (← processRefreshEvent config s, false)
  | .power => do return (← processPowerEvent config s, false)
  | .external _ _ => .ok (s, true)

/-- Take the first event off the queue. -/
def nextEvent (s : DramCtrl) : Except DramFault (DramEvent × DramCtrl) :=
  match s.agenda.events, s.agenda.step DramEvent.priority .serviceOne with
  | event :: _, .ok (agenda, _) => .ok (event, { s with agenda })
  | _, .error fault => .error (.event fault)
  | [], .ok _ => .error (.event .emptyQueue)

/-- The controller before its startup, at some tick. -/
def fresh (tick : Nat) : DramCtrl :=
  { banks := fun _ _ => ⟨none, 0, 0, 0, 0⟩
    actTicks := fun _ => List.replicate config.activationLimit 0
    numBanksActive := 0
    busBusyUntil := tick + config.tRP + config.tRCD + config.tCL
    nextReqTime := 0
    agenda := { events := [], curTick := tick, when := fun _ => 0, squashed := fun _ => false }
    commands := []
    readQueue := [], writeQueue := [], respQueue := []
    helpers := fun _ => ⟨0, 0⟩
    retryRdReq := false, retryWrReq := false
    busState := .read, writesThisTime := 0
    refreshDueAt := 0, refreshState := .idle, pwrState := .idle, pwrStateTrans := .idle
    accepted := 0, answered := [], served := [] }

end DramCtrl

/-- The controller, and whether the rest of the system has control. -/
structure DramSystem where
  ctrl : DramCtrl
  control : Bool

/-- The next thing to happen in the system. -/
inductive DramOp
  /-- The next event is handled; the port may schedule events for an answer to a packet. -/
  | event (replies : List Reply)
  /-- The rest of the system, which has control, does something. -/
  | act (a : DramCtrl.Outside)

namespace DramSystem

variable (config : DramConfig)

/-- Handle the next event. -/
def event (replies : List Reply) (s : DramSystem) : Except DramFault DramSystem := do
  let (event, c) ← DramCtrl.nextEvent s.ctrl
  let (c, control) ← DramCtrl.handle config event replies c
  return ⟨c, control⟩

/-- Take one step; the rest of the system acts only while it has control. -/
def step (s : DramSystem) : DramOp → Except DramFault DramSystem
  | .event replies => event config replies s
  | .act a => if s.control then do return ⟨← DramCtrl.act config s.ctrl a, true⟩ else .ok s

/-- A step that may be the last one. -/
def next (s : DramSystem) (op : DramOp) : Option DramSystem :=
  (step config s op).toOption

/-- A system that starts at tick zero, with no other events. -/
def booted : DramSystem where
  ctrl :=
    { DramCtrl.fresh config 0 with
      agenda := (DramCtrl.fresh config 0).agenda.insert DramEvent.priority .refresh
        (0 + config.tREFI - config.tRP) }
  control := true

end DramSystem

end GemDroid
