import GemDroid.Mem.Dram

/-! The banks behind the DRAM controller, and the timing of the commands to them. -/

namespace GemDroid

/-- The events of the controller, and those of the rest of the system with their priority. -/
inductive DramEvent
  | nextReq
  | respond
  | activate
  | precharge
  | refresh
  | power
  | external (id : Nat) (priority : Int)
  deriving DecidableEq, Repr

/-- The events of the controller have the default priority. -/
def DramEvent.priority : DramEvent → Int
  | .external _ priority => priority
  | _ => 0

/-- What stops the simulation in the controller. -/
inductive DramFault
  | event (fault : Misuse)
  /-- A write is added as a read (`assert(!pkt->isWrite())`). -/
  | readIsWrite
  /-- A packet has no bytes (`assert(size != 0)`). -/
  | emptyPacket
  /-- A packet has no burst (`assert(pktCount != 0)`). -/
  | noBurst
  /-- A read finds no place (`assert(!readQueueFull(1))`). -/
  | readQueueFull
  /-- A write finds no place (`assert(writeQueue.size() < writeBufferSize)`). -/
  | writeQueueFull
  /-- There is no request to choose from (`assert(!queue.empty())`). -/
  | nothingQueued
  /-- A row is opened while there is one open (`assert(openRow == NO_ROW)`). -/
  | rowOpen
  /-- A row is closed while there is none open (`assert(openRow != NO_ROW)`). -/
  | noRowOpen
  /-- There are more banks active than banks. -/
  | tooManyActive
  /-- No bank is active when one is precharged (`assert(numBanksActive != 0)`). -/
  | noneActive
  /-- There are too many activates in a window (`panic` of `activateBank`). -/
  | tooManyActivates
  /-- Two bursts use the bus at a time (`assert(readyTime - busBusyUntil >= tBURST)`). -/
  | busOverlap
  /-- A queue entry is larger than a burst (`assert(dram_pkt->size <= burstSize)`). -/
  | oversized
  /-- A response is ready in the past (`assert(readyTime >= curTick())`). -/
  | readyInPast
  /-- The response event is scheduled, or not, against the response queue. -/
  | respondScheduled
  /-- Responses are not ready in their order (`assert(respQueue.back()->readyTime <= ..)`). -/
  | respOrder
  /-- There is no response to be sent. -/
  | noResponse
  /-- Banks are active at a refresh (`assert(numBanksActive == 0)`). -/
  | activeAtRefresh
  /-- The power state is not the one of a refresh (`assert(pwrState == PWR_REF)`). -/
  | notRefreshing
  /-- A refresh has waited too long (`fatal` of `processRefreshEvent`). -/
  | refreshTooLate
  /-- A power event is scheduled while there is one. -/
  | powerScheduled
  /-- The idle state is entered from no other state (`assert(prev_state == PWR_ACT)`). -/
  | idleFromIdle
  /-- Requests are scheduled when a refresh ends (`assert(!nextReqEvent.scheduled())`). -/
  | requestsAtRefresh
  /-- A refresh is not under way in the state of one (`assert(refreshState == REF_RUN)`). -/
  | refreshNotRunning
  deriving DecidableEq, Repr

/-- A bank, with the ticks from which on commands are allowed (`Bank`). -/
structure Bank where
  openRow : Option Nat
  colAllowedAt : Nat
  preAllowedAt : Nat
  actAllowedAt : Nat
  rowAccesses : Nat
  deriving DecidableEq, Repr

/-- A command to a bank, or a burst on the data bus. -/
inductive DramCommand
  | activate (rank bank tick : Nat)
  | precharge (rank bank tick : Nat)
  | burst (readyTime : Nat)
  deriving DecidableEq, Repr

/-- The banks, the data bus and the event queue. -/
structure DramDevice where
  banks : Nat → Nat → Bank
  /-- The last activates of each rank, the latest first; zero stands for none. -/
  actTicks : Nat → List Nat
  numBanksActive : Nat
  busBusyUntil : Nat
  nextReqTime : Nat
  agenda : Agenda DramEvent
  /-- The commands so far, the latest first. -/
  commands : List DramCommand

namespace DramDevice

variable (config : DramConfig)

def curTick (d : DramDevice) : Nat :=
  d.agenda.curTick

def scheduled (event : DramEvent) (d : DramDevice) : Bool :=
  decide (event ∈ d.agenda.events)

/-- Schedule an event. -/
def schedule (event : DramEvent) (when : Nat) (d : DramDevice) : Except DramFault DramDevice :=
  match d.agenda.step DramEvent.priority (.schedule event when) with
  | .ok (agenda, _) => .ok { d with agenda }
  | .error fault => .error (.event fault)

/-- Schedule an event for another tick. -/
def reschedule (event : DramEvent) (when : Nat) (d : DramDevice) : Except DramFault DramDevice :=
  match d.agenda.step DramEvent.priority (.reschedule event when false) with
  | .ok (agenda, _) => .ok { d with agenda }
  | .error fault => .error (.event fault)

/-- Rewrite a bank. -/
def setBank (rank bank : Nat) (b : Bank) (d : DramDevice) : DramDevice :=
  { d with banks := Function.update d.banks rank (Function.update (d.banks rank) bank b) }

/-- Allow activates of a rank from a tick on. -/
def delayActivates (rank tick : Nat) (d : DramDevice) : DramDevice :=
  { d with banks := Function.update d.banks rank fun bank =>
      let b := d.banks rank bank
      { b with actAllowedAt := max tick b.actAllowedAt } }

/-- Make sure that an event comes at a tick at the latest (in `activateBank`). -/
def scheduleSooner (event : DramEvent) (tick : Nat) (d : DramDevice) :
    Except DramFault DramDevice :=
  if !d.scheduled event then d.schedule event tick
  else if tick < d.agenda.when event then d.reschedule event tick
  else .ok d

/-- Make sure that an event comes at a tick at the earliest (in `prechargeBank`). -/
def scheduleLater (event : DramEvent) (tick : Nat) (d : DramDevice) :
    Except DramFault DramDevice :=
  if !d.scheduled event then d.schedule event tick
  else if d.agenda.when event < tick then d.reschedule event tick
  else .ok d

/-- Two activates are too close for a window that starts with the first of them. -/
def inWindow (act_tick oldest : Nat) : Bool :=
  oldest != 0 && decide (oldest ≤ act_tick) && decide (act_tick - oldest < config.tXAW)

/-- Keep the activates of a rank apart by the window `tXAW` (in `activateBank`). -/
def enforceWindow (act_tick rank : Nat) (d : DramDevice) : Except DramFault DramDevice :=
  if inWindow config act_tick ((d.actTicks rank).getLastD 0) then .error .tooManyActivates
  else
    let ticks := act_tick :: (d.actTicks rank).dropLast
    let d := { d with actTicks := Function.update d.actTicks rank ticks }
    let oldest := ticks.getLastD 0
    .ok (if inWindow config act_tick oldest then d.delayActivates rank (oldest + config.tXAW)
      else d)

/-- Open a row (`activateBank`). -/
def activateBank (act_tick rank bank row : Nat) (d : DramDevice) :
    Except DramFault DramDevice :=
  let b := d.banks rank bank
  if b.openRow.isSome then .error .rowOpen
  else if config.banksPerRank * config.ranksPerChannel < d.numBanksActive + 1 then
    .error .tooManyActive
  else
    let d := { d with
      numBanksActive := d.numBanksActive + 1
      commands := .activate rank bank act_tick :: d.commands }
    let d := d.setBank rank bank { b with
      openRow := some row
      rowAccesses := 0
      preAllowedAt := act_tick + config.tRAS
      colAllowedAt := act_tick + config.tRCD }
    let d := d.delayActivates rank (act_tick + config.tRRD)
    -- Without an activation limit nothing else is done.
    if (d.actTicks rank).isEmpty then .ok d
    else do
      let d ← enforceWindow config act_tick rank d
      d.scheduleSooner .activate act_tick

/-- Close a row (`prechargeBank`). -/
def prechargeBank (rank bank pre_at : Nat) (d : DramDevice) : Except DramFault DramDevice :=
  let b := d.banks rank bank
  if b.openRow.isNone then .error .noRowOpen
  else if d.numBanksActive = 0 then .error .noneActive
  else
    let pre_done_at := pre_at + config.tRP
    let d := { d with
      numBanksActive := d.numBanksActive - 1
      commands := .precharge rank bank pre_at :: d.commands }
    let d := d.setBank rank bank { b with
      openRow := none
      preAllowedAt := pre_at
      actAllowedAt := max b.actAllowedAt pre_done_at }
    d.scheduleLater .precharge pre_done_at

/-- Close the row of a bank if there is one (in `doDRAMAccess`). -/
def closeRow (rank bank : Nat) (d : DramDevice) : Except DramFault DramDevice :=
  let b := d.banks rank bank
  if b.openRow.isSome then prechargeBank config rank bank (max b.preAllowedAt d.curTick) d
  else .ok d

/-- Make sure that the row of an access is open; says when its command may come. -/
def prepareRow (rank bank row : Nat) (d : DramDevice) : Except DramFault (Nat × DramDevice) :=
  let b := d.banks rank bank
  if b.openRow = some row then .ok (max b.colAllowedAt d.curTick, d)
  else do
    let d ← closeRow config rank bank d
    let act_tick := max (d.banks rank bank).actAllowedAt d.curTick
    let d ← activateBank config act_tick rank bank row d
    return ((d.banks rank bank).colAllowedAt, d)

/-- The other accesses that are waiting speak for closing the row now (in `doDRAMAccess`). -/
def closesRow (pkt : DramPacket) (others : List DramPacket) : Bool :=
  let sameBank (p : DramPacket) := p.rank == pkt.rank && p.bank == pkt.bank
  let got_more_hits := others.any fun p => sameBank p && p.row == pkt.row
  let got_bank_conflict := others.any fun p => sameBank p && p.row != pkt.row
  match config.pageMgmt with
  | .closeAdaptive => !got_more_hits
  | .openAdaptive => !got_more_hits && got_bank_conflict
  | _ => false

/-- Close the row after an access that asks for it (in `doDRAMAccess`). -/
def autoPrecharge (auto_precharge : Bool) (rank bank : Nat) (d : DramDevice) :
    Except DramFault DramDevice :=
  if auto_precharge then closeRow config rank bank d else .ok d

/-- Issue the command of an access to an open row; says when its data is ready. -/
def transfer (pkt : DramPacket) (others : List DramPacket) (cmd_at : Nat) (d : DramDevice) :
    Except DramFault (Nat × DramDevice) :=
  let cmd_at := max cmd_at (d.busBusyUntil - config.tCL)
  let readyTime := cmd_at + config.tCL + config.tBURST
  if readyTime < d.busBusyUntil + config.tBURST then .error .busOverlap
  else do
    let b := d.banks pkt.rank pkt.bank
    let b := { b with
      colAllowedAt := cmd_at + config.tBURST
      preAllowedAt := max b.preAllowedAt
        (if pkt.isRead then cmd_at + config.tRTP else readyTime + config.tWR)
      rowAccesses := b.rowAccesses + 1 }
    let auto_precharge := config.pageMgmt == .close ||
      b.rowAccesses == config.maxAccessesPerRow || closesRow config pkt others
    let d ← autoPrecharge config auto_precharge pkt.rank pkt.bank
      (d.setBank pkt.rank pkt.bank b)
    return (readyTime, { d with
      busBusyUntil := readyTime
      nextReqTime := readyTime - (config.tRP + config.tRCD + config.tCL)
      commands := .burst readyTime :: d.commands })

/-- Do an access; says when its data is ready (`doDRAMAccess`). -/
def doDRAMAccess (pkt : DramPacket) (others : List DramPacket) (d : DramDevice) :
    Except DramFault (Nat × DramDevice) := do
  let (cmd_at, d) ← prepareRow config pkt.rank pkt.bank pkt.row d
  transfer config pkt others cmd_at d

/-- The first tick at which a bank could be activated (in `minBankActAt`). -/
def actAt (rank bank : Nat) (d : DramDevice) : Nat :=
  let b := d.banks rank bank
  if b.openRow.isNone then b.actAllowedAt else max b.preAllowedAt d.curTick + config.tRP

/-- All banks, rank by rank. -/
def allBanks : List (Nat × Nat) :=
  (List.range config.ranksPerChannel).flatMap fun rank =>
    (List.range config.banksPerRank).map fun bank => (rank, bank)

/-- The banks with waiting accesses that can be activated first (`minBankActAt`). -/
def minBankActAt (queue : List DramPacket) (d : DramDevice) : List Nat :=
  let result := (allBanks config).foldl (fun (state : List Nat × Option Nat) (rank, bank) =>
    let bank_id := (rank * config.banksPerRank + bank) % 2 ^ 8
    if queue.any fun p => p.bankId == bank_id then
      let act_at := d.actAt config rank bank
      match state.2 with
      | none => ([bank_id], some act_at)
      | some min_act_at =>
        if act_at < min_act_at then ([bank_id], some act_at)
        else if act_at = min_act_at then (bank_id :: state.1, some act_at)
        else state
    else state) ([], none)
  result.1

/-- The position of the access to go first: a row hit, or one to an early bank. -/
def selectFrom (earliest_banks : List Nat) (d : DramDevice) :
    List DramPacket → Nat → Option Nat → Nat
  | [], _, selected => selected.getD 0
  | p :: queue, i, selected =>
    if (d.banks p.rank p.bank).openRow = some p.row then i
    else if selected.isNone && (decide (d.actAt config p.rank p.bank ≤ d.curTick) ||
        earliest_banks.contains p.bankId) then
      selectFrom earliest_banks d queue (i + 1) (some i)
    else selectFrom earliest_banks d queue (i + 1) selected

/-- Move the access to go first to the front (`reorderQueue`). -/
def reorderQueue (queue : List DramPacket) (d : DramDevice) : List DramPacket :=
  let i := selectFrom config (d.minBankActAt config queue) d queue 0 none
  match queue[i]? with
  | some selected => selected :: queue.eraseIdx i
  | none => queue

/-- Move the access to go next to the front of its queue (`chooseNext`). -/
def chooseNext (queue : List DramPacket) (d : DramDevice) :
    Except DramFault (DramPacket × List DramPacket) :=
  let chosen :=
    if queue.length = 1 then queue
    else
      match config.memSchedPolicy with
      | .fcfs => queue
      | .frfcfs => d.reorderQueue config queue
  match chosen with
  | [] => .error .nothingQueued
  | first :: others => .ok (first, others)

end DramDevice

end GemDroid
