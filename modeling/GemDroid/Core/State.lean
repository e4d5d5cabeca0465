import GemDroid.Dvfs.States
import GemDroid.Sa.Flows

/-! The state of a core, and the operations on its reorder buffer. -/

namespace GemDroid

/-- Most transactions the reorder buffer holds (`MAX_TRANSACTIONS`). -/
def maxTransactions : Int := 100

/-- Most instructions executed ahead of the head of the buffer (`ROB_SIZE`). -/
def robSize : Int := 32

/-- Core ticks a memory transaction may wait at the head (`DEADLOCK_PERIOD`). -/
def deadlockPeriod : Int := 100000

/-- Idle cycles after which an active core goes to low power. -/
def corePstateLowpowerEnterTime : Int := 200000

/-- Idle cycles after which a core in low power would go idle. -/
def corePstateIdleEnterTime : Int := 1128900

/-- Core ticks to wake from low power. -/
def corePstateLowpowerExitTime : Int := 54600

/-- Core ticks to wake from idle. -/
def corePstateIdleExitTime : Int := 2634600

/-- Whether a core ever goes from low power to idle (`ENABLE_CORE_IDLE`). -/
def enableCoreIdle : Bool := false

/-- Platform ticks between two display frames (`FPS_TICKS`). -/
def fpsTicks : Rat := gemdroidFreq * 1000 * 1000 * 1000 / 60

/-- Platform ticks between two audio frames (`AUD_FPS_TICKS`). -/
def audFpsTicks : Rat := gemdroidFreq * 1000 * 1000 * 1000 / 60

/-- The power states of a core (`CPU_PSTATE`). -/
inductive CpuPstate
  | active | lowPower | idle
  deriving DecidableEq, Repr

/-- What paces an application (`APP_TYPE`). -/
inductive AppType
  | coreBound | displayBound | videoPlayback | audioPlayback
  deriving DecidableEq, Repr

/-- The assertions of a core that can end a run. -/
inductive CoreFault
  /-- `commitHeadTransaction` finds a head that is not ready. -/
  | headNotReady
  /-- A transaction is read that the buffer does not hold. -/
  | robEmpty
  /-- The size counter falls below zero. -/
  | sizeBelowZero
  /-- The size counter exceeds `MAX_TRANSACTIONS`. -/
  | sizeAboveMax
  /-- `commit_instruction` finds no instruction left. -/
  | noInstructions
  /-- `isRead` is asked of compute instructions. -/
  | notMemory
  /-- A load or store of address 1 is built. -/
  | addrOne
  /-- `readLine` is called outside the active state. -/
  | notActive
  /-- The flow table has more entries for the core than the caller's array can hold. -/
  | flowOverflow
  /-- `setCoreFreq` is given a frequency outside the table. -/
  | freqNotInTable
  /-- The bound on the rounds of `process` is too small. -/
  | outOfFuel
  deriving DecidableEq, Repr

/-- The kinds of transactions (`INSTR_TYPE`). -/
inductive InstrType
  | cpu | mmuLd | mmuSt
  deriving DecidableEq, Repr

/--
An entry of the reorder buffer (`GemDroidOoOTransaction`).

The tag is no part of the source: it numbers the transactions in the order they are built.
-/
structure Transaction where
  transactionType : InstrType
  numberOfInstructions : Int
  instrExecutedOoo : Int
  addr : Addr
  canBeCommitted : Bool
  insertedTick : Int
  isIssued : Bool
  tag : Nat
  deriving DecidableEq, Repr

namespace Transaction

/-- The transaction is a load or a store. -/
def isMemory (t : Transaction) : Bool :=
  t.transactionType ≠ .cpu

/-- A new entry, with the assertions of its constructor. -/
def new (transactionType : InstrType) (numberOfInstructions : Int) (addr : Addr) (tag : Nat) :
    Except CoreFault Transaction :=
  -- The other assertions fix values that every caller passes: -1 here, no instructions there.
  if transactionType ≠ .cpu ∧ addr = 1 then .error .addrOne
  else .ok
    { transactionType, numberOfInstructions, instrExecutedOoo := 0, addr,
      canBeCommitted := false, insertedTick := -1, isIssued := false, tag }

/-- Whether a memory transaction reads (`isRead`). -/
def isRead (t : Transaction) : Except CoreFault Bool :=
  if t.transactionType = .cpu then .error .notMemory else .ok (t.transactionType = .mmuLd)

/-- Mark the whole transaction ready (`commit_transaction`). -/
def commitTransaction (t : Transaction) : Transaction :=
  { t with canBeCommitted := true }

/-- Execute one instruction (`commit_instruction`). -/
def commitInstruction (t : Transaction) : Except CoreFault Transaction :=
  if t.numberOfInstructions = 0 then .error .noInstructions
  else .ok
    { t with
      numberOfInstructions := t.numberOfInstructions - 1
      instrExecutedOoo := t.instrExecutedOoo + 1 }

/-- Forget the instructions executed so far (`reset_instr_committed`). -/
def resetInstrCommitted (t : Transaction) : Transaction :=
  { t with instrExecutedOoo := 0 }

/-- The agent took the transaction's request at a tick (`issueToMem`, `setInsertedTick`). -/
def issueToMem (ticks : Int) (t : Transaction) : Transaction :=
  { t with isIssued := true, insertedTick := ticks }

end Transaction

/-- A memory request of a core that the agent accepted, with the tag of its transaction. -/
structure CoreRequest where
  tag : Nat
  addr : Addr
  isRead : Bool
  deriving DecidableEq, Repr

/--
The reorder buffer of a core with its counters.

The fields from `insnsRead` on are a record and no part of the source: the instructions on the
CPU lines read, the loads and stores removed by a normal commit, the next tag, the requests that
are not answered yet and the tags of those that are.
-/
structure Rob where
  outstandingTransactions : List Transaction
  outstandingTransactionsSize : Int
  numberOfInstrExecutedOoO : Int
  deadlocksFaced : Int
  committedInsns : Int
  insnsRead : Int
  memCommits : Int
  nextTag : Nat
  inFlight : List CoreRequest
  answered : List Nat
  deriving DecidableEq, Repr

namespace Rob

/-- The buffer after construction. -/
def empty : Rob :=
  { outstandingTransactions := [], outstandingTransactionsSize := 0, numberOfInstrExecutedOoO := 0,
    deadlocksFaced := 0, committedInsns := 0, insnsRead := 0, memCommits := 0, nextTag := 0,
    inFlight := [], answered := [] }

/-- The transactions that a search visits: those below the size, at most `MAX_TRANSACTIONS`. -/
def scanned (r : Rob) : List Transaction :=
  -- Both searches loop up to the size counter, and never past `MAX_TRANSACTIONS` places.
  r.outstandingTransactions.take (min r.outstandingTransactionsSize maxTransactions).toNat

/-- The first transaction of an address that is not ready (`searchInROB`). -/
def searchInROB (addr : Addr) (r : Rob) : Int :=
  match r.scanned.findIdx? (fun t => t.addr = addr && !t.canBeCommitted) with
  | some i => i
  -- The two values tell an empty buffer from one without the address.
  | none => if r.outstandingTransactionsSize = 0 then -2 else -1

/-- Put a changed transaction back in its place. -/
def setTransaction (i : Nat) (t : Transaction) (r : Rob) : Rob :=
  { r with outstandingTransactions := r.outstandingTransactions.set i t }

/-- Mark the first transaction of an address ready (`markTransactionCompleted`). -/
def markTransactionCompleted (addr : Addr) (r : Rob) : Rob × Int :=
  -- The search asks neither for the kind nor for a request that was sent.
  match r.scanned.findIdx? (fun t => t.addr = addr) with
  | some i =>
    ({ r with outstandingTransactions :=
        r.outstandingTransactions.modify i Transaction.commitTransaction }, i)
  | none => (r, if r.outstandingTransactionsSize = 0 then -2 else -1)

/-- Remove the head (`commitHeadTransaction`). -/
def commitHeadTransaction (r : Rob) : Except CoreFault Rob :=
  match r.outstandingTransactions with
  | [] => .error .robEmpty
  | head :: rest =>
    if !head.canBeCommitted then .error .headNotReady
    -- The size is counted apart from the list it is the size of.
    else if r.outstandingTransactionsSize - 1 < 0 then .error .sizeBelowZero
    else .ok
      { r with
        outstandingTransactions := rest
        outstandingTransactionsSize := r.outstandingTransactionsSize - 1 }

/-- Count a committed instruction (`updateStatInstructionCommit`). -/
def updateStatInstructionCommit (r : Rob) : Rob :=
  { r with committedInsns := r.committedInsns + 1 }

/-- Remove a head that the memory has answered and count it. -/
def commitMemory (r : Rob) : Except CoreFault Rob := do
  let r ← r.commitHeadTransaction
  return { r.updateStatInstructionCommit with memCommits := r.memCommits + 1 }

/-- Remove a head of compute instructions that are all executed. -/
def commitEmpty (head : Transaction) (r : Rob) : Except CoreFault Rob :=
  -- Marking the head ready is what lets the removal pass its assertion.
  (r.setTransaction 0 head.commitTransaction).commitHeadTransaction

/-- Record that the agent took the request of the transaction at a place. -/
def issueToMem (i : Nat) (t : Transaction) (ticks : Int) (r : Rob) : Except CoreFault Rob := do
  let isRead ← t.isRead
  return { r.setTransaction i (t.issueToMem ticks) with
    inFlight := r.inFlight ++ [⟨t.tag, t.addr, isRead⟩] }

/-- Execute one instruction of the transaction at a place and count it. -/
def commitInstruction (i : Nat) (t : Transaction) (r : Rob) : Except CoreFault Rob := do
  let t ← t.commitInstruction
  return (r.setTransaction i t).updateStatInstructionCommit

/-- Append a transaction and check the size. -/
def pushTransaction (t : Transaction) (r : Rob) : Except CoreFault Rob :=
  if maxTransactions < r.outstandingTransactionsSize + 1 then .error .sizeAboveMax
  else .ok
    { r with
      outstandingTransactions := r.outstandingTransactions ++ [t]
      outstandingTransactionsSize := r.outstandingTransactionsSize + 1
      nextTag := r.nextTag + 1 }

/-- Append the instructions of a CPU line (`addInstructions`). -/
def addInstructions (insns : Int) (r : Rob) : Except CoreFault Rob := do
  -- Compute instructions hold the address with all bits set.
  let t ← Transaction.new .cpu insns (-1) r.nextTag
  let r ← r.pushTransaction t
  return { r with insnsRead := r.insnsRead + insns }

/-- Append a load or store unless one of its address waits already (`processMMURequest`). -/
def processMMURequest (isRead : Bool) (addr : Addr) (r : Rob) : Except CoreFault Rob :=
  let index := r.searchInROB addr
  -- One entry serves every load and store of an address while it waits.
  if index = -1 ∨ index = -2 then do
    let t ← Transaction.new (if isRead then .mmuLd else .mmuSt) 0 addr r.nextTag
    r.pushTransaction t
  else .ok r

/-- Force a head that waits too long for the memory out of the buffer (`checkDeadlock`). -/
def checkDeadlock (ticks : Int) (r : Rob) : Except CoreFault Rob :=
  if 0 < r.outstandingTransactionsSize then
    match r.outstandingTransactions with
    | [] => .error .robEmpty
    | head :: _ =>
      -- The request stays in flight, and its response may still come.
      if head.isMemory && head.isIssued && !head.canBeCommitted &&
          deadlockPeriod < ticks - head.insertedTick then do
        let r ← (r.setTransaction 0 head.commitTransaction).commitHeadTransaction
        return { r with deadlocksFaced := r.deadlocksFaced + 1 }
      else .ok r
  else .ok r

/-- The memory answers a request: the response carries the address only (`memCoreResponse`). -/
def memCoreResponse (request : CoreRequest) (r : Rob) : Rob × Bool :=
  let (marked, isSuccess) := r.markTransactionCompleted request.addr
  ({ marked with
      inFlight := r.inFlight.erase request
      answered := r.answered ++ [request.tag] },
    isSuccess ≠ -1 && isSuccess ≠ -2)

end Rob

/-- The buffer with the stall counters that its issue loops keep. -/
structure Pipeline where
  rob : Rob
  idleCycles : Int
  idleStreak : Int
  thisFrameRobFullStalls : Int
  thisFrameMemFullStalls : Int
  deriving DecidableEq, Repr

/-- A word of a trace that starts the line of an IP call. -/
inductive IpOp
  | fbUp | nw | sndIn | sndOut | cam | other
  deriving DecidableEq, Repr

/-- A word of a trace: the start of a line, or a number in the base that its place calls for. -/
inductive Word
  | cpu | mmuLd | mmuSt | cpuSummary | endOfTrace
  | ip (op : IpOp)
  | num (value : Int)
  deriving DecidableEq, Repr

/-- What a core is built with. -/
structure CoreConfig where
  coreId : Int
  issueWidth : Nat
  inOrder : Bool
  typeOfApplication : AppType
  governor : Governor
  flows : AppFlows

/-- The state of `GemDroidCore`, without the counters that are only reported. -/
structure Core where
  pipe : Pipeline
  dvfs : CoreDvfs
  ticks : Int
  cyclesToWake : Int
  cpuPstate : CpuPstate
  needToLookAhead : Bool
  qemuTo60FPSSpeedratio : Rat
  emTraceFile : List Word
  lookaheadTraceFile : List Word
  idleStalls : Int
  fpsStalls : Int
  lastDCTick : Int
  audFpsStalls : Int
  lastSNDTick : Int
  readFBLine : Bool
  thisFrameIPFullStalls : Int
  framesDisplayed : Int
  framesDropped : Int
  framesDroppedDueToRobStalls : Int
  framesDroppedDueToMemStalls : Int
  framesDroppedDueToIPStalls : Int
  frameNumber : IpType → Int
  ipCalls : List IpReqMsg

end GemDroid
