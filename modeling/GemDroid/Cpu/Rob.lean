import Mathlib.Data.Fin.Basic
import Mathlib.Logic.Function.Basic

/-! The reorder buffer of the out-of-order processor, which several threads share. -/

namespace GemDroid

/-- How the threads share the reorder buffer. -/
inductive ROBPolicy where
  | Dynamic
  | Partitioned
  | Threshold
  deriving DecidableEq

/-- The policy that a parameter names, in whatever case it is written. -/
def ROBPolicy.ofString (smtROBPolicy : String) : Option ROBPolicy :=
  let policy := smtROBPolicy.toLower
  if policy = "dynamic" then some .Dynamic
  else if policy = "partitioned" then some .Partitioned
  else if policy = "threshold" then some .Threshold
  -- The constructor asserts that there is no other.
  else none

/-- What the reorder buffer reads and writes of an instruction. -/
structure ROBInst (numThreads : Nat) where
  seqNum : Nat
  threadNumber : Fin numThreads
  robEntry : Bool := false
  squashed : Bool := false
  canCommit : Bool := false
  committed : Bool := false

/-- What the reorder buffer keeps for each thread. -/
structure ROBThread (numThreads : Nat) where
  threadEntries : BitVec 32 := 0
  maxEntries : BitVec 32
  instList : List (ROBInst numThreads) := []
  /-- The place in the list where squashing has got to, or nothing for its end. -/
  squashIt : Option Nat := none
  squashedSeqNum : Nat := 0
  doneSquashing : Bool := true

/-- The assertions of the buffer that can fail. -/
inductive ROBFault where
  | robFull
  | staleHead
  | robEmpty
  | notReady
  deriving DecidableEq

/-- The reorder buffer, whose iterators name the thread and number of an instruction. -/
structure ROB (numThreads : Nat) where
  robPolicy : ROBPolicy
  numEntries : BitVec 32
  squashWidth : Nat
  thread : Fin numThreads → ROBThread numThreads
  activeThreads : List (Fin numThreads) := []
  /-- An `int`, unlike the other counts. -/
  numInstsInROB : BitVec 32 := 0
  head : Option (Fin numThreads × Nat) := none
  tail : Option (Fin numThreads × Nat) := none

namespace ROBThread

variable {numThreads : Nat}

/-- An instruction of the list is changed where it stands. -/
def modify (thread : ROBThread numThreads) (it : Nat)
    (change : ROBInst numThreads → ROBInst numThreads) : ROBThread numThreads :=
  { thread with instList := thread.instList.modify it change }

/-- An instruction that was executed may commit. -/
def setCanCommit (thread : ROBThread numThreads) (it : Nat) : ROBThread numThreads :=
  thread.modify it fun inst => { inst with canCommit := true }

/-- Squashing has reached its end. -/
def endSquash (thread : ROBThread numThreads) : ROBThread numThreads :=
  { thread with squashIt := none, doneSquashing := true }

/-- The part of `doSquash` after its loop: is the instruction one to keep? -/
def checkSquash (thread : ROBThread numThreads) (it : Nat) : Option (ROBThread numThreads) := do
  let inst ← thread.instList[it]?
  if inst.seqNum ≤ thread.squashedSeqNum then some thread.endSquash
  else some { thread with squashIt := some it }

/-- The loop of `doSquash`, and whether the youngest instruction was squashed by it. -/
def squashLoop (thread : ROBThread numThreads) (it : Nat) (robTailUpdate : Bool) :
    (squashWidth : Nat) → Option (ROBThread numThreads × Bool)
  | 0 => do some (← thread.checkSquash it, robTailUpdate)
  | squashWidth + 1 => do
    let inst ← thread.instList[it]?
    if inst.seqNum > thread.squashedSeqNum then
      let marked := thread.modify it fun inst => { inst with squashed := true, canCommit := true }
      -- At the oldest instruction the function returns at once.
      if it = 0 then some (marked.endSquash, false)
      else
        let atTail := decide (it + 1 = thread.instList.length)
        marked.squashLoop (it - 1) (robTailUpdate || atTail) squashWidth
    else some (← thread.checkSquash it, robTailUpdate)

end ROBThread

namespace ROB

variable {numThreads : Nat}

/-- The constructor, for the policy that its parameter names. -/
def create (robPolicy : ROBPolicy) (numROBEntries smtROBThreshold : BitVec 32)
    (squashWidth numThreads : Nat) : ROB numThreads where
  robPolicy
  numEntries := numROBEntries
  squashWidth
  thread _ :=
    { maxEntries :=
        match robPolicy with
        | .Dynamic => numROBEntries
        | .Partitioned => numROBEntries / BitVec.ofNat 32 numThreads
        | .Threshold => smtROBThreshold }

/-- What is kept for one thread is replaced. -/
def setThread (rob : ROB numThreads) (tid : Fin numThreads) (thread : ROBThread numThreads) :
    ROB numThreads :=
  { rob with thread := Function.update rob.thread tid thread }

/-- The processor adds a thread to its active ones. -/
def activateThread (rob : ROB numThreads) (tid : Fin numThreads) : ROB numThreads :=
  if tid ∈ rob.activeThreads then rob
  else { rob with activeThreads := rob.activeThreads ++ [tid] }

/-- The processor removes a thread from its active ones. -/
def deactivateThread (rob : ROB numThreads) (tid : Fin numThreads) : ROB numThreads :=
  { rob with activeThreads := rob.activeThreads.erase tid }

/-- The limit that resetting gives to an active thread. -/
def resetLimit (rob : ROB numThreads) (tid : Fin numThreads) : BitVec 32 :=
  let active_threads := rob.activeThreads.length
  if rob.robPolicy = .Partitioned then rob.numEntries / BitVec.ofNat 32 active_threads
  else if rob.robPolicy = .Threshold ∧ active_threads = 1 then rob.numEntries
  else (rob.thread tid).maxEntries

/-- The limits of the active threads are set anew. -/
def resetEntries (rob : ROB numThreads) : ROB numThreads :=
  if rob.robPolicy ≠ .Dynamic ∨ numThreads > 1 then
    let setLimit (thread : Fin numThreads → ROBThread numThreads) (tid : Fin numThreads) :=
      Function.update thread tid { (thread tid) with maxEntries := rob.resetLimit tid }
    { rob with thread := rob.activeThreads.foldl setLimit rob.thread }
  else rob

/-- How many entries the whole buffer has free. -/
def numFreeEntriesTotal (rob : ROB numThreads) : BitVec 32 :=
  rob.numEntries - rob.numInstsInROB

/-- How many entries a thread has free, as commit reports it to rename. -/
def numFreeEntries (rob : ROB numThreads) (tid : Fin numThreads) : BitVec 32 :=
  (rob.thread tid).maxEntries - (rob.thread tid).threadEntries

/-- Has the thread no instruction in the buffer? -/
def isEmpty (rob : ROB numThreads) (tid : Fin numThreads) : Bool :=
  (rob.thread tid).threadEntries == 0

/-- May the oldest instruction of the thread commit? -/
def isHeadReady (rob : ROB numThreads) (tid : Fin numThreads) : Bool :=
  (rob.thread tid).threadEntries != 0 && (rob.thread tid).instList.head?.any (·.canCommit)

/-- The oldest instruction of all active threads is looked for. -/
def updateHead (rob : ROB numThreads) : ROB numThreads :=
  { rob with head := rob.activeThreads.foldl (fun head tid =>
      match (rob.thread tid).instList.head?, head with
      | none, _ => head
      | some inst, none => some (tid, inst.seqNum)
      | some inst, some (_, lowest_num) =>
        if inst.seqNum < lowest_num then some (tid, inst.seqNum) else head) none }

/-- The youngest instruction of all active threads is looked for. -/
def updateTail (rob : ROB numThreads) : ROB numThreads :=
  { rob with tail := rob.activeThreads.foldl (fun tail tid =>
      match (rob.thread tid).instList.getLast?, tail with
      | none, _ => tail
      | some inst, none => some (tid, inst.seqNum)
      | some inst, some (_, highest_num) =>
        if inst.seqNum > highest_num then some (tid, inst.seqNum) else tail) none }

/-- An instruction joins the list of its thread. -/
def insertInst (rob : ROB numThreads) (inst : ROBInst numThreads) :
    Except ROBFault (ROB numThreads) :=
  let tid := inst.threadNumber
  let thread := rob.thread tid
  if rob.numInstsInROB = rob.numEntries then .error .robFull
  -- The first instruction of the buffer must be the first of its thread.
  else if rob.numInstsInROB = 0 ∧ thread.instList ≠ [] then .error .staleHead
  else .ok { rob.setThread tid { thread with
        instList := thread.instList ++ [{ inst with robEntry := true }]
        threadEntries := thread.threadEntries + 1 } with
      head := if rob.numInstsInROB = 0 then some (tid, inst.seqNum) else rob.head
      tail := some (tid, inst.seqNum)
      numInstsInROB := rob.numInstsInROB + 1 }

/-- The oldest instruction of a thread leaves the buffer and is handed to the processor. -/
def retireHead (rob : ROB numThreads) (tid : Fin numThreads) :
    Except ROBFault (ROB numThreads × ROBInst numThreads) :=
  let thread := rob.thread tid
  if ¬(0#32).slt rob.numInstsInROB then .error .robEmpty
  else match thread.instList with
  | [] => .error .robEmpty
  | head_inst :: rest =>
    if ¬head_inst.canCommit then .error .notReady
    else
      let retired := { rob.setThread tid { thread with
          threadEntries := thread.threadEntries - 1
          instList := rest
          -- An iterator to the erased instruction is of no more use.
          squashIt := thread.squashIt.bind fun it => if it = 0 then none else some (it - 1) } with
        numInstsInROB := rob.numInstsInROB - 1 }
      .ok (retired.updateHead, { head_inst with robEntry := false, committed := true })

/-- Squashing goes on where it was left, unless it is at its end. -/
def doSquash (rob : ROB numThreads) (tid : Fin numThreads) : Option (ROB numThreads) := do
  let thread := rob.thread tid
  let it ← thread.squashIt
  let inst ← thread.instList[it]?
  if inst.seqNum < thread.squashedSeqNum then some (rob.setThread tid thread.endSquash)
  else
    let (squashed, robTailUpdate) ← thread.squashLoop it false rob.squashWidth
    let rob := rob.setThread tid squashed
    some (if robTailUpdate then rob.updateTail else rob)

/-- Squashing begins with the youngest instruction of the thread. -/
def squash (rob : ROB numThreads) (squash_num : Nat) (tid : Fin numThreads) :
    Option (ROB numThreads) :=
  if rob.isEmpty tid then some rob
  else
    let thread := { (rob.thread tid) with doneSquashing := false, squashedSeqNum := squash_num }
    if thread.instList = [] then some (rob.setThread tid thread)
    else
      let squashIt := some (thread.instList.length - 1)
      (rob.setThread tid { thread with squashIt }).doSquash tid

end ROB

end GemDroid
