import Mathlib.Logic.Function.Basic

/-! The instruction queue, where instructions wait until the registers they read are written. -/

namespace GemDroid

open Function (update)

/-- A source register of an instruction, and whether the instruction knows that it is ready. -/
structure SrcReg where
  reg : Nat
  ready : Bool

/-- What the instruction queue reads and writes of an instruction. -/
structure IQInst (numThreads : Nat) where
  threadNumber : Fin numThreads
  isMemRef : Bool := false
  isLoad : Bool := false
  isStore : Bool := false
  isStoreConditional : Bool := false
  isNonSpeculative : Bool := false
  isMemBarrier : Bool := false
  isWriteBarrier : Bool := false
  hasFault : Bool := false
  isCompleted : Bool := false
  srcRegs : List SrcReg := []
  destRegs : List Nat := []
  readyRegs : Nat := 0
  canIssue : Bool := false
  isIssued : Bool := false
  memOpDone : Bool := false
  isSquashedInIQ : Bool := false

/-- The assertions of the queue and its panic. -/
inductive IQFault where
  | noFreeEntries
  | graphNotEmpty
  | notInGraph
  | notNonSpec
  deriving DecidableEq

/-- The queue, in which instructions are known by their numbers. -/
structure InstructionQueue (numThreads : Nat) where
  numPhysRegs : Nat
  /-- Every instruction that was ever inserted. -/
  insts : Nat → IQInst numThreads
  /-- The instructions that wait for a register, the newest first. -/
  dependGraph : Nat → List Nat := fun _ => []
  regScoreboard : Nat → Bool := fun _ => false
  instList : Fin numThreads → List Nat := fun _ => []
  count : Fin numThreads → Nat := fun _ => 0
  freeEntries : Nat
  /--
  What became ready to issue: what was put on a ready list, and the memory instructions whose
  registers the memory dependence unit knows to be ready.
  -/
  ready : List Nat := []

namespace InstructionQueue

variable {numThreads : Nat}

/-- A change of one instruction. -/
def modify (q : InstructionQueue numThreads) (i : Nat)
    (change : IQInst numThreads → IQInst numThreads) : InstructionQueue numThreads :=
  { q with insts := update q.insts i (change (q.insts i)) }

/-- One more register of an instruction is ready. -/
def markSrcRegReady (q : InstructionQueue numThreads) (i : Nat) : InstructionQueue numThreads :=
  q.modify i fun inst => { inst with
    readyRegs := inst.readyRegs + 1
    canIssue := inst.canIssue || inst.readyRegs + 1 == inst.srcRegs.length }

/-- An instruction that can issue joins the ready ones. -/
def addIfReady (q : InstructionQueue numThreads) (i : Nat) : InstructionQueue numThreads :=
  if (q.insts i).canIssue then { q with ready := q.ready ++ [i] } else q

/-- A source register joins the dependency graph, unless it has become ready. -/
def addSource (q : InstructionQueue numThreads) (i : Nat) (src : SrcReg) :
    InstructionQueue numThreads × SrcReg :=
  if src.ready then (q, src)
  else if src.reg ≥ q.numPhysRegs then (q, src)
  else if !q.regScoreboard src.reg then
    ({ q with
      dependGraph := update q.dependGraph src.reg (i :: q.dependGraph src.reg) }, src)
  else (q.markSrcRegReady i, { src with ready := true })

/-- The loop over the source registers. -/
def addSources (q : InstructionQueue numThreads) (i : Nat) :
    List SrcReg → InstructionQueue numThreads × List SrcReg
  | [] => (q, [])
  | src :: srcs =>
    let first := q.addSource i src
    let rest := first.1.addSources i srcs
    (rest.1, first.2 :: rest.2)

/-- An instruction waits for the source registers that are not ready. -/
def addToDependents (q : InstructionQueue numThreads) (i : Nat) : InstructionQueue numThreads :=
  let added := q.addSources i (q.insts i).srcRegs
  added.1.modify i fun inst => { inst with srcRegs := added.2 }

/-- A destination register is not ready until its new producer has completed. -/
def addProducer (q : InstructionQueue numThreads) (dest_reg : Nat) :
    Except IQFault (InstructionQueue numThreads) :=
  if dest_reg ≥ q.numPhysRegs then .ok q
  else if (q.dependGraph dest_reg).isEmpty then
    .ok { q with regScoreboard := update q.regScoreboard dest_reg false }
  else .error .graphNotEmpty

/-- An instruction becomes the producer of its destination registers. -/
def addToProducers (q : InstructionQueue numThreads) (i : Nat) :
    Except IQFault (InstructionQueue numThreads) :=
  (q.insts i).destRegs.foldlM addProducer q

/--
A memory instruction joins the memory dependence unit, which sees whether it can issue, and clears
that when the instruction depends on another one.
-/
def memDepInsert (q : InstructionQueue numThreads) (i : Nat) (depends : Bool) :
    InstructionQueue numThreads :=
  (q.addIfReady i).modify i fun inst => { inst with canIssue := inst.canIssue && !depends }

/-- An instruction joins the end of the list of its thread. -/
def pushBack (q : InstructionQueue numThreads) (i : Nat) (new_inst : IQInst numThreads) :
    InstructionQueue numThreads :=
  { q with
    insts := update q.insts i new_inst
    instList := update q.instList new_inst.threadNumber
      (q.instList new_inst.threadNumber ++ [i])
    freeEntries := q.freeEntries - 1
    count := update q.count new_inst.threadNumber (q.count new_inst.threadNumber + 1) }

/-- An instruction joins the queue. -/
def insert (q : InstructionQueue numThreads) (i : Nat) (new_inst : IQInst numThreads)
    (depends : Bool) : Except IQFault (InstructionQueue numThreads) :=
  if q.freeEntries = 0 then .error .noFreeEntries
  else do
    let q ← ((q.pushBack i new_inst).addToDependents i).addToProducers i
    return if new_inst.isMemRef then q.memDepInsert i depends else q.addIfReady i

/-- An instruction is woken by one register. -/
def wake (q : InstructionQueue numThreads) (i : Nat) : InstructionQueue numThreads :=
  (q.markSrcRegReady i).addIfReady i

/-- The instructions that wait for a register are taken off its list and woken. -/
def wakeReg (q : InstructionQueue numThreads) (dest_reg : Nat) : InstructionQueue numThreads :=
  if dest_reg ≥ q.numPhysRegs then q
  else
    -- Waking changes no list, so that popping one at a time comes to the same.
    let q := (q.dependGraph dest_reg).foldl wake
      { q with dependGraph := update q.dependGraph dest_reg [] }
    { q with regScoreboard := update q.regScoreboard dest_reg true }

/-- A memory instruction frees its entry when it has completed. -/
def completeMemInst (q : InstructionQueue numThreads) (i : Nat) : InstructionQueue numThreads :=
  let tid := (q.insts i).threadNumber
  { q.modify i fun inst => { inst with memOpDone := true } with
    freeEntries := q.freeEntries + 1
    count := update q.count tid (q.count tid - 1) }

/-- What waits for the registers of a completed instruction is woken. -/
def wakeDependents (q : InstructionQueue numThreads) (i : Nat) : InstructionQueue numThreads :=
  let q := if (q.insts i).isMemRef then q.completeMemInst i else q
  (q.insts i).destRegs.foldl wakeReg q

/-- An instruction is issued; a memory instruction keeps its entry. -/
def issue (q : InstructionQueue numThreads) (i : Nat) : InstructionQueue numThreads :=
  let tid := (q.insts i).threadNumber
  let issued := q.modify i fun inst => { inst with isIssued := true }
  if (q.insts i).isMemRef then issued
  else
    { issued with
      freeEntries := q.freeEntries + 1
      count := update q.count tid (q.count tid - 1) }

/-- The oldest instructions of a thread leave the list. -/
def commit (q : InstructionQueue numThreads) (tid : Fin numThreads) (inst : Nat) :
    InstructionQueue numThreads :=
  { q with
    instList := update q.instList tid ((q.instList tid).dropWhile fun i => i ≤ inst) }

/-- An instruction is taken off the list of a register, where it must be unless that is empty. -/
def remove (q : InstructionQueue numThreads) (i : Nat) (src_reg : Nat) :
    Except IQFault (InstructionQueue numThreads) :=
  if (q.dependGraph src_reg).isEmpty then .ok q
  else if i ∈ q.dependGraph src_reg then
    .ok { q with
      dependGraph := update q.dependGraph src_reg ((q.dependGraph src_reg).erase i) }
  else .error .notInGraph

/-- A source register that the instruction does not know to be ready is removed. -/
def removeSource (q : InstructionQueue numThreads) (i : Nat) (src : SrcReg) :
    Except IQFault (InstructionQueue numThreads) :=
  if src.ready = false ∧ src.reg < q.numPhysRegs then q.remove i src.reg else .ok q

end InstructionQueue

/-- A load or store that is a barrier as well. -/
def IQInst.isAcqRel {numThreads : Nat} (inst : IQInst numThreads) : Bool :=
  inst.isMemBarrier && (inst.isLoad || (inst.isStore && !inst.isStoreConditional))

/-- The instruction was put into the dependency graph. -/
def IQInst.inGraph {numThreads : Nat} (inst : IQInst numThreads) : Bool :=
  inst.isAcqRel || (!inst.isNonSpeculative && !inst.isStoreConditional && !inst.isMemBarrier &&
    !inst.isWriteBarrier)

/-- The instruction counts among those of its thread. -/
def IQInst.counts {numThreads : Nat} (inst : IQInst numThreads) : Bool :=
  !inst.isIssued || (inst.isMemRef && !inst.memOpDone)

namespace InstructionQueue

variable {numThreads : Nat}

/-- A squashed instruction leaves the lists that it waits in. -/
def unlink (q : InstructionQueue numThreads) (i : Nat) :
    Except IQFault (InstructionQueue numThreads) :=
  let inst := q.insts i
  if inst.inGraph then inst.srcRegs.foldlM (fun q src => q.removeSource i src) q
  else if !inst.isStoreConditional || !inst.isCompleted then
    -- What was inserted speculatively is not in `nonSpecInsts`.
    if inst.hasFault || inst.isMemRef then .ok q else .error .notNonSpec
  else .ok q

/-- A squashed instruction no longer counts. -/
def markSquashed (q : InstructionQueue numThreads) (i : Nat) : InstructionQueue numThreads :=
  let tid := (q.insts i).threadNumber
  { q.modify i fun inst => { inst with isSquashedInIQ := true, isIssued := true } with
    count := update q.count tid (q.count tid - 1)
    freeEntries := q.freeEntries + 1 }

/-- An instruction leaves the list of its thread. -/
def erase (q : InstructionQueue numThreads) (tid : Fin numThreads) (i : Nat) :
    InstructionQueue numThreads :=
  { q with instList := update q.instList tid ((q.instList tid).erase i) }

/-- One instruction is squashed. -/
def squashInst (q : InstructionQueue numThreads) (tid : Fin numThreads) (i : Nat) :
    Except IQFault (InstructionQueue numThreads) :=
  let inst := q.insts i
  if inst.threadNumber ≠ tid ∨ inst.isSquashedInIQ then .ok q
  else if inst.counts then do
    let q ← q.unlink i
    return (q.markSquashed i).erase tid i
  else .ok (q.erase tid i)

/-- The loop over the list of a thread, from its end on. -/
def squashLoop (tid : Fin numThreads) (squashedSeqNum : Nat) : List Nat →
    InstructionQueue numThreads → Except IQFault (InstructionQueue numThreads)
  | [], q => .ok q
  | i :: older, q =>
    if i > squashedSeqNum then do squashLoop tid squashedSeqNum older (← q.squashInst tid i)
    else .ok q

/-- The instructions of a thread that are younger than a number are squashed. -/
def squash (q : InstructionQueue numThreads) (tid : Fin numThreads) (squashedSeqNum : Nat) :
    Except IQFault (InstructionQueue numThreads) :=
  if q.count tid > 0 then squashLoop tid squashedSeqNum (q.instList tid).reverse q else .ok q

end InstructionQueue

end GemDroid
