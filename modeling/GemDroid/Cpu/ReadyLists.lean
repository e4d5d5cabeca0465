import GemDroid.Cpu.FUPool
import GemDroid.Lib.Run

/-! The ready instructions of the instruction queue, and the order in which they are issued. -/

namespace GemDroid

/-- What the ready lists read of an instruction. -/
structure ReadyInst where
  seqNum : Nat
  opClass : OpClass
  isMemRef : Bool := false
  readyToIssue : Bool := true
  deriving DecidableEq

/-- An entry of `listOrder`: a class that has ready instructions, and the oldest of these. -/
structure ListOrderEntry where
  /-- The list node of the entry, which the iterators point to. -/
  node : Nat
  queueType : OpClass
  oldestInst : Nat
  deriving DecidableEq

/-- What can go wrong: an assertion fails, or an iterator points to no entry. -/
inductive ReadyFault where
  | emptyQueue
  | notOldest
  | noEntry
  | unitAssertion
  | outOfFuel
  deriving DecidableEq

/-- The ready instructions. -/
structure ReadyLists where
  /-- The ready instructions of each class, the oldest at the top. -/
  readyInsts : OpClass → List ReadyInst := fun _ => []
  listOrder : List ListOrderEntry := []
  queueOnList : OpClass → Bool := fun _ => false
  /-- The entry of a class, or nothing for the end of the list. -/
  readyIt : OpClass → Option Nat := fun _ => none
  /-- The node that the next entry gets. -/
  nextNode : Nat := 0
  /-- The instructions that have been squashed. -/
  isSquashed : Nat → Bool := fun _ => false
  fuPool : FUPool

/-- An instruction that is issued. -/
structure Issue where
  inst : ReadyInst
  /-- The pool as it is when the instruction asks for a unit. -/
  asked : FUPool
  idx : Int
  op_latency : Nat
  /-- Whether the unit is freed when the instruction completes (`setFreeFU`). -/
  freeFU : Bool

namespace ReadyLists

/-- Add an instruction to a priority queue. -/
def push (inst : ReadyInst) : List ReadyInst → List ReadyInst
  | [] => [inst]
  | top :: rest => if inst.seqNum ≤ top.seqNum then inst :: top :: rest else top :: push inst rest

/-- Insert an entry where the walk along the list stops. -/
def insertAt (stops : ListOrderEntry → Bool) (entry : ListOrderEntry) :
    List ListOrderEntry → List ListOrderEntry
  | [] => [entry]
  | e :: rest => if stops e then entry :: e :: rest else e :: insertAt stops entry rest

def addToOrderList (op_class : OpClass) (r : ReadyLists) : Except ReadyFault ReadyLists :=
  match r.readyInsts op_class with
  | [] => .error .emptyQueue
  | top :: _ =>
    let entry : ListOrderEntry :=
      { node := r.nextNode, queueType := op_class, oldestInst := top.seqNum }
    .ok { r with
      listOrder := insertAt (fun e => e.oldestInst > entry.oldestInst) entry r.listOrder
      readyIt := Function.update r.readyIt op_class (some r.nextNode)
      queueOnList := Function.update r.queueOnList op_class true
      nextNode := r.nextNode + 1 }

/-- Erase the entry of a node. -/
def erase (node : Nat) (r : ReadyLists) : ReadyLists :=
  { r with listOrder := r.listOrder.filter fun e => e.node ≠ node }

/-- The entry that an iterator points to. -/
def entryAt (it : Option Nat) (r : ReadyLists) : Option ListOrderEntry :=
  it.bind fun node => r.listOrder.find? fun e => e.node = node

def pushInst (inst : ReadyInst) (r : ReadyLists) : ReadyLists :=
  { r with readyInsts :=
      Function.update r.readyInsts inst.opClass (push inst (r.readyInsts inst.opClass)) }

/-- Add a ready instruction (in `addIfReady` and `addReadyMemInst`). -/
def addReady (inst : ReadyInst) (r : ReadyLists) : Except ReadyFault ReadyLists :=
  let r := r.pushInst inst
  if !r.queueOnList inst.opClass then r.addToOrderList inst.opClass
  else
    match r.readyInsts inst.opClass, r.entryAt (r.readyIt inst.opClass) with
    | top :: _, some entry =>
      if top.seqNum < entry.oldestInst then (r.erase entry.node).addToOrderList inst.opClass
      else .ok r
    | _, _ => .error .noEntry

/-- A memory instruction whose registers are ready waits for the memory dependence unit. -/
def addIfReady (inst : ReadyInst) (r : ReadyLists) : Except ReadyFault ReadyLists :=
  if inst.readyToIssue && !inst.isMemRef then r.addReady inst else .ok r

def addReadyMemInst (inst : ReadyInst) (r : ReadyLists) : Except ReadyFault ReadyLists :=
  r.addReady inst

/--
Take the top of a class, whose entry is erased, and insert the entry of the next one
(`moveToYoungerInst`) among the entries behind.
-/
def popInst (op_class : OpClass) (rest : List ListOrderEntry) (r : ReadyLists) :
    List ListOrderEntry × ReadyLists :=
  let queue := (r.readyInsts op_class).tail
  let r := { r with readyInsts := Function.update r.readyInsts op_class queue }
  match queue with
  | [] =>
    (rest, { r with
      readyIt := Function.update r.readyIt op_class none
      queueOnList := Function.update r.queueOnList op_class false })
  | top :: _ =>
    let entry : ListOrderEntry :=
      { node := r.nextNode, queueType := op_class, oldestInst := top.seqNum }
    (insertAt (fun e => !(e.oldestInst < entry.oldestInst)) entry rest, { r with
      readyIt := Function.update r.readyIt op_class (some r.nextNode)
      nextNode := r.nextNode + 1 })

/-- The unit of an instruction, `-2` when it needs none. -/
def unitFor (op_class : OpClass) (pool : FUPool) : Option (Int × FUPool) :=
  if op_class ≠ .No_OpClass then pool.getUnit op_class else some (-2, pool)

/-- Start an instruction on its unit, which is freed at once unless it is not pipelined. -/
def execute (inst : ReadyInst) (asked : FUPool) (idx : Int) (pool : FUPool) :
    Option (Issue × FUPool) :=
  let op_latency := if idx > -1 then pool.maxOpLatencies inst.opClass else 1
  let issue : Issue := { inst, asked, idx, op_latency, freeFU := false }
  if op_latency = 1 then
    if idx ≥ 0 then (pool.freeUnitNextCycle idx.toNat).map (Prod.mk issue) else some (issue, pool)
  else if pool.maxIssueLatencies inst.opClass > 1 then some ({ issue with freeFU := true }, pool)
  else (pool.freeUnitNextCycle idx.toNat).map (Prod.mk issue)

/--
The walk along `listOrder`, which is split where the iterator stands, while there is width left and
the write-back stage can take more.
-/
def walk (width : Nat) (canIssue : Nat → Bool) : Nat → (total_issued : Nat) →
    (passed ahead : List ListOrderEntry) → ReadyLists → Except ReadyFault (ReadyLists × List Issue)
  | 0, _, _, _, _ => .error .outOfFuel
  | fuel + 1, total_issued, passed, ahead, r =>
    match ahead with
    | [] => .ok ({ r with listOrder := passed }, [])
    | e :: rest =>
      if total_issued < width ∧ canIssue total_issued then
        match r.readyInsts e.queueType with
        | [] => .error .emptyQueue
        | inst :: _ =>
          if inst.seqNum ≠ e.oldestInst then .error .notOldest
          else if r.isSquashed inst.seqNum then
            let (rest, r) := r.popInst e.queueType rest
            walk width canIssue fuel total_issued passed rest r
          else
            match unitFor e.queueType r.fuPool with
            | none => .error .unitAssertion
            | some (idx, pool) =>
              if idx = -2 ∨ idx ≠ -1 then
                match execute inst r.fuPool idx pool with
                | none => .error .unitAssertion
                | some (issue, pool) =>
                  let (rest, r) := { r with fuPool := pool }.popInst e.queueType rest
                  (walk width canIssue fuel (total_issued + 1) passed rest r).map fun out =>
                    (out.1, issue :: out.2)
              -- The units of the class are busy, and the walk goes on to the next class.
              else
                walk width canIssue fuel total_issued (passed ++ [e]) rest { r with fuPool := pool }
      else .ok ({ r with listOrder := passed ++ ahead }, [])

/-- How often the walk goes round at most: once for each instruction and for each class. -/
def rounds (ahead : List ListOrderEntry) (r : ReadyLists) : Nat :=
  (ahead.map fun e => (r.readyInsts e.queueType).length + 1).sum

/--
Issue ready instructions, as many as the deferred memory instructions of the cycle leave width for.
-/
def scheduleReadyInsts (width : Nat) (canIssue : Nat → Bool) (r : ReadyLists) :
    Except ReadyFault (ReadyLists × List Issue) :=
  walk width canIssue (rounds r.listOrder r + 1) 0 [] r.listOrder r

/-- What happens to the ready lists. -/
inductive Op
  | addIfReady (inst : ReadyInst)
  | addReadyMemInst (inst : ReadyInst)
  | squash (which : Nat → Bool)
  | scheduleReadyInsts (width : Nat) (canIssue : Nat → Bool)
  /-- Units become free or busy from one cycle to the next. -/
  | units (unitBusy : Nat → Bool) (unitsToBeFreed : List Nat)

/-- Take one step. -/
def step (r : ReadyLists) : Op → Option ReadyLists
  | .addIfReady inst => (r.addIfReady inst).toOption
  | .addReadyMemInst inst => (r.addReadyMemInst inst).toOption
  | .squash which => some { r with isSquashed := fun i => which i || r.isSquashed i }
  | .scheduleReadyInsts width canIssue =>
    (r.scheduleReadyInsts width canIssue).toOption.map Prod.fst
  | .units unitBusy unitsToBeFreed =>
    some { r with fuPool := { r.fuPool with unitBusy, unitsToBeFreed } }

end ReadyLists

end GemDroid
