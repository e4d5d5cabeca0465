import GemDroid.Defines
import Mathlib.Logic.Function.Basic

/-! Branch prediction: the history of predictions, the target buffer and the return stack. -/

namespace GemDroid

/-- What the branch predictor asks of an instruction set and its program counters. -/
structure BranchIsa (PCState StaticInst : Type) where
  instAddr : PCState → Addr
  /-- The program counter that is made from the number zero. -/
  zero : PCState
  buildRetPC : PCState → PCState → PCState
  advancePC : PCState → StaticInst → PCState
  isUncondCtrl : StaticInst → Bool
  isCall : StaticInst → Bool
  isReturn : StaticInst → Bool

/-- The functions that a direction predictor implements, over its tables and its histories. -/
structure DirectionPredictor (Tables BPHistory : Type) where
  lookup : Tables → Addr → Bool × BPHistory × Tables
  uncondBranch : Tables → BPHistory × Tables
  btbUpdate : Tables → Addr → BPHistory → Tables
  update : Tables → Addr → (taken : Bool) → BPHistory → (squashed : Bool) → Tables
  squash : Tables → BPHistory → Tables

/-- An entry of the branch target buffer. -/
structure BTBEntry (PCState : Type) where
  tag : Addr
  target : PCState
  valid : Bool

/-- The branch target buffer, whose number of entries is a power of two. -/
structure DefaultBTB (PCState : Type) where
  numEntries : Nat
  tagBits : Nat
  instShiftAmt : Nat
  btb : Nat → BTBEntry PCState

namespace DefaultBTB

variable {PCState : Type}

/-- The entry that a branch maps to. -/
def getIndex (BTB : DefaultBTB PCState) (instPC : Addr) : Nat :=
  (instPC.toNat >>> BTB.instShiftAmt) &&& (BTB.numEntries - 1)

/-- The tag of a branch. -/
def getTag (BTB : DefaultBTB PCState) (instPC : Addr) : Addr :=
  (instPC >>> (BTB.instShiftAmt + BTB.numEntries.log2)) &&& BitVec.ofNat 64 (2 ^ BTB.tagBits - 1)

/-- Is there an entry for the branch? -/
def valid (BTB : DefaultBTB PCState) (instPC : Addr) : Bool :=
  let entry := BTB.btb (BTB.getIndex instPC)
  entry.valid && BTB.getTag instPC == entry.tag

/-- The target that is kept for the branch, if there is one. -/
def lookup (BTB : DefaultBTB PCState) (zero : PCState) (instPC : Addr) : PCState :=
  if BTB.valid instPC then (BTB.btb (BTB.getIndex instPC)).target else zero

/-- The target of a branch is kept. -/
def update (BTB : DefaultBTB PCState) (instPC : Addr) (target : PCState) : DefaultBTB PCState :=
  let entry : BTBEntry PCState := { tag := BTB.getTag instPC, target, valid := true }
  { BTB with btb := Function.update BTB.btb (BTB.getIndex instPC) entry }

end DefaultBTB

/-- The return address stack, which runs in a circle. -/
structure ReturnAddrStack (PCState : Type) where
  numEntries : Nat
  usedEntries : Nat := 0
  tos : Nat := 0
  addrStack : Nat → PCState

namespace ReturnAddrStack

variable {PCState : Type}

/-- The address at the top. -/
def top (RAS : ReturnAddrStack PCState) : PCState :=
  RAS.addrStack RAS.tos

/-- Where the top is. -/
def topIdx (RAS : ReturnAddrStack PCState) : Nat :=
  RAS.tos

/-- An address is pushed. -/
def push (RAS : ReturnAddrStack PCState) (return_addr : PCState) : ReturnAddrStack PCState :=
  let tos := if RAS.tos + 1 = RAS.numEntries then 0 else RAS.tos + 1
  { RAS with
    tos
    addrStack := Function.update RAS.addrStack tos return_addr
    usedEntries :=
      if RAS.usedEntries ≠ RAS.numEntries then RAS.usedEntries + 1 else RAS.usedEntries }

/-- The address at the top is popped. -/
def pop (RAS : ReturnAddrStack PCState) : ReturnAddrStack PCState :=
  { RAS with
    usedEntries := RAS.usedEntries - 1
    tos := if RAS.tos = 0 then RAS.numEntries - 1 else RAS.tos - 1 }

/-- The top is put back where it was, with the address that was there. -/
def restore (RAS : ReturnAddrStack PCState) (top_entry_idx : Nat) (restored : PCState) :
    ReturnAddrStack PCState :=
  { RAS with
    tos := top_entry_idx
    addrStack := Function.update RAS.addrStack top_entry_idx restored }

end ReturnAddrStack

/-- What is recorded of a prediction until the branch commits or is squashed. -/
structure PredictorHistory (PCState BPHistory : Type) where
  seqNum : Nat
  pc : Addr
  bpHistory : BPHistory
  RASTarget : PCState
  RASIndex : Nat := 0
  predTaken : Bool
  usedRAS : Bool := false
  pushedRAS : Bool := false
  wasCall : Bool := false
  wasReturn : Bool := false

/-- One training of the direction predictor, and the prediction that it is about. -/
structure Training (BPHistory : Type) where
  seqNum : Nat
  pc : Addr
  taken : Bool
  bpHistory : BPHistory
  squashed : Bool

/-- The predictor of one thread, whose youngest prediction comes first. -/
structure BPredUnit (PCState Tables BPHistory : Type) where
  tables : Tables
  predHist : List (PredictorHistory PCState BPHistory) := []
  BTB : DefaultBTB PCState
  RAS : ReturnAddrStack PCState
  /-- The calls that have trained the direction predictor, the latest one first. -/
  trainings : List (Training BPHistory) := []

/-- The training that a prediction gives when its branch turns out as it is told. -/
def PredictorHistory.training {PCState BPHistory : Type} (h : PredictorHistory PCState BPHistory)
    (taken squashed : Bool) : Training BPHistory where
  seqNum := h.seqNum
  pc := h.pc
  taken
  bpHistory := h.bpHistory
  squashed

namespace BPredUnit

variable {PCState StaticInst Tables BPHistory : Type}

/-- The direction that the direction predictor gives, which is told of unconditional branches. -/
def direction (isa : BranchIsa PCState StaticInst) (bp : DirectionPredictor Tables BPHistory)
    (unit : BPredUnit PCState Tables BPHistory) (inst : StaticInst) (pc : PCState) :
    Bool × BPHistory × Tables :=
  if isa.isUncondCtrl inst then (true, bp.uncondBranch unit.tables)
  else bp.lookup unit.tables (isa.instAddr pc)

/-- Predicts a branch, and returns whether it is taken and where to. -/
def predict (isa : BranchIsa PCState StaticInst) (bp : DirectionPredictor Tables BPHistory)
    (unit : BPredUnit PCState Tables BPHistory) (inst : StaticInst) (seqNum : Nat)
    (pc : PCState) : BPredUnit PCState Tables BPHistory × Bool × PCState :=
  let (pred_taken, bpHistory, tables) := unit.direction isa bp inst pc
  let predict_record : PredictorHistory PCState BPHistory :=
    { seqNum, pc := isa.instAddr pc, bpHistory, RASTarget := isa.zero, predTaken := pred_taken }
  if pred_taken then
    if isa.isReturn inst then
      let rasTop := unit.RAS.top
      let record := { predict_record with
        wasReturn := true, usedRAS := true, RASIndex := unit.RAS.topIdx, RASTarget := rasTop }
      ({ unit with tables, RAS := unit.RAS.pop, predHist := record :: unit.predHist },
        true, isa.buildRetPC pc rasTop)
    else
      let RAS := if isa.isCall inst then unit.RAS.push pc else unit.RAS
      let record := if isa.isCall inst then
          { predict_record with pushedRAS := true, wasCall := true }
        else predict_record
      if unit.BTB.valid (isa.instAddr pc) then
        ({ unit with tables, RAS, predHist := record :: unit.predHist },
          true, unit.BTB.lookup isa.zero (isa.instAddr pc))
      -- Without a target the branch is predicted not taken after all.
      else if !isa.isCall inst && !isa.isReturn inst then
        ({ unit with
            tables := bp.btbUpdate tables (isa.instAddr pc) bpHistory
            RAS
            predHist := record :: unit.predHist },
          false, isa.advancePC pc inst)
      else if isa.isCall inst && !isa.isUncondCtrl inst then
        ({ unit with
            tables
            RAS := RAS.pop
            predHist := { record with pushedRAS := false } :: unit.predHist },
          false, isa.advancePC pc inst)
      else
        ({ unit with tables, RAS, predHist := record :: unit.predHist },
          false, isa.advancePC pc inst)
  else
    let record := { predict_record with wasReturn := isa.isReturn inst }
    ({ unit with tables, predHist := record :: unit.predHist }, false, isa.advancePC pc inst)

/-- Trains the direction predictor with a prediction. -/
def train (bp : DirectionPredictor Tables BPHistory) (unit : BPredUnit PCState Tables BPHistory)
    (h : PredictorHistory PCState BPHistory) (taken squashed : Bool) :
    BPredUnit PCState Tables BPHistory :=
  { unit with
    tables := bp.update unit.tables h.pc taken h.bpHistory squashed
    trainings := h.training taken squashed :: unit.trainings }

/-- The loop of `update` over the history, which it takes from its oldest end. -/
def updateLoop (bp : DirectionPredictor Tables BPHistory) (done_sn : Nat) :
    List (PredictorHistory PCState BPHistory) → BPredUnit PCState Tables BPHistory →
      List (PredictorHistory PCState BPHistory) × BPredUnit PCState Tables BPHistory
  | [], unit => ([], unit)
  | back :: rest, unit =>
    if back.seqNum ≤ done_sn then
      updateLoop bp done_sn rest (unit.train bp back back.predTaken false)
    else (back :: rest, unit)

/-- Commits the branches up to a sequence number. -/
def update (bp : DirectionPredictor Tables BPHistory) (unit : BPredUnit PCState Tables BPHistory)
    (done_sn : Nat) : BPredUnit PCState Tables BPHistory :=
  let (left, trained) := updateLoop bp done_sn unit.predHist.reverse unit
  { trained with predHist := left.reverse }

/-- The return stack as it was before a branch that is squashed. -/
def undoRAS (RAS : ReturnAddrStack PCState) (h : PredictorHistory PCState BPHistory) :
    ReturnAddrStack PCState :=
  if h.usedRAS then RAS.restore h.RASIndex h.RASTarget
  else if h.wasCall && h.pushedRAS then RAS.pop
  else RAS

/-- The loop of `squash` over the history, which it takes from its youngest end. -/
def squashLoop (bp : DirectionPredictor Tables BPHistory) (squashed_sn : Nat) :
    List (PredictorHistory PCState BPHistory) → BPredUnit PCState Tables BPHistory →
      List (PredictorHistory PCState BPHistory) × BPredUnit PCState Tables BPHistory
  | [], unit => ([], unit)
  | front :: rest, unit =>
    if front.seqNum > squashed_sn then
      squashLoop bp squashed_sn rest { unit with
        RAS := undoRAS unit.RAS front
        tables := bp.squash unit.tables front.bpHistory }
    else (front :: rest, unit)

/-- Squashes the branches after a sequence number. -/
def squash (bp : DirectionPredictor Tables BPHistory) (unit : BPredUnit PCState Tables BPHistory)
    (squashed_sn : Nat) : BPredUnit PCState Tables BPHistory :=
  let (left, undone) := squashLoop bp squashed_sn unit.predHist unit
  { undone with predHist := left }

/--
Squashes the branches after a mispredicted one and trains the predictor with that one; there is
no result when the mispredicted branch is not the youngest that is left.
-/
def squashMispredicted (bp : DirectionPredictor Tables BPHistory)
    (unit : BPredUnit PCState Tables BPHistory) (squashed_sn : Nat) (corrTarget : PCState)
    (actually_taken : Bool) : Option (BPredUnit PCState Tables BPHistory) :=
  let unit := unit.squash bp squashed_sn
  match unit.predHist with
  -- A squash due to a system call may have no entry.
  | [] => some unit
  | front :: rest =>
    if front.seqNum ≠ squashed_sn then none
    else
      let trained := unit.train bp front actually_taken true
      if actually_taken then
        some { trained with
          RAS := if front.wasReturn && !front.usedRAS then trained.RAS.pop else trained.RAS
          BTB := trained.BTB.update front.pc corrTarget
          predHist := rest }
      else some { trained with RAS := undoRAS trained.RAS front, predHist := rest }

end BPredUnit

end GemDroid
