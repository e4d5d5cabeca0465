import GemDroid.Cpu.BPred

/-! The tournament predictor, in which a local and a global predictor compete. -/

namespace GemDroid

/-- A counter that stops at zero and at its largest value. -/
structure SatCounter where
  maxVal : Nat
  counter : Nat := 0

namespace SatCounter

/-- A counter of so many bits. -/
def setBits (bits : Nat) : SatCounter where
  maxVal := 2 ^ bits - 1

def increment (c : SatCounter) : SatCounter :=
  if c.counter < c.maxVal then { c with counter := c.counter + 1 } else c

def decrement (c : SatCounter) : SatCounter :=
  if c.counter > 0 then { c with counter := c.counter - 1 } else c

end SatCounter

/-- The sizes of the tables and counters, and how far an address is shifted. -/
structure TournamentParams where
  localPredictorSize : Nat
  localCtrBits : Nat
  localHistoryTableSize : Nat
  globalPredictorSize : Nat
  globalCtrBits : Nat
  choicePredictorSize : Nat
  choiceCtrBits : Nat
  instShiftAmt : Nat

namespace TournamentParams

/-- The bits of the longer of the two histories. -/
def globalHistoryBits (params : TournamentParams) : Nat :=
  max params.globalPredictorSize.log2 params.choicePredictorSize.log2

def historyRegisterMask (params : TournamentParams) : BitVec 32 :=
  BitVec.ofNat 32 (2 ^ params.globalHistoryBits - 1)

def localPredictorMask (params : TournamentParams) : BitVec 32 :=
  BitVec.ofNat 32 (2 ^ params.localPredictorSize.log2 - 1)

def globalHistoryMask (params : TournamentParams) : BitVec 32 :=
  BitVec.ofNat 32 (params.globalPredictorSize - 1)

def choiceHistoryMask (params : TournamentParams) : BitVec 32 :=
  BitVec.ofNat 32 (params.choicePredictorSize - 1)

/-- A counter of so many bits predicts taken above this value. -/
def threshold (ctrBits : Nat) : Nat :=
  2 ^ (ctrBits - 1) - 1

end TournamentParams

/-- The counters and histories of the tournament predictor. -/
structure TournamentBP where
  localCtrs : BitVec 32 → SatCounter
  localHistoryTable : BitVec 32 → BitVec 32
  globalCtrs : BitVec 32 → SatCounter
  choiceCtrs : BitVec 32 → SatCounter
  globalHistory : BitVec 32

/-- What the tournament predictor remembers of a branch. -/
structure BPHistory where
  globalHistory : BitVec 32
  localHistory : BitVec 32
  localPredTaken : Bool
  globalPredTaken : Bool
  globalUsed : Bool

namespace TournamentBP

open TournamentParams

/-- The number that stands for no index of the local predictor. -/
def invalidPredictorIndex : BitVec 32 :=
  -1

/-- The tables that the predictor starts with. -/
def create (params : TournamentParams) : TournamentBP where
  localCtrs _ := .setBits params.localCtrBits
  localHistoryTable _ := 0
  globalCtrs _ := .setBits params.globalCtrBits
  choiceCtrs _ := .setBits params.choiceCtrBits
  globalHistory := 0

/-- Where the local history of a branch is kept. -/
def calcLocHistIdx (params : TournamentParams) (branch_addr : Addr) : BitVec 32 :=
  (branch_addr >>> params.instShiftAmt).setWidth 32 &&&
    BitVec.ofNat 32 (params.localHistoryTableSize - 1)

/-- A history with one more direction. -/
def shiftIn (history : BitVec 32) (taken : Bool) : BitVec 32 :=
  if taken then history <<< 1 ||| 1 else history <<< 1

/-- The global history with one more direction. -/
def updateGlobalHist (params : TournamentParams) (t : TournamentBP) (taken : Bool) :
    TournamentBP :=
  { t with globalHistory := shiftIn t.globalHistory taken &&& params.historyRegisterMask }

/-- A local history with one more direction. -/
def updateLocalHist (t : TournamentBP) (local_history_idx : BitVec 32) (taken : Bool) :
    TournamentBP :=
  let history := shiftIn (t.localHistoryTable local_history_idx) taken
  { t with localHistoryTable := Function.update t.localHistoryTable local_history_idx history }

/-- Both histories end with a branch that is not taken. -/
def btbUpdate (params : TournamentParams) (t : TournamentBP) (branch_addr : Addr)
    (_ : BPHistory) : TournamentBP :=
  let local_history_idx := calcLocHistIdx params branch_addr
  let history := t.localHistoryTable local_history_idx &&& (params.localPredictorMask &&& ~~~1)
  { t with
    globalHistory := t.globalHistory &&& (params.historyRegisterMask &&& ~~~1)
    localHistoryTable := Function.update t.localHistoryTable local_history_idx history }

/-- Predicts a conditional branch and enters the prediction into the histories. -/
def lookup (params : TournamentParams) (t : TournamentBP) (branch_addr : Addr) :
    Bool × BPHistory × TournamentBP :=
  let local_history_idx := calcLocHistIdx params branch_addr
  let local_predictor_idx := t.localHistoryTable local_history_idx &&& params.localPredictorMask
  let local_prediction :=
    decide ((t.localCtrs local_predictor_idx).counter > threshold params.localCtrBits)
  let global_prediction := decide
    ((t.globalCtrs (t.globalHistory &&& params.globalHistoryMask)).counter >
      threshold params.globalCtrBits)
  let choice_prediction := decide
    ((t.choiceCtrs (t.globalHistory &&& params.choiceHistoryMask)).counter >
      threshold params.choiceCtrBits)
  let history : BPHistory :=
    { globalHistory := t.globalHistory
      localPredTaken := local_prediction
      globalPredTaken := global_prediction
      globalUsed := choice_prediction
      localHistory := local_predictor_idx }
  let taken := if choice_prediction then global_prediction else local_prediction
  (taken, history, (t.updateGlobalHist params taken).updateLocalHist local_history_idx taken)

/-- Enters an unconditional branch into the global history. -/
def uncondBranch (params : TournamentParams) (t : TournamentBP) : BPHistory × TournamentBP :=
  ({ globalHistory := t.globalHistory
     localPredTaken := true
     globalPredTaken := true
     globalUsed := true
     localHistory := invalidPredictorIndex }, t.updateGlobalHist params true)

/-- A counter of a table moves towards the direction of the branch. -/
def count (ctrs : BitVec 32 → SatCounter) (idx : BitVec 32) (taken : Bool) :
    BitVec 32 → SatCounter :=
  Function.update ctrs idx (if taken then (ctrs idx).increment else (ctrs idx).decrement)

/-- Trains the counters with a branch, and puts the histories right after a misprediction. -/
def update (params : TournamentParams) (t : TournamentBP) (branch_addr : Addr) (taken : Bool)
    (history : BPHistory) (squashed : Bool) : TournamentBP :=
  let local_history_idx := calcLocHistIdx params branch_addr
  let old_local_pred_index := history.localHistory &&& params.localPredictorMask
  let old_local_pred_valid := history.localHistory != invalidPredictorIndex
  let historyPred := if history.globalUsed then history.globalPredTaken else history.localPredTaken
  -- A branch of which only the target was wrong has its counters left alone.
  let t := if historyPred != taken || !squashed then
      let choice_predictor_idx := history.globalHistory &&& params.choiceHistoryMask
      let choiceCtrs :=
        if history.localPredTaken != history.globalPredTaken then
          -- The choice moves towards the predictor that was right.
          count t.choiceCtrs choice_predictor_idx (history.localPredTaken != taken)
        else t.choiceCtrs
      let global_predictor_idx := history.globalHistory &&& params.globalHistoryMask
      let localCtrs :=
        if old_local_pred_valid then count t.localCtrs old_local_pred_index taken else t.localCtrs
      { t with choiceCtrs, globalCtrs := count t.globalCtrs global_predictor_idx taken, localCtrs }
    else t
  if squashed then
    let localHistoryTable :=
      if old_local_pred_valid then
        Function.update t.localHistoryTable local_history_idx (shiftIn history.localHistory taken)
      else t.localHistoryTable
    { t with
      globalHistory := shiftIn history.globalHistory taken &&& params.historyRegisterMask
      localHistoryTable }
  else t

/-- The global history as it was before a branch that is squashed. -/
def squash (t : TournamentBP) (history : BPHistory) : TournamentBP :=
  { t with globalHistory := history.globalHistory }

/-- The tournament predictor as a direction predictor. -/
def predictor (params : TournamentParams) : DirectionPredictor TournamentBP BPHistory where
  lookup := lookup params
  uncondBranch := uncondBranch params
  btbUpdate := btbUpdate params
  update := update params
  squash := squash

end TournamentBP

end GemDroid
