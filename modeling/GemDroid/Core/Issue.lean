import GemDroid.Core.State

/-! The issue loops of a core: in order, and out of order. -/

namespace GemDroid

namespace Pipeline

/-- The pipeline after construction. -/
def empty : Pipeline :=
  { rob := Rob.empty, idleCycles := 0, idleStreak := 0, thisFrameRobFullStalls := 0,
    thisFrameMemFullStalls := 0 }

/-- End a streak of idle cycles (`streakCalculator`). -/
def streakCalculator (p : Pipeline) : Pipeline :=
  -- The length of the streak goes to a report only.
  if 0 < p.idleStreak then { p with idleStreak := 0 } else p

/--
One round of `inOrderProcess`.

`accepted` is the answer of the agent in case the round sends a request.
-/
def inOrderRound (ticks : Int) (accepted : Bool) (p : Pipeline) : Except CoreFault Pipeline :=
  if 0 < p.rob.outstandingTransactionsSize then
    match p.rob.outstandingTransactions with
    | [] => .error .robEmpty
    | head :: _ =>
      if head.isMemory then
        -- The memory has answered the head.
        if head.canBeCommitted then do
          let rob ← p.rob.commitMemory
          return { p with rob, idleCycles := 0 }
        else if !head.isIssued then
          -- A refused request is offered again in the next round.
          if accepted then do
            let rob ← p.rob.issueToMem 0 head ticks
            return { p with rob }
          else .ok { p with thisFrameMemFullStalls := p.thisFrameMemFullStalls + 1 }
        else
          -- The head waits for its response, and everything behind it waits too.
          .ok { p with
            thisFrameRobFullStalls := p.thisFrameRobFullStalls + 1
            idleCycles := p.idleCycles + 1 }
      else if 0 < head.numberOfInstructions then do
        let rob ← p.rob.commitInstruction 0 head
        return { p with rob }
      -- The round that finds no instruction left removes the entry and does nothing else.
      else if head.numberOfInstructions = 0 then do
        let rob ← p.rob.commitEmpty head
        return { p with rob }
      else .ok p
  -- The buffer ran dry.
  else .ok { p with idleCycles := p.idleCycles + 1 }

/-- One tick of in-order issue (`inOrderProcess`). -/
def inOrderProcess (issueWidth : Nat) (ticks : Int) (accepts : Nat → Bool) (p : Pipeline) :
    Except CoreFault Pipeline :=
  (List.range issueWidth).foldlM (fun p j => p.inOrderRound ticks (accepts j)) p

/-- How a round of `process` hands over to the next one. -/
inductive Next
  /-- The round used its issue slot. -/
  | slot
  /-- The round found nothing to do at its place and keeps the slot (`j--; continue`). -/
  | again
  /-- The round reached the end of the buffer (`break`). -/
  | stop
  deriving DecidableEq, Repr

/-- Compute instructions at the head leave the count of those executed ahead. -/
def drainHead (head : Transaction) (p : Pipeline) : Except CoreFault Pipeline := do
  -- What was executed ahead counts against the limit only until its entry is the head.
  let rob := { p.rob.setTransaction 0 head.resetInstrCommitted with
    numberOfInstrExecutedOoO := p.rob.numberOfInstrExecutedOoO - head.instrExecutedOoo }
  let p := { p with rob, idleCycles := 0 }.streakCalculator
  if head.numberOfInstructions = 0 then do
    let rob ← p.rob.commitEmpty head.resetInstrCommitted
    return { p with rob }
  else return p

/-- Execute an instruction ahead of its turn. -/
def executeAhead (i : Nat) (t : Transaction) (p : Pipeline) : Except CoreFault Pipeline := do
  let rob ← p.rob.commitInstruction i t
  return { p with
    rob := { rob with numberOfInstrExecutedOoO := rob.numberOfInstrExecutedOoO + 1 }
    }.streakCalculator

/-- The part of a round that works behind a head that cannot be removed. -/
def behindHead (ticks : Int) (accepted : Bool) (robCheckHead : Nat) (p : Pipeline) :
    Except CoreFault (Pipeline × Nat × Next) :=
  -- The head may have been removed just before, so the size is tested again.
  if p.rob.numberOfInstrExecutedOoO < robSize ∧ 0 < p.rob.outstandingTransactionsSize then
    match p.rob.outstandingTransactions with
    | [] => .error .robEmpty
    | head :: _ =>
      if !head.isMemory && decide (0 < head.numberOfInstructions) then do
        let p ← p.executeAhead 0 head
        return (p, robCheckHead, .slot)
      -- Behind a load or store that waits, each round looks one place further.
      else if !head.canBeCommitted && head.isMemory then
        if p.rob.outstandingTransactionsSize ≤ robCheckHead + 1 then
          .ok (p, robCheckHead + 1, .stop)
        else
          match p.rob.outstandingTransactions[robCheckHead + 1]? with
          | none => .error .robEmpty
          | some t =>
            -- A place with nothing to start costs no slot.
            if t.isMemory && !t.isIssued then
              if accepted then do
                let rob ← p.rob.issueToMem (robCheckHead + 1) t ticks
                return ({ p with rob }.streakCalculator, robCheckHead + 1, .slot)
              else
                .ok ({ p with thisFrameMemFullStalls := p.thisFrameMemFullStalls + 1 },
                  robCheckHead + 1, .slot)
            else if !t.isMemory && decide (0 < t.numberOfInstructions) then do
              let p ← p.executeAhead (robCheckHead + 1) t
              return (p, robCheckHead + 1, .slot)
            else .ok (p, robCheckHead + 1, .again)
      else .ok (p, robCheckHead, .slot)
  else
    -- As many instructions as the buffer allows were executed ahead, or the buffer ran empty.
    .ok ({ p with
      thisFrameRobFullStalls := p.thisFrameRobFullStalls + 1
      idleCycles := p.idleCycles + 1
      idleStreak := p.idleStreak + 1 }, robCheckHead, .slot)

/-- One round of `process`. -/
def processRound (ticks : Int) (accepted : Bool) (robCheckHead : Nat) (p : Pipeline) :
    Except CoreFault (Pipeline × Nat × Next) :=
  if 0 < p.rob.outstandingTransactionsSize then
    match p.rob.outstandingTransactions with
    | [] => .error .robEmpty
    | head :: _ =>
      if head.isMemory then
        if head.canBeCommitted then do
          let p := { p with idleCycles := 0 }.streakCalculator
          let rob ← p.rob.commitMemory
          return ({ p with rob }, robCheckHead, .slot)
        -- Here, unlike in order, a refused request is not counted as a stall.
        else if !head.isIssued then
          if accepted then do
            let rob ← p.rob.issueToMem 0 head ticks
            return ({ p with rob }, robCheckHead, .slot)
          else .ok (p, robCheckHead, .slot)
        -- The head waits for its response, and the round goes on behind it.
        else p.behindHead ticks accepted robCheckHead
      else do
        let p ← p.drainHead head
        p.behindHead ticks accepted robCheckHead
  else
    .ok ({ p with idleCycles := p.idleCycles + 1, idleStreak := p.idleStreak + 1 },
      robCheckHead, .slot)

/-- The rounds of `process` from slot `j` on, at most `fuel` of them. -/
def processRounds (issueWidth : Nat) (ticks : Int) (accepts : Nat → Bool) :
    Nat → Nat → Nat → Pipeline → Except CoreFault Pipeline
  | 0, _, _, _ => .error .outOfFuel
  | fuel + 1, j, robCheckHead, p =>
    if j < issueWidth then do
      let (p, robCheckHead, next) ← p.processRound ticks (accepts j) robCheckHead
      match next with
      | .slot => processRounds issueWidth ticks accepts fuel (j + 1) robCheckHead p
      -- The loop variable is decremented, so the same slot is used once more.
      | .again => processRounds issueWidth ticks accepts fuel j robCheckHead p
      | .stop => return p
    else .ok p

/--
One tick of out-of-order issue (`process`).

A round either uses up a slot or moves on in the buffer, which bounds their number.
-/
def process (issueWidth : Nat) (ticks : Int) (accepts : Nat → Bool) (p : Pipeline) :
    Except CoreFault Pipeline :=
  processRounds issueWidth ticks accepts
    (issueWidth + p.rob.outstandingTransactions.length + 1) 0 0 p

end Pipeline

end GemDroid
