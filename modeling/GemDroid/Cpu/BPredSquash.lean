import GemDroid.Cpu.BPredRun

/-! Squashing undoes the predictions after a branch, in the histories and on the return stack. -/

namespace GemDroid

/-- A branch for which fetch asks for a prediction. -/
structure Fetched (PCState StaticInst : Type) where
  inst : StaticInst
  seqNum : Nat
  pc : PCState

namespace BPredUnit

variable {PCState StaticInst Tables BPHistory : Type} {isa : BranchIsa PCState StaticInst}
  {bp : DirectionPredictor Tables BPHistory} {unit u : BPredUnit PCState Tables BPHistory}
  {squashed_sn : Nat} {calls : List (Fetched PCState StaticInst)}
  {hs : List (PredictorHistory PCState BPHistory)}

/-- Predicts a branch that comes after the one with the sequence number. -/
def predictAfter (isa : BranchIsa PCState StaticInst) (bp : DirectionPredictor Tables BPHistory)
    (squashed_sn : Nat) (unit : BPredUnit PCState Tables BPHistory)
    (branch : Fetched PCState StaticInst) : Option (BPredUnit PCState Tables BPHistory) :=
  if squashed_sn < branch.seqNum then
    some (unit.predict isa bp branch.inst branch.seqNum branch.pc).1
  else none

/-- Is the branch predicted taken by the direction predictor? -/
def goesTaken (isa : BranchIsa PCState StaticInst) (bp : DirectionPredictor Tables BPHistory)
    (unit : BPredUnit PCState Tables BPHistory) (branch : Fetched PCState StaticInst) : Bool :=
  (unit.direction isa bp branch.inst branch.pc).1

/-- Is the branch one whose target could only come from the target buffer, which has none? -/
def lacksTarget (isa : BranchIsa PCState StaticInst) (unit : BPredUnit PCState Tables BPHistory)
    (branch : Fetched PCState StaticInst) : Bool :=
  !isa.isReturn branch.inst && !isa.isCall branch.inst &&
    !unit.BTB.valid (isa.instAddr branch.pc)

/-- Is the branch predicted as a return, which pops the return stack? -/
def returns (isa : BranchIsa PCState StaticInst) (bp : DirectionPredictor Tables BPHistory)
    (unit : BPredUnit PCState Tables BPHistory) (branch : Fetched PCState StaticInst) : Bool :=
  unit.goesTaken isa bp branch && isa.isReturn branch.inst

/-- Is the branch predicted as a call, which pushes the return stack? -/
def pushes (isa : BranchIsa PCState StaticInst) (bp : DirectionPredictor Tables BPHistory)
    (unit : BPredUnit PCState Tables BPHistory) (branch : Fetched PCState StaticInst) : Bool :=
  unit.goesTaken isa bp branch && !isa.isReturn branch.inst && isa.isCall branch.inst

/-- One round of the loop of `squash`. -/
def undone (bp : DirectionPredictor Tables BPHistory) (unit : BPredUnit PCState Tables BPHistory)
    (h : PredictorHistory PCState BPHistory) : BPredUnit PCState Tables BPHistory :=
  { unit with RAS := undoRAS unit.RAS h, tables := bp.squash unit.tables h.bpHistory }

/-- What a prediction does to the return stack, and what it records for undoing that. -/
inductive StackChange (RAS : ReturnAddrStack PCState) (pc : PCState) (returns pushes : Bool)
    (h : PredictorHistory PCState BPHistory) : ReturnAddrStack PCState → Prop
  | kept (other : returns = false) (unused : h.usedRAS = false) (unpushed : h.pushedRAS = false) :
    StackChange RAS pc returns pushes h RAS
  | popped (return' : returns = true) (used : h.usedRAS = true) (index : h.RASIndex = RAS.tos)
    (target : h.RASTarget = RAS.addrStack RAS.tos) : StackChange RAS pc returns pushes h RAS.pop
  | pushed (other : returns = false) (call : pushes = true) (unused : h.usedRAS = false)
    (called : h.wasCall = true) (pushed : h.pushedRAS = true) :
    StackChange RAS pc returns pushes h (RAS.push pc)
  | tried (other : returns = false) (call : pushes = true) (unused : h.usedRAS = false)
    (unpushed : h.pushedRAS = false) : StackChange RAS pc returns pushes h (RAS.push pc).pop

/-- What a prediction does to the tables, the return stack and the history. -/
structure Predicted (isa : BranchIsa PCState StaticInst)
    (bp : DirectionPredictor Tables BPHistory) (unit : BPredUnit PCState Tables BPHistory)
    (branch : Fetched PCState StaticInst) (record : PredictorHistory PCState BPHistory)
    (after : BPredUnit PCState Tables BPHistory) : Prop where
  predHist : after.predHist = record :: unit.predHist
  seqNum : record.seqNum = branch.seqNum
  bpHistory : record.bpHistory = (unit.direction isa bp branch.inst branch.pc).2.1
  tables : after.tables =
    if unit.goesTaken isa bp branch && unit.lacksTarget isa branch then
      bp.btbUpdate (unit.direction isa bp branch.inst branch.pc).2.2 (isa.instAddr branch.pc)
        record.bpHistory
    else (unit.direction isa bp branch.inst branch.pc).2.2
  stack : StackChange unit.RAS branch.pc (unit.returns isa bp branch) (unit.pushes isa bp branch)
    record after.RAS

theorem predict_predicted (isa : BranchIsa PCState StaticInst)
    (bp : DirectionPredictor Tables BPHistory) (unit : BPredUnit PCState Tables BPHistory)
    (branch : Fetched PCState StaticInst) :
    ∃ record, Predicted isa bp unit branch record
      (unit.predict isa bp branch.inst branch.seqNum branch.pc).1 := by
  unfold predict
  generalize chosen : unit.direction isa bp branch.inst branch.pc = direction
  obtain ⟨pred_taken, bpHistory, tables⟩ := direction
  have taken : unit.goesTaken isa bp branch = pred_taken := by rw [goesTaken, chosen]
  dsimp only
  -- The cases are the places where the code records the prediction.
  cases pred_taken with
  | false =>
    refine ⟨_, rfl, rfl, by rw [chosen], ?_, .kept ?_ rfl rfl⟩
    · rw [taken, chosen]
      rfl
    · rw [returns, taken]
      rfl
  | true =>
    cases isReturn : isa.isReturn branch.inst with
    | true =>
      refine ⟨_, rfl, rfl, by rw [chosen], ?_, .popped ?_ rfl rfl rfl⟩
      · rw [chosen, lacksTarget, isReturn]
        simp
      · rw [returns, taken, isReturn]
        rfl
    | false =>
      have other : unit.returns isa bp branch = false := by
        rw [returns, taken, isReturn]
        rfl
      cases isCall : isa.isCall branch.inst with
      | true =>
        have call : unit.pushes isa bp branch = true := by
          rw [pushes, taken, isReturn, isCall]
          rfl
        have kept : unit.lacksTarget isa branch = false := by
          rw [lacksTarget, isCall]
          simp
        cases hit : unit.BTB.valid (isa.instAddr branch.pc) with
        | true =>
          refine ⟨_, rfl, rfl, by rw [chosen]; rfl, ?_, .pushed other call rfl rfl rfl⟩
          rw [chosen, kept]
          simp
        | false =>
          cases isUncondCtrl : isa.isUncondCtrl branch.inst with
          | true =>
            refine ⟨_, rfl, rfl, by rw [chosen]; rfl, ?_, .pushed other call rfl rfl rfl⟩
            rw [chosen, kept]
            simp
          | false =>
            refine ⟨_, rfl, rfl, by rw [chosen]; rfl, ?_, .tried other call rfl rfl⟩
            rw [chosen, kept]
            simp
      | false =>
        cases hit : unit.BTB.valid (isa.instAddr branch.pc) with
        | true =>
          refine ⟨_, rfl, rfl, by rw [chosen]; rfl, ?_, .kept other rfl rfl⟩
          rw [chosen, lacksTarget, hit]
          simp
        | false =>
          refine ⟨_, rfl, rfl, by rw [chosen]; rfl, ?_, .kept other rfl rfl⟩
          rw [chosen, taken, lacksTarget, hit, isReturn, isCall]
          rfl

theorem predictAfter_predicted {after : BPredUnit PCState Tables BPHistory}
    {branch : Fetched PCState StaticInst}
    (stepped : predictAfter isa bp squashed_sn unit branch = some after) :
    squashed_sn < branch.seqNum ∧ ∃ record, Predicted isa bp unit branch record after := by
  rw [predictAfter] at stepped
  split at stepped
  case isFalse => cases stepped
  case isTrue later =>
    cases stepped
    exact ⟨later, predict_predicted isa bp unit branch⟩

theorem squashLoop_append (younger : ∀ h ∈ hs, squashed_sn < h.seqNum)
    {older : List (PredictorHistory PCState BPHistory)} (kept : ∀ h ∈ older, h.seqNum ≤ squashed_sn)
    (u : BPredUnit PCState Tables BPHistory) :
    squashLoop bp squashed_sn (hs ++ older) u = (older, hs.foldl (undone bp) u) := by
  induction hs generalizing u with
  | nil =>
    cases older with
    | nil => rfl
    | cons front rest =>
      have stays := kept front (by simp)
      rw [List.nil_append, squashLoop, if_neg (by omega)]
      rfl
  | cons front rest ih =>
    rw [List.cons_append, squashLoop, if_pos (younger front (by simp)), List.foldl_cons]
    exact ih (fun h member => younger h (by simp [member])) _

/-- Squashing takes the predictions back one by one, the youngest one first. -/
theorem unwind
    {motive : BPredUnit PCState Tables BPHistory → List (Fetched PCState StaticInst) →
      BPredUnit PCState Tables BPHistory → Prop}
    (last : ∀ u, motive u [] u)
    (back : ∀ unit branch calls record after v, Predicted isa bp unit branch record after →
      predictAfter isa bp squashed_sn unit branch = some after → motive after calls v →
      motive unit (branch :: calls) (undone bp v record))
    (older : ∀ h ∈ unit.predHist, h.seqNum ≤ squashed_sn)
    (ran : Machine.run (predictAfter isa bp squashed_sn) unit calls = some u) :
    ∃ v, motive unit calls v ∧ u.squash bp squashed_sn = { v with predHist := unit.predHist } := by
  -- The new records are in front of the old ones, and the loop takes just them.
  suffices records : ∃ hs, u.predHist = hs ++ unit.predHist ∧
      (∀ h ∈ hs, squashed_sn < h.seqNum) ∧ motive unit calls (hs.foldl (undone bp) u) by
    obtain ⟨hs, hist, younger, holds⟩ := records
    refine ⟨_, holds, ?_⟩
    rw [squash, hist, squashLoop_append younger older]
  clear older
  induction calls generalizing unit with
  | nil =>
    cases ran
    exact ⟨[], rfl, by simp, last u⟩
  | cons branch calls ih =>
    rw [Machine.run_cons, Option.bind_eq_some_iff] at ran
    obtain ⟨after, stepped, rest⟩ := ran
    obtain ⟨later, record, predicted⟩ := predictAfter_predicted stepped
    obtain ⟨hs, hist, younger, holds⟩ := ih rest
    refine ⟨hs ++ [record], ?_, ?_, ?_⟩
    · rw [hist, predicted.predHist, List.append_assoc]
      rfl
    · intro h member
      rw [List.mem_append, List.mem_singleton] at member
      cases member with
      | inl new => exact younger h new
      | inr here => rw [here, predicted.seqNum]; exact later
    · rw [List.foldl_append]
      exact back unit branch calls record _ _ predicted stepped holds

end BPredUnit

namespace TournamentBP

variable {params : TournamentParams} {t : TournamentBP}

end TournamentBP

namespace BPredUnit

open TournamentBP

variable {PCState StaticInst : Type} {isa : BranchIsa PCState StaticInst}
  {params : TournamentParams} {unit u : BPredUnit PCState TournamentBP BPHistory}
  {squashed_sn : Nat} {calls : List (Fetched PCState StaticInst)}

/-- A tournament predictor that has seen no branch. -/
def untrained : BPredUnit Addr TournamentBP BPHistory where
  tables := .create BPredRun.defaultParams
  BTB := ⟨4096, 16, 2, fun _ => ⟨0, 0, false⟩⟩
  RAS := { numEntries := 16, addrStack := fun _ => 0 }

end BPredUnit

namespace ReturnAddrStack

variable {PCState : Type} {RAS q : ReturnAddrStack PCState}

/-- Where the entry is that lies so far below the top. -/
def slot (RAS : ReturnAddrStack PCState) (k : Nat) : Nat :=
  if k ≤ RAS.tos then RAS.tos - k else RAS.tos + RAS.numEntries - k

/-- The top is one of the entries, and no more of them are in use than there are. -/
structure Formed (RAS : ReturnAddrStack PCState) : Prop where
  inside : RAS.tos < RAS.numEntries
  fits : RAS.usedEntries ≤ RAS.numEntries

/-- The top is where it was, and the entries below it that were in use are the same. -/
structure EntriesBack (before after : ReturnAddrStack PCState) : Prop where
  numEntries : after.numEntries = before.numEntries
  tos : after.tos = before.tos
  entries : ∀ k < before.usedEntries,
    after.addrStack (before.slot k) = before.addrStack (before.slot k)

/-- The stack is as it was, as far as it was in use. -/
structure StackBack (before after : ReturnAddrStack PCState) : Prop
    extends EntriesBack before after where
  usedEntries : after.usedEntries = before.usedEntries

theorem Formed.push (formed : RAS.Formed) (pc : PCState) : (RAS.push pc).Formed := by
  obtain ⟨inside, fits⟩ := formed
  constructor
  · show (if RAS.tos + 1 = RAS.numEntries then 0 else RAS.tos + 1) < RAS.numEntries
    split <;> omega
  · show (if RAS.usedEntries ≠ RAS.numEntries then RAS.usedEntries + 1 else RAS.usedEntries) ≤
      RAS.numEntries
    split <;> omega

theorem Formed.pop (formed : RAS.Formed) : RAS.pop.Formed := by
  obtain ⟨inside, fits⟩ := formed
  constructor
  · show (if RAS.tos = 0 then RAS.numEntries - 1 else RAS.tos - 1) < RAS.numEntries
    split <;> omega
  · show RAS.usedEntries - 1 ≤ RAS.numEntries
    omega

theorem Formed.pop_push_tos (formed : RAS.Formed) (pc : PCState) :
    (RAS.push pc).pop.tos = RAS.tos := by
  have inside := formed.inside
  show (if (if RAS.tos + 1 = RAS.numEntries then 0 else RAS.tos + 1) = 0 then RAS.numEntries - 1
    else (if RAS.tos + 1 = RAS.numEntries then 0 else RAS.tos + 1) - 1) = RAS.tos
  split <;> split <;> omega

theorem Formed.slot_pop (formed : RAS.Formed) {k : Nat} (below : k + 1 < RAS.numEntries) :
    RAS.pop.slot k = RAS.slot (k + 1) := by
  have inside := formed.inside
  show (if k ≤ (if RAS.tos = 0 then RAS.numEntries - 1 else RAS.tos - 1) then
      (if RAS.tos = 0 then RAS.numEntries - 1 else RAS.tos - 1) - k
    else (if RAS.tos = 0 then RAS.numEntries - 1 else RAS.tos - 1) + RAS.numEntries - k) =
    if k + 1 ≤ RAS.tos then RAS.tos - (k + 1) else RAS.tos + RAS.numEntries - (k + 1)
  split <;> split <;> split <;> omega

theorem Formed.slot_push (formed : RAS.Formed) (pc : PCState) {k : Nat}
    (below : k + 1 < RAS.numEntries) : (RAS.push pc).slot (k + 1) = RAS.slot k := by
  have inside := formed.inside
  show (if k + 1 ≤ (if RAS.tos + 1 = RAS.numEntries then 0 else RAS.tos + 1) then
      (if RAS.tos + 1 = RAS.numEntries then 0 else RAS.tos + 1) - (k + 1)
    else (if RAS.tos + 1 = RAS.numEntries then 0 else RAS.tos + 1) + RAS.numEntries - (k + 1)) =
    if k ≤ RAS.tos then RAS.tos - k else RAS.tos + RAS.numEntries - k
  split <;> split <;> split <;> omega

theorem Formed.slot_ne_tos (formed : RAS.Formed) {k : Nat} (positive : 0 < k)
    (below : k < RAS.numEntries) : RAS.slot k ≠ RAS.tos := by
  have inside := formed.inside
  rw [slot]
  split <;> omega

theorem Formed.push_entry (formed : RAS.Formed) (room : RAS.usedEntries < RAS.numEntries)
    (pc : PCState) {k : Nat} (used : k < RAS.usedEntries) :
    (RAS.push pc).addrStack (RAS.slot k) = RAS.addrStack (RAS.slot k) := by
  have elsewhere : RAS.slot k ≠ (RAS.push pc).tos := by
    rw [← formed.slot_push pc (by omega)]
    exact (formed.push pc).slot_ne_tos (Nat.succ_pos k) (show k + 1 < RAS.numEntries by omega)
  exact Function.update_of_ne elsewhere _ _

/-- A push of an address, or else a pop. -/
def act (RAS : ReturnAddrStack PCState) : Option PCState → ReturnAddrStack PCState
  | some return_addr => RAS.push return_addr
  | none => RAS.pop

/-- A stack that loses its oldest address where a push finds it full. -/
def boundedAct (numEntries : Nat) (stack : List PCState) : Option PCState → List PCState
  | some return_addr => (return_addr :: stack).take numEntries
  | none => stack.tail

/-- The entries in use are the addresses of the stack, from the top down. -/
structure Lists (numEntries : Nat) (stack : List PCState) (RAS : ReturnAddrStack PCState) : Prop
    extends Formed RAS where
  size : RAS.numEntries = numEntries
  used : RAS.usedEntries = stack.length
  entries : ∀ k (below : k < stack.length), RAS.addrStack (RAS.slot k) = stack[k]

theorem Lists.act {numEntries : Nat} {stack : List PCState} (lists : Lists numEntries stack RAS)
    (a : Option PCState) : Lists numEntries (boundedAct numEntries stack a) (RAS.act a) := by
  obtain ⟨formed, rfl, used, entries⟩ := lists
  have fits := formed.fits
  have inside := formed.inside
  cases a with
  | some return_addr =>
    refine ⟨formed.push return_addr, rfl, ?_, fun k below => ?_⟩
    · show (if RAS.usedEntries ≠ RAS.numEntries then RAS.usedEntries + 1 else RAS.usedEntries) = _
      rw [boundedAct, List.length_take, List.length_cons, used]
      split <;> omega
    · rw [boundedAct, List.length_take, List.length_cons] at below
      simp only [boundedAct, List.getElem_take]
      cases k with
      | zero => exact Function.update_self _ _ _
      | succ k =>
        -- The push writes over a free entry, or over the address that the stack loses.
        have other := (formed.push return_addr).slot_ne_tos k.succ_pos
          (show k + 1 < RAS.numEntries by omega)
        refine (Function.update_of_ne other _ _).trans ?_
        rw [formed.slot_push return_addr (by omega)]
        exact entries k (by omega)
  | none =>
    refine ⟨formed.pop, rfl, ?_, fun k below => ?_⟩
    · show RAS.usedEntries - 1 = _
      rw [boundedAct, List.length_tail, used]
    · simp only [boundedAct, List.length_tail, List.getElem_tail] at below ⊢
      rw [← entries (k + 1) (by omega), ← formed.slot_pop (by omega)]
      rfl

/-- The circle is a stack of its size that loses the oldest addresses. -/
theorem refines_bounded (n : Nat) (addrStack : Nat → PCState) (acts : List (Option PCState)) :
    Lists (n + 1) (acts.foldl (boundedAct (n + 1)) [])
      (acts.foldl act { numEntries := n + 1, addrStack }) := by
  induction acts using List.reverseRecOn with
  | nil => exact ⟨⟨n.succ_pos, Nat.zero_le _⟩, rfl, rfl, fun k below => by simp at below⟩
  | append_singleton acts a ih =>
    rw [List.foldl_concat, List.foldl_concat]
    exact ih.act a

end ReturnAddrStack

namespace BPredUnit

open ReturnAddrStack TournamentBP

section

variable {PCState StaticInst Tables BPHistory : Type} {isa : BranchIsa PCState StaticInst}
  {bp : DirectionPredictor Tables BPHistory} {unit u : BPredUnit PCState Tables BPHistory}
  {squashed_sn : Nat} {calls : List (Fetched PCState StaticInst)}
  {RAS after q : ReturnAddrStack PCState} {pc : PCState} {returns pushes : Bool}
  {h : PredictorHistory PCState BPHistory}

theorem StackChange.formed (change : StackChange RAS pc returns pushes h after)
    (formed : RAS.Formed) : after.Formed := by
  cases change with
  | kept => exact formed
  | popped => exact formed.pop
  | pushed => exact formed.push pc
  | tried => exact (formed.push pc).pop

/-- Undoing a change gives back the entries below the top, if there was room for what it pushed. -/
theorem StackChange.undo_entries (change : StackChange RAS pc returns pushes h after)
    (formed : RAS.Formed) (room : pushes = true → RAS.usedEntries < RAS.numEntries)
    (back : EntriesBack after q) : EntriesBack RAS (undoRAS q h) := by
  obtain ⟨numEntries, tos, entries⟩ := back
  have fits := formed.fits
  cases change with
  | kept other unused unpushed =>
    rw [undoRAS, if_neg (by simp [unused]), if_neg (by simp [unpushed])]
    exact ⟨numEntries, tos, entries⟩
  | popped return' used index target =>
    rw [undoRAS, if_pos used, index, target]
    refine ⟨numEntries, rfl, fun k inUse => ?_⟩
    show Function.update q.addrStack RAS.tos _ (RAS.slot k) = _
    cases k with
    | zero =>
      have top : RAS.slot 0 = RAS.tos := by simp [slot]
      rw [top, Function.update_self]
    | succ k =>
      rw [Function.update_of_ne (formed.slot_ne_tos (Nat.succ_pos k) (by omega)),
        ← formed.slot_pop (by omega)]
      exact entries k (show k < RAS.usedEntries - 1 by omega)
  | pushed other call unused called pushed =>
    have room := room call
    rw [undoRAS, if_neg (by simp [unused]), if_pos (by simp [called, pushed])]
    refine ⟨numEntries, ?_, fun k inUse => ?_⟩
    · show (if q.tos = 0 then q.numEntries - 1 else q.tos - 1) = RAS.tos
      rw [tos, numEntries]
      exact formed.pop_push_tos pc
    · have more : k + 1 < (RAS.push pc).usedEntries := by
        show k + 1 < if RAS.usedEntries ≠ RAS.numEntries then _ else _
        rw [if_pos (by omega)]
        omega
      rw [← formed.push_entry room pc inUse, ← formed.slot_push pc (by omega)]
      exact entries (k + 1) more
  | tried other call unused unpushed =>
    have room := room call
    rw [undoRAS, if_neg (by simp [unused]), if_neg (by simp [unpushed])]
    refine ⟨numEntries, tos.trans (formed.pop_push_tos pc), fun k inUse => ?_⟩
    have same : (RAS.push pc).pop.usedEntries = RAS.usedEntries := by
      show (if RAS.usedEntries ≠ RAS.numEntries then _ else _) - 1 = _
      rw [if_pos (by omega)]
      omega
    have place : (RAS.push pc).pop.slot k = RAS.slot k := by
      rw [(formed.push pc).slot_pop (show k + 1 < RAS.numEntries by omega),
        formed.slot_push pc (by omega)]
    rw [← formed.push_entry room pc inUse, ← place]
    exact entries k (same ▸ inUse)

/-- The count is at most what it was, and is the same when that was nothing or nothing popped. -/
structure CountBack (before : Nat) (unpopped : Prop) (after : Nat) : Prop where
  atMost : after ≤ before
  same : after = before ↔ before = 0 ∨ unpopped

/-- Undoing a change gives back the count of entries, except that of the one that it popped. -/
theorem StackChange.undo_count (change : StackChange RAS pc returns pushes h after)
    (room : pushes = true → RAS.usedEntries < RAS.numEntries)
    {unpopped : Prop} (back : CountBack after.usedEntries unpopped q.usedEntries) :
    CountBack RAS.usedEntries (returns = false ∧ unpopped) (undoRAS q h).usedEntries := by
  obtain ⟨atMost, same⟩ := back
  cases change with
  | kept other unused unpushed =>
    rw [undoRAS, if_neg (by simp [unused]), if_neg (by simp [unpushed])]
    exact ⟨atMost, by simp [same, other]⟩
  | popped return' used index target =>
    rw [undoRAS, if_pos used]
    show CountBack _ _ q.usedEntries
    have less : q.usedEntries ≤ RAS.usedEntries - 1 := atMost
    refine ⟨by omega, ?_⟩
    rw [return']
    simp only [Bool.true_eq_false, false_and, or_false]
    omega
  | pushed other call unused called pushed =>
    have room := room call
    have more : (RAS.push pc).usedEntries = RAS.usedEntries + 1 := if_pos (by omega)
    rw [undoRAS, if_neg (by simp [unused]), if_pos (by simp [called, pushed])]
    show CountBack _ _ (q.usedEntries - 1)
    rw [more] at atMost same
    refine ⟨by omega, ?_⟩
    by_cases clean : unpopped
    · have equal := same.mpr (.inr clean)
      simp only [other, clean, and_self, or_true, iff_true]
      omega
    · have differs : q.usedEntries ≠ RAS.usedEntries + 1 := by
        intro equal
        cases same.mp equal with
        | inl none => omega
        | inr clean' => exact clean clean'
      simp only [clean, and_false, or_false]
      omega
  | tried other call unused unpushed =>
    have room := room call
    have same' : (RAS.push pc).pop.usedEntries = RAS.usedEntries := by
      show (if RAS.usedEntries ≠ RAS.numEntries then _ else _) - 1 = _
      rw [if_pos (by omega)]
      omega
    rw [undoRAS, if_neg (by simp [unused]), if_neg (by simp [unpushed])]
    rw [same'] at atMost same
    exact ⟨atMost, by simp [same, other]⟩

/--
While calls find room on the return stack, a squash gives back its top and all entries that were
in use, and their number exactly when that was zero or no branch was predicted as a return.
-/
theorem squash_restores_stack (older : ∀ h ∈ unit.predHist, h.seqNum ≤ squashed_sn)
    (formed : unit.RAS.Formed)
    (room : Machine.Meets (predictAfter isa bp squashed_sn)
      (fun unit branch => unit.pushes isa bp branch = true →
        unit.RAS.usedEntries < unit.RAS.numEntries) unit calls)
    (ran : Machine.run (predictAfter isa bp squashed_sn) unit calls = some u) :
    StackBack unit.RAS (u.squash bp squashed_sn).RAS ↔ unit.RAS.usedEntries = 0 ∨
      Machine.Meets (predictAfter isa bp squashed_sn)
        (fun unit branch => unit.returns isa bp branch = false) unit calls := by
  -- The changes are undone from the last one, each in the state that it left behind.
  obtain ⟨v, undoes, squashed⟩ := unwind
    (motive := fun unit calls v => unit.RAS.Formed →
      Machine.Meets (predictAfter isa bp squashed_sn)
        (fun unit branch => unit.pushes isa bp branch = true →
          unit.RAS.usedEntries < unit.RAS.numEntries) unit calls →
      EntriesBack unit.RAS v.RAS ∧ CountBack unit.RAS.usedEntries
        (Machine.Meets (predictAfter isa bp squashed_sn)
          (fun unit branch => unit.returns isa bp branch = false) unit calls) v.RAS.usedEntries)
    (fun u _ _ => ⟨⟨rfl, rfl, fun k inUse => rfl⟩, Nat.le_refl _,
      by simp [Machine.Meets]⟩)
    (fun unit branch calls record after v predicted stepped back formed room => by
      obtain ⟨here, later⟩ := room after stepped
      obtain ⟨entries, count⟩ := back (predicted.stack.formed formed) later
      refine ⟨predicted.stack.undo_entries formed here entries, ?_⟩
      simp only [Machine.Meets, stepped, Option.some.injEq, forall_eq']
      exact predicted.stack.undo_count here count)
    older ran
  obtain ⟨entries, count⟩ := undoes formed room
  rw [squashed, ← count.same]
  exact ⟨fun back => back.usedEntries, fun same => ⟨entries, same⟩⟩

end

/-- Calls and returns, all of them unconditional, of a machine with addresses as its counters. -/
def callsAndReturns : BranchIsa Addr Bool where
  instAddr pc := pc
  zero := 0
  buildRetPC _ return_addr := return_addr + 4
  advancePC pc _ := pc + 4
  isUncondCtrl _ := true
  isCall inst := inst
  isReturn inst := !inst

/-- The stack comes back from two calls in a stack with one entry in use. -/
theorem squash_restores_stack_calls :
    ∃ u, Machine.run (predictAfter callsAndReturns (predictor BPredRun.defaultParams) 1)
        (untrained.predict callsAndReturns (predictor BPredRun.defaultParams) true 1 0x1000).1
        [⟨true, 2, 0x2000⟩, ⟨true, 3, 0x3000⟩] = some u ∧
      StackBack
        (untrained.predict callsAndReturns (predictor BPredRun.defaultParams) true 1 0x1000).1.RAS
        (u.squash (predictor BPredRun.defaultParams) 1).RAS := by
  have ran : (Machine.run (predictAfter callsAndReturns (predictor BPredRun.defaultParams) 1)
      (untrained.predict callsAndReturns (predictor BPredRun.defaultParams) true 1 0x1000).1
      [⟨true, 2, 0x2000⟩, ⟨true, 3, 0x3000⟩]) = some _ := rfl
  refine ⟨_, ran, ?_⟩
  refine (squash_restores_stack (by decide +kernel) ⟨by decide +kernel, by decide +kernel⟩ ?_
    ran).mpr (.inr ?_)
  · intro first stepped
    cases stepped
    refine ⟨by decide +kernel, fun second stepped => ?_⟩
    cases stepped
    exact ⟨by decide +kernel, trivial⟩
  · intro first stepped
    cases stepped
    refine ⟨by decide +kernel, fun second stepped => ?_⟩
    cases stepped
    exact ⟨by decide +kernel, trivial⟩

/-- After a return was predicted and squashed, the stack counts one entry less than it has. -/
theorem count_stays_decremented :
    ¬ ∀ (unit u : BPredUnit Addr TournamentBP BPHistory) squashed_sn calls,
      (∀ h ∈ unit.predHist, h.seqNum ≤ squashed_sn) → unit.RAS.Formed →
      Machine.Meets (predictAfter callsAndReturns (predictor BPredRun.defaultParams) squashed_sn)
        (fun unit branch =>
          unit.pushes callsAndReturns (predictor BPredRun.defaultParams) branch = true →
            unit.RAS.usedEntries < unit.RAS.numEntries) unit calls →
      Machine.run (predictAfter callsAndReturns (predictor BPredRun.defaultParams) squashed_sn)
        unit calls = some u →
      StackBack unit.RAS (u.squash (predictor BPredRun.defaultParams) squashed_sn).RAS := by
  intro every
  have back := every
    (untrained.predict callsAndReturns (predictor BPredRun.defaultParams) true 1 0x1000).1 _ 1
    [⟨false, 2, 0x2000⟩] (by decide +kernel) ⟨by decide +kernel, by decide +kernel⟩
    (fun first stepped => by
      cases stepped
      exact ⟨by decide +kernel, trivial⟩)
    rfl
  have count := back.usedEntries
  revert count
  decide +kernel

end BPredUnit

end GemDroid
