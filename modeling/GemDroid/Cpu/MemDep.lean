import GemDroid.Cpu.StoreSet

/-! The memory dependence unit, which holds back memory instructions until others have completed. -/

namespace GemDroid

open Function (update update_apply)

/-- What the memory dependence unit reads of an instruction. -/
structure MemInst where
  seqNum : Nat
  instAddr : Addr := 0
  isLoad : Bool := false
  isStore : Bool := false
  isMemBarrier : Bool := false
  isWriteBarrier : Bool := false

/-- The memory references are the loads and the stores. -/
def MemInst.isMemRef (inst : MemInst) : Bool :=
  inst.isLoad || inst.isStore

/-- An entry of the unit; entries point to each other by the numbers of their instructions. -/
structure MemDepEntry where
  inst : MemInst
  dependInsts : List Nat := []
  regsReady : Bool := false
  memDepReady : Bool := false
  squashed : Bool := false

/-- The assertions of the unit, its panic, and a squash of the predictor that does not return. -/
inductive MemDepFault where
  | notInHash
  | squashedEntry
  | unknownType
  | squashHangs
  deriving DecidableEq

/-- The unit of one thread. -/
structure MemDepUnit (Pred : Type) where
  depPred : Pred
  /-- Every entry that was ever made, by the number of its instruction. -/
  entries : Nat → MemDepEntry := fun _ => { inst := { seqNum := 0 } }
  /-- Whether the hash holds the entry of a number. -/
  memDepHash : Nat → Bool := fun _ => false
  instList : List Nat := []
  instsToReplay : List Nat := []
  loadBarrier : Bool := false
  loadBarrierSN : Nat := 0
  storeBarrier : Bool := false
  storeBarrierSN : Nat := 0
  /-- What the instruction queue was told is ready, and has not yet issued. -/
  readyInsts : List Nat := []

namespace MemDepUnit

variable {Pred : Type}

/-- A change of one entry. -/
def modify (u : MemDepUnit Pred) (s : Nat) (change : MemDepEntry → MemDepEntry) :
    MemDepUnit Pred :=
  { u with entries := update u.entries s (change (u.entries s)) }

/-- An entry must be in the hash. -/
def findInHash (u : MemDepUnit Pred) (s : Nat) : Except MemDepFault MemDepEntry :=
  if u.memDepHash s then .ok (u.entries s) else .error .notInHash

/-- An instruction is handed to the instruction queue as ready to issue. -/
def moveToReady (u : MemDepUnit Pred) (s : Nat) : Except MemDepFault (MemDepUnit Pred) :=
  if (u.entries s).squashed then .error .squashedEntry
  else .ok { u with readyInsts := u.readyInsts ++ [s] }

/-- A new entry joins the hash and the list. -/
def addEntry (u : MemDepUnit Pred) (inst : MemInst) : MemDepUnit Pred :=
  { u with
    entries := update u.entries inst.seqNum { inst }
    memDepHash := update u.memDepHash inst.seqNum true
    instList := u.instList ++ [inst.seqNum] }

/-- The unit waits for a barrier: loads for one, stores for one. -/
def addBarrier (u : MemDepUnit Pred) (barr_inst : MemInst) : MemDepUnit Pred :=
  if barr_inst.isMemBarrier then
    { u with
      loadBarrier := true
      loadBarrierSN := barr_inst.seqNum
      storeBarrier := true
      storeBarrierSN := barr_inst.seqNum }
  else if barr_inst.isWriteBarrier then
    { u with storeBarrier := true, storeBarrierSN := barr_inst.seqNum }
  else u

/-- A barrier joins the unit. -/
def insertBarrier (u : MemDepUnit Pred) (barr_inst : MemInst) : MemDepUnit Pred :=
  (u.addBarrier barr_inst).addEntry barr_inst

/-- The registers of an instruction are ready. -/
def regsReady (u : MemDepUnit Pred) (s : Nat) : Except MemDepFault (MemDepUnit Pred) := do
  let inst_entry ← u.findInHash s
  let u := u.modify s fun e => { e with regsReady := true }
  if inst_entry.memDepReady then u.moveToReady s else return u

/-- An instruction that was not speculative may now issue. -/
def nonSpecInstReady (u : MemDepUnit Pred) (s : Nat) : Except MemDepFault (MemDepUnit Pred) := do
  let _ ← u.findInHash s
  u.moveToReady s

/-- An instruction is to be executed again. -/
def reschedule (u : MemDepUnit Pred) (s : Nat) : MemDepUnit Pred :=
  { u with instsToReplay := u.instsToReplay ++ [s] }

/-- All instructions that are to be executed again become ready. -/
def replay (u : MemDepUnit Pred) : Except MemDepFault (MemDepUnit Pred) := do
  let u ← u.instsToReplay.foldlM nonSpecInstReady u
  return { u with instsToReplay := [] }

/-- An instruction leaves the hash and the list. -/
def completed (u : MemDepUnit Pred) (s : Nat) : Except MemDepFault (MemDepUnit Pred) := do
  let _ ← u.findInHash s
  return { u with
    memDepHash := update u.memDepHash s false
    instList := u.instList.erase s }

/-- A dependent is told that what it waits for is over. -/
def wake (u : MemDepUnit Pred) (s : Nat) : Except MemDepFault (MemDepUnit Pred) :=
  if (u.entries s).regsReady && !(u.entries s).squashed then u.moveToReady s
  else .ok (u.modify s fun e => { e with memDepReady := true })

/-- All dependents of a store or a barrier are told. -/
def wakeDependents (u : MemDepUnit Pred) (inst : MemInst) :
    Except MemDepFault (MemDepUnit Pred) :=
  if !inst.isStore && !inst.isMemBarrier && !inst.isWriteBarrier then .ok u
  else do
    let inst_entry ← u.findInHash inst.seqNum
    let u ← inst_entry.dependInsts.foldlM wake u
    return u.modify inst.seqNum fun e => { e with dependInsts := [] }

/-- The unit no longer waits for a barrier, if it was the last one. -/
def forgetBarrier (u : MemDepUnit Pred) (inst : MemInst) : MemDepUnit Pred :=
  if inst.isMemBarrier then
    { u with
      loadBarrier := u.loadBarrier && u.loadBarrierSN != inst.seqNum
      storeBarrier := u.storeBarrier && u.storeBarrierSN != inst.seqNum }
  else if inst.isWriteBarrier then
    { u with storeBarrier := u.storeBarrier && u.storeBarrierSN != inst.seqNum }
  else u

/-- A barrier completes. -/
def completeBarrier (u : MemDepUnit Pred) (inst : MemInst) :
    Except MemDepFault (MemDepUnit Pred) := do
  let u ← u.wakeDependents inst
  let u ← u.completed inst.seqNum
  return u.forgetBarrier inst

/-- What the instruction queue has the unit do when an instruction has completed. -/
def iqWakeDependents (u : MemDepUnit Pred) (completed_inst : MemInst) :
    Except MemDepFault (MemDepUnit Pred) :=
  if completed_inst.isMemRef then do
    (← u.wakeDependents completed_inst).completed completed_inst.seqNum
  else if completed_inst.isMemBarrier || completed_inst.isWriteBarrier then
    u.completeBarrier completed_inst
  else .ok u

/-- The youngest instruction is squashed. -/
def squashInst (u : MemDepUnit Pred) (s : Nat) : Except MemDepFault (MemDepUnit Pred) := do
  let u := { u with
    loadBarrier := u.loadBarrier && s != u.loadBarrierSN
    storeBarrier := u.storeBarrier && s != u.storeBarrierSN }
  let _ ← u.findInHash s
  let u := u.modify s fun e => { e with squashed := true }
  return { u with
    memDepHash := update u.memDepHash s false
    instList := u.instList.erase s }

/-- Instructions that are squashed are not executed again. -/
def dropReplays (u : MemDepUnit Pred) (squashed_num : Nat) : MemDepUnit Pred :=
  { u with instsToReplay := u.instsToReplay.filter fun s => s ≤ squashed_num }

/-- The loop over the list, from its end on. -/
def squashLoop (squashed_num : Nat) : List Nat → MemDepUnit Pred →
    Except MemDepFault (MemDepUnit Pred)
  | [], u => .ok u
  | s :: older, u =>
    if s > squashed_num then do squashLoop squashed_num older (← u.squashInst s) else .ok u

section

variable [MemDepPred Pred]

/-- The number of the instruction that another one is to wait for, or zero. -/
def producingStore (u : MemDepUnit Pred) (inst : MemInst) : Nat :=
  if inst.isLoad && u.loadBarrier then u.loadBarrierSN
  else if inst.isStore && u.storeBarrier then u.storeBarrierSN
  else MemDepPred.checkInst u.depPred inst.instAddr

/-- The instruction that another one is to wait for, if the hash still holds it. -/
def producerOf (u : MemDepUnit Pred) (inst : MemInst) : Option Nat :=
  let producing_store := u.producingStore inst
  if producing_store ≠ 0 ∧ u.memDepHash producing_store then some producing_store else none

/-- The predictor is told of a store. -/
def noteStore (u : MemDepUnit Pred) (inst : MemInst) : Except MemDepFault (MemDepUnit Pred) :=
  if inst.isStore then
    .ok { u with depPred := MemDepPred.insertStore u.depPred inst.instAddr inst.seqNum }
  else if inst.isLoad then .ok u
  else .error .unknownType

/-- An instruction that waits for none is ready as soon as its registers are. -/
def insertReady (u : MemDepUnit Pred) (s : Nat) (canIssue : Bool) :
    Except MemDepFault (MemDepUnit Pred) :=
  let u := u.modify s fun e => { e with memDepReady := true }
  if canIssue then (u.modify s fun e => { e with regsReady := true }).moveToReady s else .ok u

/-- An instruction joins those that wait for a store or a barrier. -/
def insertWaiting (u : MemDepUnit Pred) (s store : Nat) (canIssue : Bool) : MemDepUnit Pred :=
  let u := if canIssue then u.modify s fun e => { e with regsReady := true } else u
  u.modify store fun e => { e with dependInsts := e.dependInsts ++ [s] }

/-- A memory instruction joins the unit; returns whether it still can issue. -/
def insert (u : MemDepUnit Pred) (inst : MemInst) (canIssue : Bool) :
    Except MemDepFault (MemDepUnit Pred × Bool) :=
  let u := u.addEntry inst
  match u.producerOf inst with
  | none => do
    let u ← u.insertReady inst.seqNum canIssue
    return (← u.noteStore inst, canIssue)
  | some store => do
    return (← (u.insertWaiting inst.seqNum store canIssue).noteStore inst, false)

/-- A memory instruction that is not speculative joins the unit. -/
def insertNonSpec (u : MemDepUnit Pred) (inst : MemInst) :
    Except MemDepFault (MemDepUnit Pred) :=
  (u.addEntry inst).noteStore inst

/-- The instructions younger than a number are squashed. -/
def squash (u : MemDepUnit Pred) (squashed_num : Nat) :
    Except MemDepFault (MemDepUnit Pred) := do
  let u ← squashLoop squashed_num u.instList.reverse (u.dropReplays squashed_num)
  match MemDepPred.squash u.depPred squashed_num with
  | some depPred => return { u with depPred }
  | none => .error .squashHangs

/-- The predictor is told of a load that was executed before a store it conflicts with. -/
def violation (u : MemDepUnit Pred) (store_inst violating_load : Addr) : MemDepUnit Pred :=
  { u with depPred := MemDepPred.violation u.depPred store_inst violating_load }

/-- The predictor is told that an instruction is issued. -/
def issue (u : MemDepUnit Pred) (inst : MemInst) : MemDepUnit Pred :=
  { u with depPred := MemDepPred.issued u.depPred inst.instAddr inst.seqNum inst.isStore }

end

/-! What the loops of the unit come to. -/

/-- A dependent becomes ready when it is told. -/
def runs (u : MemDepUnit Pred) (s : Nat) : Bool :=
  (u.entries s).regsReady && !(u.entries s).squashed

/-- The unit after the instructions of a list were told. -/
def woken (u : MemDepUnit Pred) (list : List Nat) : MemDepUnit Pred :=
  { u with
    entries := fun s =>
      if s ∈ list ∧ u.runs s = false then { u.entries s with memDepReady := true }
      else u.entries s
    readyInsts := u.readyInsts ++ list.filter u.runs }

theorem wake_eq (u : MemDepUnit Pred) (s : Nat) : u.wake s = .ok (u.woken [s]) := by
  show (if u.runs s then u.moveToReady s else _) = _
  cases run : u.runs s with
  | true =>
    -- The assertion of `moveToReady` was tested before.
    have there : (u.entries s).squashed = false := by
      simp only [runs, Bool.and_eq_true, Bool.not_eq_true'] at run
      exact run.2
    have same : u.entries = (u.woken [s]).entries := by
      funext t
      by_cases here : t = s
      · simp [woken, here, run]
      · simp [woken, here]
    simp only [if_true, moveToReady, there, Bool.false_eq_true, if_false]
    rw [show (u.woken [s]) = { u with
      entries := (u.woken [s]).entries, readyInsts := u.readyInsts ++ [s].filter u.runs } from rfl,
      ← same]
    simp [run]
  | false =>
    have changed : (u.modify s fun e => { e with memDepReady := true }).entries =
        (u.woken [s]).entries := by
      funext t
      by_cases here : t = s
      · simp [modify, woken, here, run]
      · simp [modify, woken, here]
    simp only [Bool.false_eq_true, if_false]
    rw [show (u.woken [s]) = { u with
      entries := (u.woken [s]).entries, readyInsts := u.readyInsts ++ [s].filter u.runs } from rfl,
      ← changed]
    simp [run, modify]

theorem foldlM_wake (u : MemDepUnit Pred) (list : List Nat) (once : list.Nodup) :
    list.foldlM wake u = .ok (u.woken list) := by
  -- The induction follows the list; an instruction that was told is not told again.
  induction list generalizing u with
  | nil => simp [woken, pure, Except.pure]
  | cons s list ih =>
    obtain ⟨new, rest⟩ := List.nodup_cons.mp once
    have others (t : Nat) (member : t ∈ list) : (u.woken [s]).entries t = u.entries t := by
      have : t ≠ s := fun same => new (same ▸ member)
      simp [woken, this]
    have runs_eq : ∀ t ∈ list, (u.woken [s]).runs t = u.runs t := by
      intro t member
      rw [runs, others t member, runs]
    rw [List.foldlM_cons, wake_eq]
    show list.foldlM wake (u.woken [s]) = _
    rw [ih _ rest]
    congr 1
    unfold woken
    congr 1
    · funext t
      show (if t ∈ list ∧ (u.woken [s]).runs t = false then
        { (u.woken [s]).entries t with memDepReady := true } else (u.woken [s]).entries t) = _
      by_cases member : t ∈ list
      · rw [runs_eq t member, others t member]
        simp [member]
      · rw [if_neg fun both => member both.1]
        simp [woken, member]
    · show (u.readyInsts ++ [s].filter u.runs) ++ list.filter (u.woken [s]).runs = _
      rw [List.append_assoc, List.filter_congr runs_eq, ← List.filter_append]
      rfl

/-- The unit without the instructions younger than a number. -/
def withoutYounger (u : MemDepUnit Pred) (squashed_num : Nat) : MemDepUnit Pred :=
  { u with
    entries := fun s =>
      if u.memDepHash s = true ∧ squashed_num < s then { u.entries s with squashed := true }
      else u.entries s
    memDepHash := fun s => u.memDepHash s && decide (s ≤ squashed_num)
    instList := u.instList.filter fun s => s ≤ squashed_num
    loadBarrier := u.loadBarrier &&
      !(u.memDepHash u.loadBarrierSN && decide (squashed_num < u.loadBarrierSN))
    storeBarrier := u.storeBarrier &&
      !(u.memDepHash u.storeBarrierSN && decide (squashed_num < u.storeBarrierSN)) }

/-- Nothing goes when nothing is younger. -/
theorem withoutYounger_eq_self {u : MemDepUnit Pred} {squashed_num : Nat}
    (same : ∀ s, u.memDepHash s = true ↔ s ∈ u.instList)
    (old : ∀ s ∈ u.instList, s ≤ squashed_num) : u.withoutYounger squashed_num = u := by
  have kept (s : Nat) (held : u.memDepHash s = true) : s ≤ squashed_num :=
    old s ((same s).mp held)
  have entries : (u.withoutYounger squashed_num).entries = u.entries := by
    funext s
    refine if_neg ?_
    rintro ⟨held, younger⟩
    exact absurd (kept s held) (by omega)
  have hash : (u.withoutYounger squashed_num).memDepHash = u.memDepHash := by
    funext s
    cases held : u.memDepHash s with
    | false => simp [withoutYounger, held]
    | true => simp [withoutYounger, held, kept s held]
  have list : u.instList.filter (fun s => s ≤ squashed_num) = u.instList :=
    List.filter_eq_self.mpr fun s member => by simpa using old s member
  have flag (flag : Bool) (number : Nat) :
      (flag && !(u.memDepHash number && decide (squashed_num < number))) = flag := by
    cases held : u.memDepHash number with
    | false => simp
    | true => simp [Nat.not_lt.mpr (kept number held)]
  rw [show u.withoutYounger squashed_num = { u with
    entries := (u.withoutYounger squashed_num).entries
    memDepHash := (u.withoutYounger squashed_num).memDepHash
    instList := u.instList.filter fun s => s ≤ squashed_num
    loadBarrier := u.loadBarrier &&
      !(u.memDepHash u.loadBarrierSN && decide (squashed_num < u.loadBarrierSN))
    storeBarrier := u.storeBarrier &&
      !(u.memDepHash u.storeBarrierSN && decide (squashed_num < u.storeBarrierSN)) } from rfl,
    entries, hash, list, flag, flag]

/-- The unit after its youngest instruction was squashed. -/
def withoutLast (u : MemDepUnit Pred) (s : Nat) : MemDepUnit Pred :=
  { u with
    entries := update u.entries s { u.entries s with squashed := true }
    memDepHash := update u.memDepHash s false
    instList := u.instList.erase s
    loadBarrier := u.loadBarrier && s != u.loadBarrierSN
    storeBarrier := u.storeBarrier && s != u.storeBarrierSN }

theorem squashInst_eq {u : MemDepUnit Pred} {s : Nat} (held : u.memDepHash s = true) :
    u.squashInst s = .ok (u.withoutLast s) := by
  rw [squashInst, findInHash, if_pos held]
  rfl

theorem withoutLast_withoutYounger {u : MemDepUnit Pred} {s squashed_num : Nat}
    (held : u.memDepHash s = true) (younger : squashed_num < s) (once : u.instList.Nodup) :
    (u.withoutLast s).withoutYounger squashed_num = u.withoutYounger squashed_num := by
  unfold withoutYounger withoutLast
  congr 1
  · funext t
    by_cases here : t = s
    · simp [here, held, younger]
    · simp [here]
  · funext t
    by_cases here : t = s
    · simp [here, Nat.not_le.mpr younger]
    · simp [here]
  · dsimp only
    rw [once.erase_eq_filter, List.filter_filter]
    apply List.filter_congr
    intro t _
    by_cases here : t = s
    · simp [here, Nat.not_le.mpr younger]
    · simp [here]
  all_goals
    dsimp only
    rw [update_apply]
    split
    · rename_i here
      simp [here, held, younger]
    · rename_i other
      simp [bne_iff_ne.mpr (Ne.symm other)]

/-- The loop squashes what is younger, because the list is in order. -/
theorem squashLoop_eq {u : MemDepUnit Pred} (squashed_num : Nat)
    (sorted : u.instList.Pairwise (· < ·)) (same : ∀ s, u.memDepHash s = true ↔ s ∈ u.instList) :
    squashLoop squashed_num u.instList.reverse u = .ok (u.withoutYounger squashed_num) := by
  -- The induction follows the list from its end, and stops at the first that stays.
  generalize reversed : u.instList.reverse = list
  induction list generalizing u with
  | nil =>
    have empty : u.instList = [] := List.reverse_eq_nil_iff.mp reversed
    rw [squashLoop, withoutYounger_eq_self same]
    simp [empty]
  | cons s older ih =>
    have list : u.instList = older.reverse ++ [s] := by
      rw [← List.reverse_reverse u.instList, reversed, List.reverse_cons]
    have before : ∀ t ∈ older, t < s := by
      intro t member
      rw [list, List.pairwise_append] at sorted
      exact sorted.2.2 t (by simpa using member) s (by simp)
    rw [squashLoop]
    by_cases younger : s > squashed_num
    · have held : u.memDepHash s = true := (same s).mpr (by simp [list])
      have once : u.instList.Nodup := sorted.imp fun less => Nat.ne_of_lt less
      have rest : (u.withoutLast s).instList = older.reverse := by
        have new : s ∉ older.reverse := fun member =>
          absurd (before s (List.mem_reverse.mp member)) (by omega)
        show u.instList.erase s = _
        rw [list, List.erase_append_right _ new]
        simp
      rw [if_pos younger, squashInst_eq held]
      show squashLoop squashed_num older (u.withoutLast s) = _
      rw [ih (u := u.withoutLast s), withoutLast_withoutYounger held younger once]
      · rw [rest]
        rw [list] at sorted
        exact (List.pairwise_append.mp sorted).1
      · intro t
        show update u.memDepHash s false t = true ↔ t ∈ u.instList.erase s
        rw [once.mem_erase_iff, ← same t, update_apply]
        by_cases here : t = s
        · simp [here]
        · simp [here]
      · rw [rest, List.reverse_reverse]
    · rw [if_neg younger, withoutYounger_eq_self same]
      intro t member
      rw [list, List.mem_append, List.mem_reverse, List.mem_singleton] at member
      rcases member with member | rfl
      · have := before t member
        omega
      · omega

end MemDepUnit

end GemDroid
