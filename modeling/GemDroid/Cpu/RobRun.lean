import Mathlib.Algebra.BigOperators.Fin
import GemDroid.Cpu.Rob
import GemDroid.Lib.Quota
import GemDroid.Lib.Run

/-! The reorder buffer never overflows as long as the limits of its threads fit together. -/

namespace GemDroid

open Function (update update_apply update_eq_self)

open Quota

namespace ROBThread

variable {numThreads : Nat} {thread thread' changed : ROBThread numThreads}

/-- A thread keeps its counts, its limit and the length of its list. -/
structure SameCounts (thread thread' : ROBThread numThreads) : Prop where
  threadEntries : thread'.threadEntries = thread.threadEntries
  maxEntries : thread'.maxEntries = thread.maxEntries
  length : thread'.instList.length = thread.instList.length

theorem SameCounts.trans (first : SameCounts thread changed)
    (second : SameCounts changed thread') : SameCounts thread thread' :=
  ⟨second.threadEntries.trans first.threadEntries, second.maxEntries.trans first.maxEntries,
    second.length.trans first.length⟩

theorem modify_same (it : Nat) (change : ROBInst numThreads → ROBInst numThreads) :
    SameCounts thread (thread.modify it change) :=
  ⟨rfl, rfl, List.length_modify ..⟩

theorem checkSquash_same {it : Nat} (checked : thread.checkSquash it = some thread') :
    SameCounts thread thread' := by
  simp only [checkSquash, Option.bind_eq_bind, Option.bind_eq_some_iff] at checked
  obtain ⟨inst, _, result⟩ := checked
  split at result
  all_goals
    cases result
    exact ⟨rfl, rfl, rfl⟩

theorem squashLoop_same {it squashWidth : Nat} {robTailUpdate updates : Bool}
    (looped : thread.squashLoop it robTailUpdate squashWidth = some (thread', updates)) :
    SameCounts thread thread' := by
  -- The induction follows the instructions that one cycle may squash.
  induction squashWidth generalizing thread it robTailUpdate with
  | zero =>
    simp only [squashLoop, Option.bind_eq_bind, Option.bind_eq_some_iff] at looped
    obtain ⟨checked, test, result⟩ := looped
    cases result
    exact checkSquash_same test
  | succ squashWidth ih =>
    simp only [squashLoop, Option.bind_eq_bind, Option.bind_eq_some_iff] at looped
    obtain ⟨inst, _, result⟩ := looped
    split at result
    case isTrue younger =>
      split at result
      case isTrue oldest =>
        cases result
        exact (modify_same it _).trans ⟨rfl, rfl, rfl⟩
      case isFalse more => exact (modify_same it _).trans (ih result)
    case isFalse older =>
      rw [Option.bind_eq_some_iff] at result
      obtain ⟨checked, test, result⟩ := result
      cases result
      exact checkSquash_same test

end ROBThread

namespace ROB

variable {numThreads : Nat}

/-- The entries that each thread holds. -/
def entries (rob : ROB numThreads) (tid : Fin numThreads) : Nat :=
  (rob.thread tid).threadEntries.toNat

/-- The entries that each thread may hold. -/
def limits (rob : ROB numThreads) (tid : Fin numThreads) : Nat :=
  (rob.thread tid).maxEntries.toNat

/-- The instructions that each thread has in the buffer. -/
def lengths (rob : ROB numThreads) (tid : Fin numThreads) : Nat :=
  (rob.thread tid).instList.length

/-- The entries that the threads other than one hold. -/
def heldByOthers (rob : ROB numThreads) (tid : Fin numThreads) : Nat :=
  ∑ other ∈ Finset.univ.erase tid, rob.entries other

/-- The counts agree with each other and no thread is told of more room than there is. -/
structure Shared (rob : ROB numThreads) : Prop where
  entries : rob.numInstsInROB.toInt = ∑ tid, rob.entries tid
  insts : rob.numInstsInROB.toInt = ∑ tid, rob.lengths tid
  bounded : rob.numInstsInROB.toInt ≤ rob.numEntries.toNat
  within : ∀ tid, (rob.thread tid).threadEntries ≤ (rob.thread tid).maxEntries
  free : ∀ tid, rob.numFreeEntries tid ≤ rob.numFreeEntriesTotal

variable {rob rob' : ROB numThreads}

theorem shared_iff : rob.Shared ↔
    rob.numInstsInROB.toInt = ∑ tid, rob.entries tid ∧
      rob.numInstsInROB.toInt = ∑ tid, rob.lengths tid ∧
        Honoured rob.numEntries.toNat rob.limits rob.entries := by
  have signed := rob.numInstsInROB.toInt_eq_toNat_cond
  have fits := rob.numEntries.isLt
  -- What is free in the buffer for one thread besides what it holds is what it may still take.
  have free (counted : rob.numInstsInROB.toInt = ∑ tid, rob.entries tid)
      (bounded : rob.numInstsInROB.toInt ≤ rob.numEntries.toNat) (tid : Fin numThreads)
      (within : rob.entries tid ≤ rob.limits tid) :
      rob.numFreeEntries tid ≤ rob.numFreeEntriesTotal ↔
        rob.limits tid + others rob.entries tid ≤ rob.numEntries.toNat := by
    have split := held_add_others rob.entries tid
    have limit := (rob.thread tid).maxEntries.isLt
    rw [BitVec.le_def, numFreeEntries, numFreeEntriesTotal, BitVec.toNat_sub, BitVec.toNat_sub]
    simp only [ROB.entries, limits] at *
    omega
  constructor
  · intro shared
    refine ⟨shared.entries, shared.insts, fun tid => ⟨shared.within tid, ?_⟩⟩
    exact (free shared.entries shared.bounded tid (shared.within tid)).mp (shared.free tid)
  · rintro ⟨counted, insts, honoured⟩
    have bounded : rob.numInstsInROB.toInt ≤ rob.numEntries.toNat := by
      have total := honoured.sum_le
      omega
    exact ⟨counted, insts, bounded, fun tid => (honoured tid).1, fun tid =>
      (free counted bounded tid (honoured tid).1).mpr (honoured tid).2⟩

/-- The operation leaves every count and every limit as it is. -/
structure SameCounts (rob rob' : ROB numThreads) : Prop where
  numEntries : rob'.numEntries = rob.numEntries
  numInstsInROB : rob'.numInstsInROB = rob.numInstsInROB
  entries : rob'.entries = rob.entries
  limits : rob'.limits = rob.limits
  lengths : rob'.lengths = rob.lengths

theorem SameCounts.shared_iff (same : SameCounts rob rob') : rob'.Shared ↔ rob.Shared := by
  rw [ROB.shared_iff, ROB.shared_iff, same.numEntries, same.numInstsInROB, same.entries,
    same.limits, same.lengths]

theorem SameCounts.trans {changed : ROB numThreads} (first : SameCounts rob changed)
    (second : SameCounts changed rob') : SameCounts rob rob' :=
  ⟨second.numEntries.trans first.numEntries, second.numInstsInROB.trans first.numInstsInROB,
    second.entries.trans first.entries, second.limits.trans first.limits,
    second.lengths.trans first.lengths⟩

section Threads

variable (rob) (tid : Fin numThreads) (thread : ROBThread numThreads)

@[simp] theorem setThread_entries : (rob.setThread tid thread).entries =
    update rob.entries tid thread.threadEntries.toNat := by
  funext other
  simp only [entries, setThread, update_apply]
  split <;> rfl

@[simp] theorem setThread_limits : (rob.setThread tid thread).limits =
    update rob.limits tid thread.maxEntries.toNat := by
  funext other
  simp only [limits, setThread, update_apply]
  split <;> rfl

@[simp] theorem setThread_lengths : (rob.setThread tid thread).lengths =
    update rob.lengths tid thread.instList.length := by
  funext other
  simp only [lengths, setThread, update_apply]
  split <;> rfl

variable {rob tid thread} in
theorem setThread_same (same : ROBThread.SameCounts (rob.thread tid) thread) :
    SameCounts rob (rob.setThread tid thread) := by
  constructor
  · rfl
  · rfl
  · rw [setThread_entries, same.threadEntries]
    exact update_eq_self tid rob.entries
  · rw [setThread_limits, same.maxEntries]
    exact update_eq_self tid rob.limits
  · rw [setThread_lengths, same.length]
    exact update_eq_self tid rob.lengths

end Threads

theorem doSquash_same {tid : Fin numThreads} (squashed : rob.doSquash tid = some rob') :
    SameCounts rob rob' := by
  simp only [doSquash, Option.bind_eq_bind, Option.bind_eq_some_iff] at squashed
  obtain ⟨it, _, inst, _, result⟩ := squashed
  split at result
  case isTrue done =>
    cases result
    exact setThread_same ⟨rfl, rfl, rfl⟩
  case isFalse more =>
    rw [Option.bind_eq_some_iff] at result
    obtain ⟨⟨thread, robTailUpdate⟩, looped, result⟩ := result
    have same := setThread_same (ROBThread.squashLoop_same looped)
    cases result
    split
    · exact same.trans ⟨rfl, rfl, rfl, rfl, rfl⟩
    · exact same

theorem squash_same {squash_num : Nat} {tid : Fin numThreads}
    (squashed : rob.squash squash_num tid = some rob') : SameCounts rob rob' := by
  unfold squash at squashed
  dsimp only at squashed
  split at squashed
  case isTrue empty =>
    cases squashed
    exact ⟨rfl, rfl, rfl, rfl, rfl⟩
  case isFalse some =>
    split at squashed
    case isTrue none =>
      cases squashed
      exact setThread_same ⟨rfl, rfl, rfl⟩
    case isFalse youngest =>
      apply SameCounts.trans _ (doSquash_same squashed)
      exact setThread_same ⟨rfl, rfl, rfl⟩

theorem activateThread_same (tid : Fin numThreads) : SameCounts rob (rob.activateThread tid) := by
  unfold activateThread
  split <;> exact ⟨rfl, rfl, rfl, rfl, rfl⟩

theorem foldl_setLimit (limit : Fin numThreads → BitVec 32) (tids : List (Fin numThreads))
    (thread : Fin numThreads → ROBThread numThreads) (tid : Fin numThreads) :
    tids.foldl (fun thread tid =>
        update thread tid { (thread tid) with maxEntries := limit tid }) thread tid =
      if tid ∈ tids then { (thread tid) with maxEntries := limit tid } else thread tid := by
  -- The induction follows the list of threads.
  induction tids generalizing thread with
  | nil => simp
  | cons first rest ih =>
    rw [List.foldl_cons, ih]
    by_cases same : tid = first
    · subst same
      simp
    · simp [same]

theorem resetEntries_thread (tid : Fin numThreads) : rob.resetEntries.thread tid =
    if tid ∈ rob.activeThreads then { (rob.thread tid) with maxEntries := rob.resetLimit tid }
    else rob.thread tid := by
  unfold resetEntries
  split
  case isTrue resets => exact foldl_setLimit rob.resetLimit rob.activeThreads rob.thread tid
  case isFalse dynamic =>
    -- A single thread under the dynamic policy keeps the limit that it has.
    have policy : rob.robPolicy = .Dynamic := by
      by_contra other
      exact dynamic (.inl other)
    have limit : rob.resetLimit tid = (rob.thread tid).maxEntries := by
      simp [resetLimit, policy]
    rw [limit]
    split <;> rfl

/-- The buffer stays shared exactly if the new limits can be honoured. -/
theorem resetEntries_shared_iff (shared : rob.Shared) : rob.resetEntries.Shared ↔
    ∀ tid ∈ rob.activeThreads, (rob.thread tid).threadEntries ≤ rob.resetLimit tid ∧
      (rob.resetLimit tid).toNat + rob.heldByOthers tid ≤ rob.numEntries.toNat := by
  obtain ⟨counted, insts, honoured⟩ := ROB.shared_iff.mp shared
  have numEntries : rob.resetEntries.numEntries = rob.numEntries := by
    unfold resetEntries
    split <;> rfl
  have numInstsInROB : rob.resetEntries.numInstsInROB = rob.numInstsInROB := by
    unfold resetEntries
    split <;> rfl
  have entries : rob.resetEntries.entries = rob.entries := by
    funext tid
    simp only [ROB.entries, resetEntries_thread]
    split <;> rfl
  have lengths : rob.resetEntries.lengths = rob.lengths := by
    funext tid
    simp only [ROB.lengths, resetEntries_thread]
    split <;> rfl
  have limits (tid : Fin numThreads) : rob.resetEntries.limits tid =
      if tid ∈ rob.activeThreads then (rob.resetLimit tid).toNat else rob.limits tid := by
    simp only [ROB.limits, resetEntries_thread]
    split <;> rfl
  rw [ROB.shared_iff, numEntries, numInstsInROB, entries, lengths]
  have kept (tid : Fin numThreads) (idle : tid ∉ rob.activeThreads) :
      rob.resetEntries.limits tid = rob.limits tid := by
    rw [limits, if_neg idle]
  have changes : Honoured rob.numEntries.toNat rob.resetEntries.limits rob.entries ↔
      ∀ tid, tid ∈ rob.activeThreads → rob.entries tid ≤ rob.resetEntries.limits tid ∧
        rob.resetEntries.limits tid + others rob.entries tid ≤ rob.numEntries.toNat :=
    honoured.relimit_iff kept
  constructor
  · rintro ⟨_, _, after⟩ tid active
    have new := changes.mp after tid active
    rw [limits, if_pos active] at new
    exact new
  · intro new
    refine ⟨counted, insts, changes.mpr fun tid active => ?_⟩
    rw [limits, if_pos active]
    exact new tid active

theorem entries_lt_limits {tid : Fin numThreads} (space : 0 < rob.numFreeEntries tid)
    (within : rob.entries tid ≤ rob.limits tid) : rob.entries tid < rob.limits tid := by
  have limit := (rob.thread tid).maxEntries.isLt
  rw [BitVec.lt_def, numFreeEntries, BitVec.toNat_sub] at space
  simp only [entries, limits] at *
  simp only [BitVec.ofNat_eq_ofNat, BitVec.toNat_ofNat, Nat.zero_mod] at space
  omega

/-- Only the entries and the instructions of one thread are other than they were. -/
structure Changed (rob rob' : ROB numThreads) (tid : Fin numThreads) (entries lengths : Nat) :
    Prop where
  numEntries : rob'.numEntries = rob.numEntries
  entries : rob'.entries = update rob.entries tid entries
  limits : rob'.limits = rob.limits
  lengths : rob'.lengths = update rob.lengths tid lengths

/-- A thread below its limit may take an entry if the others can still reach theirs. -/
theorem Changed.take_iff {tid : Fin numThreads} (shared : rob.Shared)
    (room : rob.entries tid < rob.limits tid)
    (changed : Changed rob rob' tid (rob.entries tid + 1) (rob.lengths tid + 1))
    (counts : rob'.numInstsInROB = rob.numInstsInROB + 1) :
    rob'.Shared ↔ rob.numInstsInROB.toInt + 1 < 2 ^ 31 ∧
      ∀ other ≠ tid, rob.limits other + rob.heldByOthers other < rob.numEntries.toNat := by
  obtain ⟨counted, insts, honoured⟩ := ROB.shared_iff.mp shared
  have grown : ∑ other, rob'.entries other = ∑ other, rob.entries other + 1 := by
    have sum := sum_update rob.entries tid (rob.entries tid + 1)
    rw [changed.entries]
    omega
  have longer : ∑ other, rob'.lengths other = ∑ other, rob.lengths other + 1 := by
    have sum := sum_update rob.lengths tid (rob.lengths tid + 1)
    rw [changed.lengths]
    omega
  -- The count is an int, which goes no further than its largest value.
  have count : rob'.numInstsInROB.toInt = rob.numInstsInROB.toInt + 1 ↔
      rob.numInstsInROB.toInt + 1 < 2 ^ 31 := by
    have before := rob.numInstsInROB.toInt_eq_toNat_cond
    have after := rob'.numInstsInROB.toInt_eq_toNat_cond
    have one : (1 : BitVec 32).toNat = 1 := rfl
    have sum : rob'.numInstsInROB.toNat = (rob.numInstsInROB.toNat + 1) % 2 ^ 32 := by
      rw [counts, BitVec.toNat_add, one]
    have bound := rob.numInstsInROB.isLt
    omega
  rw [ROB.shared_iff, grown, longer, changed.numEntries, changed.limits, changed.entries,
    honoured.take_iff room]
  rw [Nat.cast_add, Nat.cast_add, Nat.cast_one, ← counted, ← insts, count]
  constructor
  · rintro ⟨fits, _, spare⟩
    exact ⟨fits, spare⟩
  · rintro ⟨fits, spare⟩
    exact ⟨fits, fits, spare⟩

theorem Changed.give {tid : Fin numThreads} (shared : rob.Shared)
    (some : 0 < rob.entries tid) (listed : 0 < rob.lengths tid)
    (changed : Changed rob rob' tid (rob.entries tid - 1) (rob.lengths tid - 1))
    (counts : rob'.numInstsInROB = rob.numInstsInROB - 1) : rob'.Shared := by
  obtain ⟨counted, insts, honoured⟩ := ROB.shared_iff.mp shared
  have split := held_add_others rob.entries tid
  have shrunk : ∑ other, rob'.entries other + 1 = ∑ other, rob.entries other := by
    have sum := sum_update rob.entries tid (rob.entries tid - 1)
    rw [changed.entries]
    omega
  have shorter : ∑ other, rob'.lengths other + 1 = ∑ other, rob.lengths other := by
    have sum := sum_update rob.lengths tid (rob.lengths tid - 1)
    rw [changed.lengths]
    omega
  have count : rob'.numInstsInROB.toInt + 1 = rob.numInstsInROB.toInt := by
    have before := rob.numInstsInROB.toInt_eq_toNat_cond
    have after := rob'.numInstsInROB.toInt_eq_toNat_cond
    have one : (1 : BitVec 32).toNat = 1 := rfl
    have difference :
        rob'.numInstsInROB.toNat = (2 ^ 32 - 1 + rob.numInstsInROB.toNat) % 2 ^ 32 := by
      rw [counts, BitVec.toNat_sub, one]
    have bound := rob.numInstsInROB.isLt
    omega
  rw [ROB.shared_iff, changed.numEntries, changed.limits]
  refine ⟨by omega, by omega, ?_⟩
  rw [changed.entries]
  exact honoured.give (by omega)

/-- The instruction that a thread with free entries inserts finds room. -/
theorem insertInst_shared_iff (shared : rob.Shared) {inst : ROBInst numThreads}
    (space : 0 < rob.numFreeEntries inst.threadNumber) :
    (∃ rob', rob.insertInst inst = .ok rob' ∧ rob'.Shared) ↔
      rob.numInstsInROB.toInt + 1 < 2 ^ 31 ∧ ∀ tid ≠ inst.threadNumber,
        (rob.thread tid).maxEntries.toNat + rob.heldByOthers tid < rob.numEntries.toNat := by
  obtain ⟨counted, insts, honoured⟩ := ROB.shared_iff.mp shared
  have room := entries_lt_limits space (honoured inst.threadNumber).1
  -- The limit of the thread leaves an entry of the buffer.
  have notFull : rob.numInstsInROB ≠ rob.numEntries := by
    intro full
    have signed := rob.numInstsInROB.toInt_eq_toNat_cond
    have split := held_add_others rob.entries inst.threadNumber
    have own := honoured inst.threadNumber
    rw [← full] at own
    omega
  -- A buffer without instructions has none of this thread either.
  have fresh : ¬(rob.numInstsInROB = 0 ∧ (rob.thread inst.threadNumber).instList ≠ []) := by
    rintro ⟨empty, some⟩
    have none : ∑ tid, rob.lengths tid = 0 := by
      rw [empty] at insts
      exact Int.ofNat_eq_zero.mp insts.symm
    have length := Finset.sum_eq_zero_iff.mp none inst.threadNumber (Finset.mem_univ _)
    exact some (List.eq_nil_of_length_eq_zero length)
  unfold insertInst
  dsimp only
  rw [if_neg notFull, if_neg fresh]
  simp only [Except.ok.injEq, exists_eq_left']
  apply Changed.take_iff shared room
  · constructor
    · rfl
    · apply (setThread_entries rob _ _).trans
      congr 1
      have limit : rob.limits inst.threadNumber < 2 ^ 32 :=
        (rob.thread inst.threadNumber).maxEntries.isLt
      simp only [BitVec.toNat_add, entries] at *
      simp only [BitVec.ofNat_eq_ofNat, BitVec.toNat_ofNat]
      omega
    · apply (setThread_limits rob _ _).trans
      exact update_eq_self _ rob.limits
    · apply (setThread_lengths rob _ _).trans
      rw [List.length_append, List.length_singleton]
      rfl
  · rfl

/-- Retiring an instruction that is ready gives back its entry. -/
theorem retireHead_shared (shared : rob.Shared) {tid : Fin numThreads}
    (ready : rob.isHeadReady tid = true) :
    ∃ rob' inst, rob.retireHead tid = .ok (rob', inst) ∧ rob'.Shared := by
  obtain ⟨counted, insts, honoured⟩ := ROB.shared_iff.mp shared
  rw [isHeadReady, Bool.and_eq_true, bne_iff_ne] at ready
  obtain ⟨entered, first⟩ := ready
  have held : 0 < rob.entries tid := by
    rw [entries, Nat.pos_iff_ne_zero]
    intro zero
    exact entered (BitVec.eq_of_toNat_eq zero)
  have split := held_add_others rob.entries tid
  have notEmpty : (0#32).slt rob.numInstsInROB = true := by
    rw [BitVec.slt_eq_decide, decide_eq_true_iff, BitVec.toInt_zero]
    omega
  cases list : (rob.thread tid).instList with
  | nil => simp [list] at first
  | cons head_inst rest =>
    have canCommit : head_inst.canCommit = true := by simpa [list] using first
    unfold retireHead
    simp only [notEmpty, not_true_eq_false, if_false, list, canCommit, Except.ok.injEq,
      Prod.mk.injEq]
    refine ⟨_, _, ⟨rfl, rfl⟩, ?_⟩
    have length : rob.lengths tid = rest.length + 1 := by
      rw [lengths, list, List.length_cons]
    apply Changed.give shared held (by omega)
    · constructor
      · rfl
      · apply (setThread_entries rob _ _).trans
        congr 1
        have bound := (rob.thread tid).threadEntries.isLt
        simp only [BitVec.toNat_sub, entries] at *
        simp only [BitVec.ofNat_eq_ofNat, BitVec.toNat_ofNat]
        omega
      · apply (setThread_limits rob _ _).trans
        exact update_eq_self _ rob.limits
      · apply (setThread_lengths rob _ _).trans
        rw [length]
        rfl
    · rfl

end ROB

/-- What happens to the reorder buffer. -/
inductive ROBOp (numThreads : Nat) where
  | activateThread (tid : Fin numThreads)
  | deactivateThread (tid : Fin numThreads)
  | resetEntries
  | insertInst (inst : ROBInst numThreads)
  | setCanCommit (tid : Fin numThreads) (it : Nat)
  | retireHead (tid : Fin numThreads)
  | squash (squash_num : Nat) (tid : Fin numThreads)
  | doSquash (tid : Fin numThreads)

namespace RobRun

variable {numThreads : Nat}

/-- The buffer, or the assertion that failed. -/
abbrev State (numThreads : Nat) := Except ROBFault (ROB numThreads)

/--
One operation: a thread inserts only while it has free entries, only an instruction that is ready
is retired, and squashing goes on only while it is not at its end.
-/
def step : State numThreads → ROBOp numThreads → Option (State numThreads)
  | .error _, _ => none
  | .ok rob, .activateThread tid => some (.ok (rob.activateThread tid))
  | .ok rob, .deactivateThread tid => some (.ok (rob.deactivateThread tid))
  | .ok rob, .resetEntries => some (.ok rob.resetEntries)
  | .ok rob, .insertInst inst =>
    if 0 < rob.numFreeEntries inst.threadNumber then some (rob.insertInst inst) else none
  | .ok rob, .setCanCommit tid it =>
    some (.ok (rob.setThread tid ((rob.thread tid).setCanCommit it)))
  | .ok rob, .retireHead tid =>
    if rob.isHeadReady tid then some ((rob.retireHead tid).map Prod.fst) else none
  | .ok rob, .squash squash_num tid => (rob.squash squash_num tid).map .ok
  | .ok rob, .doSquash tid => (rob.doSquash tid).map .ok

/-- No assertion failed, and the buffer is shared as it should be. -/
def Shared : State numThreads → Prop
  | .error _ => False
  | .ok rob => rob.Shared

/--
What an operation needs: an insertion leaves room for what the other threads may still insert,
and a limit that is set anew covers what its thread holds and fits beside what the others hold.
-/
def Fits : State numThreads → ROBOp numThreads → Prop
  | .ok rob, .insertInst inst =>
    rob.numInstsInROB.toInt + 1 < 2 ^ 31 ∧ ∀ tid ≠ inst.threadNumber,
      (rob.thread tid).maxEntries.toNat + rob.heldByOthers tid < rob.numEntries.toNat
  | .ok rob, .resetEntries => ∀ tid ∈ rob.activeThreads,
      (rob.thread tid).threadEntries ≤ rob.resetLimit tid ∧
        (rob.resetLimit tid).toNat + rob.heldByOthers tid ≤ rob.numEntries.toNat
  | _, _ => True

/-- An operation that can be done keeps the buffer shared exactly if it fits. -/
theorem step_shared_iff {s t : State numThreads} {op : ROBOp numThreads} (shared : Shared s)
    (taken : step s op = some t) : Shared t ↔ Fits s op := by
  cases s with
  | error fault => cases shared
  | ok rob =>
    -- What changes no count always fits.
    have same {rob' : ROB numThreads} (counts : ROB.SameCounts rob rob') :
        Shared (.ok rob') ↔ True :=
      iff_true_intro (counts.shared_iff.mpr shared)
    cases op with
    | activateThread tid =>
      cases taken
      exact same (ROB.activateThread_same tid)
    | deactivateThread tid =>
      cases taken
      exact same ⟨rfl, rfl, rfl, rfl, rfl⟩
    | resetEntries =>
      cases taken
      exact ROB.resetEntries_shared_iff shared
    | insertInst inst =>
      simp only [step] at taken
      split at taken
      case isTrue space =>
        cases taken
        rw [Fits, ← ROB.insertInst_shared_iff shared space]
        cases inserted : rob.insertInst inst with
        | error fault => simp [Shared]
        | ok rob' => simp [Shared]
      case isFalse full => cases taken
    | setCanCommit tid it =>
      cases taken
      exact same (ROB.setThread_same (ROBThread.modify_same it _))
    | retireHead tid =>
      simp only [step] at taken
      split at taken
      case isTrue ready =>
        cases taken
        obtain ⟨rob', inst, retired, after⟩ := ROB.retireHead_shared shared ready
        rw [retired]
        exact iff_true_intro after
      case isFalse waits => cases taken
    | squash squash_num tid =>
      simp only [step, Option.map_eq_some_iff] at taken
      obtain ⟨rob', squashed, result⟩ := taken
      cases result
      exact same (ROB.squash_same squashed)
    | doSquash tid =>
      simp only [step, Option.map_eq_some_iff] at taken
      obtain ⟨rob', squashed, result⟩ := taken
      cases result
      exact same (ROB.doSquash_same squashed)

theorem create_shared_iff (robPolicy : ROBPolicy) (numROBEntries smtROBThreshold : BitVec 32)
    (squashWidth numThreads : Nat) :
    (ROB.create robPolicy numROBEntries smtROBThreshold squashWidth numThreads).Shared ↔
      (robPolicy = .Threshold → 0 < numThreads → smtROBThreshold ≤ numROBEntries) := by
  rw [ROB.shared_iff]
  have entries : (ROB.create robPolicy numROBEntries smtROBThreshold squashWidth
      numThreads).entries = fun _ => 0 := rfl
  have lengths : (ROB.create robPolicy numROBEntries smtROBThreshold squashWidth
      numThreads).lengths = fun _ => 0 := rfl
  have fits : (∀ tid, (ROB.create robPolicy numROBEntries smtROBThreshold squashWidth
      numThreads).limits tid ≤ numROBEntries.toNat) ↔
      (robPolicy = .Threshold → 0 < numThreads → smtROBThreshold ≤ numROBEntries) := by
    cases robPolicy with
    | Dynamic => simp [ROB.limits, ROB.create]
    | Partitioned => simp [ROB.limits, ROB.create, Nat.div_le_self]
    | Threshold =>
      simp only [ROB.limits, ROB.create, forall_const, BitVec.le_def]
      constructor
      · intro all some
        exact all ⟨0, some⟩
      · intro fits tid
        exact fits tid.pos
  rw [entries, lengths, ← fits]
  constructor
  · rintro ⟨_, _, honoured⟩ tid
    exact Nat.le_trans (Nat.le_add_right _ _) (honoured tid).2
  · intro below
    refine ⟨by simp [ROB.create], by simp [ROB.create], fun tid => ⟨Nat.zero_le _, ?_⟩⟩
    rw [others, Finset.sum_const_zero]
    exact below tid

/--
In every run the counts of the buffer agree, no assertion of it fails, and no thread is told of
more room than there is exactly if no threshold exceeds the buffer and each operation fits.
-/
theorem shared_iff_fits (robPolicy : ROBPolicy) (numROBEntries smtROBThreshold : BitVec 32)
    (squashWidth numThreads : Nat) (ops : List (ROBOp numThreads)) :
    Machine.Always step Shared
        (.ok (.create robPolicy numROBEntries smtROBThreshold squashWidth numThreads)) ops ↔
      (robPolicy = .Threshold → 0 < numThreads → smtROBThreshold ≤ numROBEntries) ∧
        Machine.Meets step Fits
          (.ok (.create robPolicy numROBEntries smtROBThreshold squashWidth numThreads)) ops := by
  have first := create_shared_iff robPolicy numROBEntries smtROBThreshold squashWidth numThreads
  have all (shared : Shared (.ok (.create robPolicy numROBEntries smtROBThreshold squashWidth
      numThreads))) :
      Machine.Always step Shared
          (.ok (.create robPolicy numROBEntries smtROBThreshold squashWidth numThreads)) ops ↔
        Machine.Meets step Fits
          (.ok (.create robPolicy numROBEntries smtROBThreshold squashWidth numThreads)) ops :=
    Machine.always_iff_meets (fun _ _ _ before taken => step_shared_iff before taken) shared
  constructor
  · intro always
    exact ⟨first.mp always.at_start, (all always.at_start).mp always⟩
  · rintro ⟨threshold, meets⟩
    exact (all (first.mpr threshold)).mpr meets

/-- One thread has filled three of four entries when a second one is activated. -/
def secondThread : List (ROBOp 2) :=
  let insert (seqNum : Nat) : ROBOp 2 := .insertInst { seqNum, threadNumber := ⟨0, Nat.two_pos⟩ }
  [.activateThread ⟨0, Nat.two_pos⟩, .resetEntries, insert 1, insert 2, insert 3,
    .activateThread ⟨1, Nat.one_lt_two⟩, .resetEntries]

/-- The first thread is then told of almost as many entries as a counter can hold. -/
theorem second_thread_wraps :
    ¬Machine.Always step Shared (.ok (.create .Partitioned 4 0 8 2)) secondThread := by
  intro always
  have wraps : (Machine.run step (.ok (.create .Partitioned 4 0 8 2)) secondThread).any
      (fun t => t.toOption.any fun rob => decide (rob.limits 0 < rob.entries 0)) = true := by
    decide +kernel
  obtain ⟨t, ran, broken⟩ := (Option.any_eq_true _ _).mp wraps
  have shared := always.at_end ran
  cases t with
  | error fault => cases shared
  | ok rob => exact Nat.not_lt.mpr (shared.within 0) (of_decide_eq_true broken)

end RobRun

end GemDroid
