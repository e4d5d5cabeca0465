import Mathlib.Data.Fin.Basic
import Mathlib.Data.List.TakeWhile
import GemDroid.Cpu.IssueQueue
import GemDroid.Lib.Outcome

/-! The lists, counts and flags of the instruction queue agree for what is in flight. -/

namespace GemDroid

open Function (update update_apply update_eq_self update_of_ne update_self)

/-- A source occurrence of a register for which an instruction was put into the graph. -/
def SrcReg.waitsFor (r : Nat) (src : SrcReg) : Bool :=
  !src.ready && src.reg == r

namespace InstructionQueue

open Outcome

variable {numThreads : Nat} {q q' : InstructionQueue numThreads}

/-- A source register is ready, or the instruction need not wait for it any more. -/
def avail (q : InstructionQueue numThreads) (src : SrcReg) : Bool :=
  src.ready || q.regScoreboard src.reg

/-- A queue in which all instructions of a list were woken, as often as they are in it. -/
structure WokeAll (q q' : InstructionQueue numThreads) (list : List Nat) : Prop where
  frame : q' = { q with insts := q'.insts, ready := q'.ready }
  insts : ∀ i, q'.insts i = { q.insts i with
    readyRegs := (q.insts i).readyRegs + list.count i
    canIssue := (q.insts i).canIssue ||
      decide (i ∈ list ∧ (q.insts i).readyRegs + list.count i = (q.insts i).srcRegs.length) }
  ready : ∀ i, q'.ready.count i = q.ready.count i +
    if i ∈ list ∧ (q.insts i).readyRegs + list.count i = (q.insts i).srcRegs.length then 1 else 0

theorem wokeAll_single (i : Nat) (waits : (q.insts i).canIssue = false) :
    WokeAll q (q.wake i) [i] := by
  have same : (q.markSrcRegReady i).insts i = { q.insts i with
      readyRegs := (q.insts i).readyRegs + 1
      canIssue := (q.insts i).readyRegs + 1 == (q.insts i).srcRegs.length } := by
    simp [markSrcRegReady, modify, waits]
  have other (j : Nat) (differs : j ≠ i) : (q.markSrcRegReady i).insts j = q.insts j := by
    simp [markSrcRegReady, modify, differs]
  have insts : (q.wake i).insts = (q.markSrcRegReady i).insts := by
    unfold wake addIfReady
    split <;> rfl
  refine ⟨?_, fun j => ?_, fun j => ?_⟩
  · unfold wake addIfReady
    split <;> rfl
  · rw [insts]
    by_cases here : j = i
    · subst here
      rw [same]
      simp [waits, beq_eq_decide]
    · rw [other j here]
      simp [here, Ne.symm here]
  · unfold wake addIfReady
    rw [same]
    dsimp only
    by_cases here : j = i
    · subst here
      split
      · rename_i last
        simp only [beq_iff_eq] at last
        simp [markSrcRegReady, modify, last]
      · rename_i more
        simp only [beq_iff_eq] at more
        simp [markSrcRegReady, modify, more]
    · split
      · simp [markSrcRegReady, modify, here, Ne.symm here]
      · simp [markSrcRegReady, modify, here]

/-- Waking the instructions of a list one by one wakes each as often as it is in the list. -/
theorem foldl_wake (list : List Nat)
    (waits : ∀ i ∈ list, (q.insts i).canIssue = false ∧
      (q.insts i).readyRegs + list.count i ≤ (q.insts i).srcRegs.length) :
    WokeAll q (list.foldl wake q) list := by
  -- The induction follows the list; an instruction that comes again is not complete before.
  induction list generalizing q with
  | nil =>
    refine ⟨rfl, fun i => ?_, fun i => ?_⟩
    · simp
    · simp
  | cons j list ih =>
    have first := wokeAll_single j (waits j (by simp)).1
    have rest : WokeAll (q.wake j) (list.foldl wake (q.wake j)) list := by
      refine ih fun i member => ?_
      obtain ⟨blocked, bound⟩ := waits i (by simp [member])
      rw [first.insts i]
      have positive := List.count_pos_iff.mpr member
      by_cases here : i = j
      · subst here
        rw [List.count_cons_self] at bound
        have more : (q.insts i).readyRegs + 1 ≠ (q.insts i).srcRegs.length := by omega
        simp [blocked, more]
        omega
      · rw [List.count_cons_of_ne (Ne.symm here)] at bound
        simp [blocked, here, Ne.symm here, bound]
    refine ⟨?_, fun i => ?_, fun i => ?_⟩
    · rw [List.foldl_cons, rest.frame, first.frame]
    · rw [List.foldl_cons, rest.insts i, first.insts i]
      by_cases here : i = j
      · subst here
        have blocked := (waits i (by simp)).1
        have bound := (waits i (by simp)).2
        rw [List.count_cons_self] at bound
        by_cases again : i ∈ list
        · have positive := List.count_pos_iff.mpr again
          have more : (q.insts i).readyRegs + 1 ≠ (q.insts i).srcRegs.length := by omega
          simp [blocked, again, more, Nat.add_assoc, Nat.add_comm 1]
        · have none := List.count_eq_zero.mpr again
          simp [blocked, again, none]
      · simp [here, Ne.symm here]
    · rw [List.foldl_cons, rest.ready i, first.ready i, first.insts i]
      by_cases here : i = j
      · subst here
        have bound := (waits i (by simp)).2
        rw [List.count_cons_self] at bound
        by_cases again : i ∈ list
        · have positive := List.count_pos_iff.mpr again
          have more : (q.insts i).readyRegs + 1 ≠ (q.insts i).srcRegs.length := by omega
          simp [again, more, Nat.add_assoc, Nat.add_comm 1]
        · have none := List.count_eq_zero.mpr again
          simp [again, none]
      · simp [here, Ne.symm here]

/-- The lists, counts and flags of the queue agree for the instructions that are in flight. -/
structure Core (q : InstructionQueue numThreads) (live : Nat → Bool) : Prop where
  sorted : ∀ tid, (q.instList tid).Pairwise (· < ·)
  home : ∀ i, live i = true → i ∈ q.instList (q.insts i).threadNumber
  listed : ∀ tid, ∀ i ∈ q.instList tid, (q.insts i).threadNumber = tid ∧
    (q.insts i).isSquashedInIQ = false ∧ (live i = true ∨ (q.insts i).counts = false)
  count : ∀ tid, q.count tid = (q.instList tid).countP fun i => (q.insts i).counts
  inGraph : ∀ i, live i = true → (q.insts i).inGraph = true
  unready : ∀ i, live i = true → ∀ src ∈ (q.insts i).srcRegs, src.ready = false →
    src.reg < q.numPhysRegs
  waiting : ∀ i r, live i = true → (q.dependGraph r).count i =
    if q.regScoreboard r then 0 else (q.insts i).srcRegs.countP (SrcReg.waitsFor r)
  held : ∀ r, ∀ i ∈ q.dependGraph r, live i = true
  readyRegs : ∀ i, live i = true → (q.insts i).readyRegs = (q.insts i).srcRegs.countP q.avail
  canIssue : ∀ i, live i = true → (q.insts i).canIssue = true →
    (q.insts i).srcRegs.all q.avail = true
  ready : ∀ i, live i = true →
    q.ready.count i = if (q.insts i).srcRegs.all q.avail then 1 else 0
  issued : ∀ i, live i = true → (q.insts i).isIssued = true →
    (q.insts i).srcRegs.all q.avail = true

variable {live : Nat → Bool}

variable {i r : Nat} {tid : Fin numThreads}

theorem Core.unwritten (core : Core q live) (member : i ∈ q.dependGraph r) :
    q.regScoreboard r = false ∧ ∃ src ∈ (q.insts i).srcRegs, src.waitsFor r = true := by
  have count := core.waiting i r (core.held r i member)
  have positive := List.count_pos_iff.mpr member
  cases written : q.regScoreboard r with
  | true =>
    rw [written] at count
    simp only [if_true] at count
    omega
  | false =>
    rw [written] at count
    simp only [Bool.false_eq_true, if_false] at count
    have some : 0 < (q.insts i).srcRegs.countP (SrcReg.waitsFor r) := by omega
    exact ⟨rfl, List.countP_pos_iff.mp some⟩

theorem Core.blocked (core : Core q live) (member : i ∈ q.dependGraph r) :
    (q.insts i).srcRegs.all q.avail = false := by
  obtain ⟨unwritten, src, inside, waits⟩ := core.unwritten member
  rw [List.all_eq_false]
  refine ⟨src, inside, ?_⟩
  simp only [SrcReg.waitsFor, Bool.and_eq_true, Bool.not_eq_true', beq_iff_eq] at waits
  simp [avail, waits.1, waits.2, unwritten]

theorem countP_avail_written (srcs : List SrcReg) (r : Nat) (scoreboard : Nat → Bool)
    (unwritten : scoreboard r = false) :
    srcs.countP (fun src => src.ready || update scoreboard r true src.reg) =
      srcs.countP (fun src => src.ready || scoreboard src.reg) +
        srcs.countP (SrcReg.waitsFor r) := by
  -- The induction follows the occurrences; each is counted once on either side.
  induction srcs with
  | nil => rfl
  | cons src srcs ih =>
    rw [List.countP_cons, List.countP_cons, List.countP_cons, ih]
    by_cases here : src.reg = r
    · cases ready : src.ready <;> simp [SrcReg.waitsFor, here, ready, unwritten] <;> omega
    · cases ready : src.ready <;> simp [SrcReg.waitsFor, here, ready] <;> omega

theorem all_avail_iff {srcs : List SrcReg} :
    srcs.all q.avail = true ↔ srcs.countP q.avail = srcs.length := by
  rw [List.all_eq_true, List.countP_eq_length]

theorem Core.countP_written (core : Core q live) (q' : InstructionQueue numThreads)
    (alive : live i = true) (written : q'.regScoreboard = update q.regScoreboard r true) :
    (q.insts i).srcRegs.countP q'.avail =
      (q.insts i).srcRegs.countP q.avail + (q.dependGraph r).count i := by
  have avail : q'.avail = fun src => src.ready || update q.regScoreboard r true src.reg := by
    funext src
    rw [InstructionQueue.avail, written]
  rw [avail, core.waiting i r alive]
  cases before : q.regScoreboard r with
  | false => exact countP_avail_written _ _ _ before
  | true =>
    have same : update q.regScoreboard r true = q.regScoreboard := by
      rw [← before, update_eq_self]
    rw [same]
    rfl

/-- The invariant holds again when all that waited for a register has been woken. -/
theorem Core.written (core : Core q live) {q1 : InstructionQueue numThreads}
    (woke : WokeAll { q with dependGraph := update q.dependGraph r [] } q1
      (q.dependGraph r)) :
    Core { q1 with regScoreboard := update q1.regScoreboard r true } live := by
  have frame := woke.frame
  have board : q1.regScoreboard = q.regScoreboard := congrArg (·.regScoreboard) frame
  have lists : q1.instList = q.instList := congrArg (·.instList) frame
  have graph : q1.dependGraph = update q.dependGraph r [] :=
    congrArg (·.dependGraph) frame
  have srcs (i : Nat) : (q1.insts i).srcRegs = (q.insts i).srcRegs :=
    congrArg (·.srcRegs) (woke.insts i)
  have counts (i : Nat) : (q1.insts i).counts = (q.insts i).counts := by
    rw [woke.insts i]
    rfl
  have sum (i : Nat) (alive : live i = true) :=
    core.countP_written { q1 with regScoreboard := update q1.regScoreboard r true } alive
      (by rw [board])
  -- An instruction has all its registers now when it has been woken as often as it has registers.
  have all (i : Nat) (alive : live i = true) : (q.insts i).srcRegs.all
      ({ q1 with regScoreboard := update q1.regScoreboard r true } :
        InstructionQueue numThreads).avail = true ↔
      (q.insts i).readyRegs + (q.dependGraph r).count i = (q.insts i).srcRegs.length := by
    rw [all_avail_iff, sum i alive, core.readyRegs i alive]
  have more (i : Nat) (alive : live i = true) (before : (q.insts i).srcRegs.all q.avail = true) :
      (q.insts i).srcRegs.all ({ q1 with
        regScoreboard := update q1.regScoreboard r true } :
          InstructionQueue numThreads).avail = true := by
    have full := all_avail_iff.mp before
    have same := sum i alive
    rw [all_avail_iff]
    refine Nat.le_antisymm List.countP_le_length ?_
    omega
  constructor
  case sorted => exact fun tid => by rw [show _ = _ from lists]; exact core.sorted tid
  case home =>
    intro i alive
    have thread : (q1.insts i).threadNumber = (q.insts i).threadNumber :=
      congrArg (·.threadNumber) (woke.insts i)
    show i ∈ q1.instList (q1.insts i).threadNumber
    rw [lists, thread]
    exact core.home i alive
  case listed =>
    intro tid i member
    have member : i ∈ q1.instList tid := member
    rw [lists] at member
    obtain ⟨thread, here, either⟩ := core.listed tid i member
    refine ⟨(congrArg (·.threadNumber) (woke.insts i)).trans thread,
      (congrArg (·.isSquashedInIQ) (woke.insts i)).trans here, either.imp_right fun idle => ?_⟩
    exact (counts i).trans idle
  case count =>
    intro tid
    show q1.count tid = (q1.instList tid).countP fun i => (q1.insts i).counts
    rw [lists, show q1.count = q.count from congrArg (·.count) frame, core.count tid]
    simp only [counts]
  case inGraph =>
    intro i alive
    have same : (q1.insts i).inGraph = (q.insts i).inGraph := by
      rw [woke.insts i]
      rfl
    exact same.trans (core.inGraph i alive)
  case unready =>
    intro i alive src member unready
    have phys : q1.numPhysRegs = q.numPhysRegs := congrArg (·.numPhysRegs) frame
    show src.reg < q1.numPhysRegs
    rw [phys]
    exact core.unready i alive src ((srcs i) ▸ member) unready
  case waiting =>
    intro i r' alive
    show (q1.dependGraph r').count i = if update q1.regScoreboard r true r' then 0
      else (q1.insts i).srcRegs.countP (SrcReg.waitsFor r')
    rw [graph, board, srcs i]
    by_cases here : r' = r
    · simp [here]
    · rw [update_of_ne here, update_of_ne here]
      exact core.waiting i r' alive
  case held =>
    intro r' i member
    have member : i ∈ q1.dependGraph r' := member
    rw [graph, update_apply] at member
    split at member
    · cases member
    · exact core.held r' i member
  case readyRegs =>
    intro i alive
    show (q1.insts i).readyRegs = (q1.insts i).srcRegs.countP _
    rw [srcs i, sum i alive, woke.insts i, core.readyRegs i alive]
  case canIssue =>
    intro i alive issues
    show (q1.insts i).srcRegs.all _ = true
    have issues : (q1.insts i).canIssue = true := issues
    rw [woke.insts i] at issues
    rw [srcs i]
    rcases Bool.or_eq_true_iff.mp issues with before | now
    · exact more i alive (core.canIssue i alive before)
    · exact (all i alive).mpr (of_decide_eq_true now).2
  case ready =>
    intro i alive
    show q1.ready.count i = if (q1.insts i).srcRegs.all _ then 1 else 0
    rw [srcs i, woke.ready i]
    show q.ready.count i + _ = _
    rw [core.ready i alive]
    by_cases member : i ∈ q.dependGraph r
    · have before := core.blocked member
      have now := all i alive
      by_cases last : (q.insts i).readyRegs + (q.dependGraph r).count i =
        (q.insts i).srcRegs.length
      · simp [before, member, last, now.mpr last]
      · simp [before, member, last, mt now.mp last]
    · have none := List.count_eq_zero.mpr member
      have same := sum i alive
      rw [none, Nat.add_zero] at same
      have unchanged : (q.insts i).srcRegs.all ({ q1 with
          regScoreboard := update q1.regScoreboard r true } :
            InstructionQueue numThreads).avail = (q.insts i).srcRegs.all q.avail := by
        rw [Bool.eq_iff_iff, all_avail_iff, all_avail_iff, same]
      rw [unchanged]
      simp [member]
  case issued =>
    intro i alive issued
    show (q1.insts i).srcRegs.all _ = true
    rw [srcs i]
    exact more i alive (core.issued i alive
      ((congrArg (·.isIssued) (woke.insts i)).symm.trans issued))

theorem Core.woke (core : Core q live) (r : Nat) :
    WokeAll { q with dependGraph := update q.dependGraph r [] }
      ((q.dependGraph r).foldl wake { q with dependGraph := update q.dependGraph r [] })
      (q.dependGraph r) := by
  refine foldl_wake (q := { q with dependGraph := update q.dependGraph r [] }) _ ?_
  intro i member
  have alive := core.held r i member
  constructor
  · show (q.insts i).canIssue = false
    cases issues : (q.insts i).canIssue with
    | false => rfl
    | true =>
      have all := core.canIssue i alive issues
      rw [core.blocked member] at all
      cases all
  · show (q.insts i).readyRegs + _ ≤ (q.insts i).srcRegs.length
    rw [core.readyRegs i alive, ← core.countP_written
      { q with regScoreboard := update q.regScoreboard r true } alive rfl]
    exact List.countP_le_length

theorem Core.wakeReg (core : Core q live) (r : Nat) : Core (q.wakeReg r) live := by
  unfold InstructionQueue.wakeReg
  split
  · exact core
  · exact core.written (core.woke r)

/-- What the writing of registers leaves as it was, and what it makes of the scoreboard. -/
structure Wrote (q q' : InstructionQueue numThreads) (live : Nat → Bool) (destRegs : List Nat) :
    Prop where
  insts : ∀ i, ∃ readyRegs canIssue, q'.insts i = { q.insts i with readyRegs, canIssue }
  instList : q'.instList = q.instList
  numPhysRegs : q'.numPhysRegs = q.numPhysRegs
  regScoreboard : ∀ r, q'.regScoreboard r =
    (q.regScoreboard r || (decide (r < q.numPhysRegs) && decide (r ∈ destRegs)))
  ready : ∀ i ∈ q'.ready, i ∈ q.ready ∨ live i = true

theorem Core.wrote (core : Core q live) (r : Nat) : Wrote q (q.wakeReg r) live [r] := by
  have woke := core.woke r
  unfold InstructionQueue.wakeReg
  split
  · rename_i misc
    refine ⟨fun i => ⟨_, _, rfl⟩, rfl, rfl, fun r' => ?_, fun i member => .inl member⟩
    by_cases same : r' = r
    · simp [same, Nat.not_lt.mpr misc]
    · simp [same]
  · rename_i physical
    refine ⟨fun i => ⟨_, _, woke.insts i⟩, congrArg (·.instList) woke.frame,
      congrArg (·.numPhysRegs) woke.frame, fun r' => ?_, fun i member => ?_⟩
    · have board := congrArg (·.regScoreboard) woke.frame
      dsimp only at board ⊢
      rw [board]
      by_cases same : r' = r
      · simp [same, Nat.not_le.mp physical]
      · simp [same]
    · have count := woke.ready i
      have positive := List.count_pos_iff.mpr member
      by_cases waited : i ∈ q.dependGraph r
      · exact .inr (core.held r i waited)
      · refine .inl (List.count_pos_iff.mp ?_)
        rw [if_neg fun both => waited both.1, Nat.add_zero] at count
        exact lt_of_lt_of_eq positive count

theorem countP_idle {list : List Nat} (once : list.Nodup) (f f' : Nat → Bool)
    (same : ∀ j, j ≠ i → f' j = f j) (was : f i = true) (now : f' i = false) :
    list.countP f = list.countP f' + if i ∈ list then 1 else 0 := by
  -- The induction follows the list, in which the element is met at most once.
  induction list with
  | nil => simp
  | cons j list ih =>
    obtain ⟨new, rest⟩ := List.nodup_cons.mp once
    rw [List.countP_cons, List.countP_cons, ih rest]
    by_cases here : j = i
    · subst here
      simp [was, now, new]
    · rw [same j here]
      simp [Ne.symm here]
      omega

theorem Core.once (core : Core q live) (tid : Fin numThreads) : (q.instList tid).Nodup :=
  (core.sorted tid).imp fun less => Nat.ne_of_lt less

/-- The invariant survives a change of one instruction that has nothing to do with the graph. -/
theorem Core.touch (core : Core q live) {inst : IQInst numThreads} {count : Fin numThreads → Nat}
    {freeEntries : Nat} (thread : inst.threadNumber = (q.insts i).threadNumber)
    (here : inst.isSquashedInIQ = (q.insts i).isSquashedInIQ)
    (graph : inst.inGraph = (q.insts i).inGraph) (srcs : inst.srcRegs = (q.insts i).srcRegs)
    (readyRegs : inst.readyRegs = (q.insts i).readyRegs)
    (canIssue : inst.canIssue = true → (q.insts i).canIssue = true)
    (issued : live i = true → inst.isIssued = true → (q.insts i).srcRegs.all q.avail = true)
    (idle : (q.insts i).counts = false → inst.counts = false)
    (counted : ∀ tid, count tid = (q.instList tid).countP fun j =>
      (update q.insts i inst j).counts) :
    Core { q with insts := update q.insts i inst, count, freeEntries } live := by
  -- A field that the instruction keeps is the same for all of them.
  have same {α : Type} (field : IQInst numThreads → α) (kept : field inst = field (q.insts i))
      (j : Nat) : field (update q.insts i inst j) = field (q.insts j) := by
    by_cases this : j = i
    · subst this
      rw [update_self, kept]
    · rw [update_of_ne this]
  constructor
  case sorted => exact core.sorted
  case home =>
    intro j alive
    exact (same (·.threadNumber) thread j) ▸ core.home j alive
  case listed =>
    intro tid j member
    obtain ⟨home, unsquashed, either⟩ := core.listed tid j member
    refine ⟨(same (·.threadNumber) thread j).trans home,
      (same (·.isSquashedInIQ) here j).trans unsquashed, either.imp_right fun quiet => ?_⟩
    by_cases this : j = i
    · subst this
      simpa using idle quiet
    · simpa [this] using quiet
  case count => exact counted
  case inGraph => exact fun j alive => (same (·.inGraph) graph j).trans (core.inGraph j alive)
  case unready =>
    intro j alive src member
    exact core.unready j alive src ((same (·.srcRegs) srcs j) ▸ member)
  case waiting =>
    intro j r alive
    show _ = if _ then 0 else (update q.insts i inst j).srcRegs.countP _
    rw [same (·.srcRegs) srcs j]
    exact core.waiting j r alive
  case held => exact core.held
  case readyRegs =>
    intro j alive
    show (update q.insts i inst j).readyRegs =
      (update q.insts i inst j).srcRegs.countP _
    rw [same (·.srcRegs) srcs j, same (·.readyRegs) readyRegs j]
    exact core.readyRegs j alive
  case canIssue =>
    intro j alive issues
    show (update q.insts i inst j).srcRegs.all _ = true
    rw [same (·.srcRegs) srcs j]
    refine core.canIssue j alive ?_
    by_cases this : j = i
    · subst this
      exact canIssue (by simpa using issues)
    · simpa [this] using issues
  case ready =>
    intro j alive
    show _ = if (update q.insts i inst j).srcRegs.all _ then 1 else 0
    rw [same (·.srcRegs) srcs j]
    exact core.ready j alive
  case issued =>
    intro j alive executed
    show (update q.insts i inst j).srcRegs.all _ = true
    rw [same (·.srcRegs) srcs j]
    by_cases this : j = i
    · subst this
      exact issued alive (by simpa using executed)
    · exact core.issued j alive (by simpa [this] using executed)

theorem Core.count_idle (core : Core q live) {inst : IQInst numThreads} (alive : live i = true)
    (was : (q.insts i).counts = true) (now : inst.counts = false) (tid : Fin numThreads) :
    update q.count (q.insts i).threadNumber (q.count (q.insts i).threadNumber - 1) tid =
      (q.instList tid).countP fun j => (update q.insts i inst j).counts := by
  have fewer := countP_idle (core.once tid) (i := i) (fun j => (q.insts j).counts)
    (fun j => (update q.insts i inst j).counts)
    (fun j other => by simp [other]) was (by simpa using now)
  rw [update_apply]
  split
  · rename_i home
    subst home
    rw [core.count, fewer, if_pos (core.home i alive), Nat.add_sub_cancel]
  · rename_i other
    have absent : i ∉ q.instList tid := fun member => other (core.listed tid i member).1.symm
    rw [core.count, fewer, if_neg absent, Nat.add_zero]

/-- The invariant survives that an instruction is issued. -/
theorem Core.issue (core : Core q live) (alive : live i = true) (member : i ∈ q.ready)
    (undone : (q.insts i).memOpDone = false)
    (first : (q.insts i).isMemRef = true ∨ (q.insts i).isIssued = false) :
    Core (q.issue i) live := by
  have all : (q.insts i).srcRegs.all q.avail = true := by
    cases avail : (q.insts i).srcRegs.all q.avail with
    | true => rfl
    | false =>
      have count := core.ready i alive
      have positive := List.count_pos_iff.mpr member
      simp [avail] at count
      omega
  unfold InstructionQueue.issue
  dsimp only
  split
  · rename_i memRef
    refine core.touch rfl rfl rfl rfl rfl id (fun _ _ => all) ?_ fun tid => ?_
    · simp [IQInst.counts, memRef]
    · show q.count tid = _
      rw [core.count]
      congr 1
      funext j
      by_cases this : j = i
      · subst this
        simp [IQInst.counts, memRef, undone]
      · simp [this]
  · rename_i notMemRef
    have notIssued := first.resolve_left notMemRef
    exact core.touch rfl rfl rfl rfl rfl id (fun _ _ => all) (by simp [IQInst.counts])
      (core.count_idle alive (by simp [IQInst.counts, notIssued])
        (by simp [IQInst.counts, notMemRef]))

theorem Core.clearIssued (core : Core q live) (memRef : (q.insts i).isMemRef = true)
    (undone : (q.insts i).memOpDone = false) :
    Core (q.modify i fun inst => { inst with isIssued := false }) live := by
  refine core.touch rfl rfl rfl rfl rfl id (by simp) ?_ fun tid => ?_
  · simp [IQInst.counts, memRef, undone]
  · show q.count tid = _
    rw [core.count]
    congr 1
    funext j
    by_cases this : j = i
    · subst this
      simp [IQInst.counts, memRef, undone]
    · simp [this]

theorem Core.completeMemInst (core : Core q live) (alive : live i = true)
    (memRef : (q.insts i).isMemRef = true) (issued : (q.insts i).isIssued = true)
    (undone : (q.insts i).memOpDone = false) : Core (q.completeMemInst i) live := by
  refine core.touch rfl rfl rfl rfl rfl id (fun _ executed => core.issued i alive executed) ?_
    (core.count_idle alive (by simp [IQInst.counts, memRef, undone])
      (by simp [IQInst.counts, issued]))
  simp [IQInst.counts, memRef, undone]

theorem Core.wakeRegs (core : Core q live) (dest_regs : List Nat) :
    Core (dest_regs.foldl InstructionQueue.wakeReg q) live := by
  -- The induction follows the registers.
  induction dest_regs generalizing q with
  | nil => exact core
  | cons r dest_regs ih => exact ih (core.wakeReg r)

theorem Core.wroteAll (core : Core q live) (destRegs : List Nat) :
    Wrote q (destRegs.foldl InstructionQueue.wakeReg q) live destRegs := by
  -- The induction follows the registers, each of which stays written.
  induction destRegs generalizing q with
  | nil => exact ⟨fun i => ⟨_, _, rfl⟩, rfl, rfl, by simp, fun i member => .inl member⟩
  | cons r destRegs ih =>
    have first := core.wrote r
    have rest := ih (core.wakeReg r)
    refine ⟨fun i => ?_, rest.instList.trans first.instList,
      rest.numPhysRegs.trans first.numPhysRegs, fun r' => ?_, fun i member => ?_⟩
    · obtain ⟨_, _, one⟩ := first.insts i
      obtain ⟨readyRegs, canIssue, two⟩ := rest.insts i
      exact ⟨readyRegs, canIssue, by rw [List.foldl_cons, two, one]⟩
    · rw [List.foldl_cons, rest.regScoreboard r', first.regScoreboard r', first.numPhysRegs]
      cases physical : decide (r' < q.numPhysRegs) <;> simp [Bool.or_assoc]
    · rcases rest.ready i member with before | alive
      · exact first.ready i before
      · exact .inr alive

theorem Core.notInGraph (core : Core q live) (all : (q.insts i).srcRegs.all q.avail = true)
    (r : Nat) : i ∉ q.dependGraph r := by
  intro member
  rw [core.blocked member] at all
  cases all

theorem Core.idle_notInGraph (core : Core q live) (alive : live i = true)
    (idle : (q.insts i).counts = false) (r : Nat) : i ∉ q.dependGraph r := by
  refine core.notInGraph (core.issued i alive ?_) r
  cases issued : (q.insts i).isIssued with
  | true => rfl
  | false => simp [IQInst.counts, issued] at idle

/-- The invariant survives that instructions leave which are in no list of the graph. -/
theorem Core.leave (core : Core q live) {live' : Nat → Bool}
    {instList : Fin numThreads → List Nat} (was : ∀ i, live' i = true → live i = true)
    (home : ∀ i, live' i = true → i ∈ instList (q.insts i).threadNumber)
    (fewer : ∀ tid, (instList tid).Sublist (q.instList tid))
    (counted : ∀ tid, q.count tid = (instList tid).countP fun i => (q.insts i).counts)
    (gone : ∀ i, live i = true → live' i = false → ∀ r, i ∉ q.dependGraph r)
    (idle : ∀ tid, ∀ i ∈ instList tid, live i = true → live' i = false →
      (q.insts i).counts = false) : Core { q with instList } live' where
  sorted tid := (core.sorted tid).sublist (fewer tid)
  home := home
  listed tid i member := by
    obtain ⟨thread, here, either⟩ := core.listed tid i ((fewer tid).subset member)
    refine ⟨thread, here, ?_⟩
    cases alive : live' i with
    | true => exact .inl rfl
    | false =>
      rcases either with before | quiet
      · exact .inr (idle tid i member before alive)
      · exact .inr quiet
  count := counted
  inGraph i alive := core.inGraph i (was i alive)
  unready i alive := core.unready i (was i alive)
  waiting i r alive := core.waiting i r (was i alive)
  held r i member := by
    cases alive : live' i with
    | true => rfl
    | false => exact absurd member (gone i (core.held r i member) alive r)
  readyRegs i alive := core.readyRegs i (was i alive)
  canIssue i alive := core.canIssue i (was i alive)
  ready i alive := core.ready i (was i alive)
  issued i alive := core.issued i (was i alive)

/-- The oldest instructions leave the list when all of them are over. -/
theorem Core.commit (core : Core q live) {inst : Nat} {live' : Nat → Bool}
    (ended : ∀ i ∈ q.instList tid, i ≤ inst → (q.insts i).counts = false)
    (left : ∀ i, live' i = (live i &&
      !(decide ((q.insts i).threadNumber = tid) && decide (i ≤ inst)))) :
    Core (q.commit tid inst) live' := by
  have was (i : Nat) (alive : live' i = true) : live i = true := by
    rw [left i, Bool.and_eq_true] at alive
    exact alive.1
  have goes (i : Nat) (before : live i = true) (after : live' i = false) :
      (q.insts i).threadNumber = tid ∧ i ≤ inst := by
    simpa [left i, before] using after
  refine core.leave was (fun i alive => ?_) (fun other => ?_) (fun other => ?_)
    (fun i before after r => ?_) fun other i member before after => ?_
  · have here := core.home i (was i alive)
    rw [update_apply]
    split
    · rename_i thread
      rw [thread] at here
      have younger : ¬i ≤ inst := by simpa [left i, was i alive, thread] using alive
      rw [← List.takeWhile_append_dropWhile (p := fun i => decide (i ≤ inst))
        (l := q.instList tid)] at here
      rcases List.mem_append.mp here with old | new
      · have reached := List.mem_takeWhile_imp old
        exact absurd (of_decide_eq_true reached) younger
      · exact new
    · exact here
  · rw [update_apply]
    split
    · rename_i thread
      exact thread ▸ List.dropWhile_sublist _
    · exact List.Sublist.refl _
  · rw [update_apply]
    split
    · rename_i thread
      subst thread
      have none : ((q.instList other).takeWhile fun i => decide (i ≤ inst)).countP
          (fun i => (q.insts i).counts) = 0 := by
        rw [List.countP_eq_zero]
        intro i old
        have reached := List.mem_takeWhile_imp old
        have idle := ended i ((List.takeWhile_sublist _).subset old) (of_decide_eq_true reached)
        simp [idle]
      conv_lhs => rw [core.count, ← List.takeWhile_append_dropWhile
        (p := fun i => decide (i ≤ inst)) (l := q.instList other), List.countP_append, none,
        Nat.zero_add]
    · exact core.count other
  · obtain ⟨thread, old⟩ := goes i before after
    exact core.idle_notInGraph before (ended i (thread ▸ core.home i before) old) r
  · obtain ⟨thread, old⟩ := goes i before after
    exact ended i (thread ▸ core.home i before) old

/-- A queue in which an instruction was taken off the lists of its sources. -/
structure Unlinked (q q' : InstructionQueue numThreads) (i : Nat) (srcs : List SrcReg) : Prop where
  frame : q' = { q with dependGraph := q'.dependGraph }
  fewer : ∀ r, (q'.dependGraph r).Sublist (q.dependGraph r)
  others : ∀ r j, j ≠ i → (q'.dependGraph r).count j = (q.dependGraph r).count j
  own : ∀ r, q.dependGraph r ≠ [] → (q'.dependGraph r).count i +
    srcs.countP (SrcReg.waitsFor r) = (q.dependGraph r).count i

/-- One source is removed from the list of its register, unless that is empty. -/
theorem removeSource_ends {src : SrcReg} (unready : src.ready = false → src.reg < q.numPhysRegs)
    (linked : src.ready = false → q.dependGraph src.reg ≠ [] → i ∈ q.dependGraph src.reg) :
    Ends (fun _ => False) (q.removeSource i src) fun q' => Unlinked q q' i [src] := by
  unfold removeSource
  split
  · rename_i both
    have here := linked both.1
    unfold remove
    split
    · rename_i empty
      refine ⟨rfl, fun r => List.Sublist.refl _, fun r j _ => rfl, fun r nonempty => ?_⟩
      by_cases same : src.reg = r
      · exact absurd (List.isEmpty_iff.mp empty) (same ▸ nonempty)
      · simp [SrcReg.waitsFor, same]
    · rename_i nonempty
      have member := here fun empty => nonempty (List.isEmpty_iff.mpr empty)
      rw [if_pos member]
      refine ⟨rfl, fun r => ?_, fun r j other => ?_, fun r _ => ?_⟩
      · by_cases same : r = src.reg
        · subst same
          simpa using List.erase_sublist
        · simp [same]
      · by_cases same : r = src.reg
        · subst same
          simp [List.count_erase_of_ne other]
        · simp [same]
      · by_cases same : r = src.reg
        · subst same
          have positive := List.count_pos_iff.mpr member
          simp [SrcReg.waitsFor, both.1]
          omega
        · simp [same, SrcReg.waitsFor, Ne.symm same]
  · rename_i known
    refine ⟨rfl, fun r => List.Sublist.refl _, fun r j _ => rfl, fun r _ => ?_⟩
    have ready : src.ready = true := by
      cases ready : src.ready with
      | true => rfl
      | false => exact absurd ⟨ready, unready ready⟩ known
    simp [SrcReg.waitsFor, ready]

/-- All sources are removed, because each list that is not empty has them all. -/
theorem removeSources_ends {srcs : List SrcReg}
    (unready : ∀ src ∈ srcs, src.ready = false → src.reg < q.numPhysRegs)
    (linked : ∀ r, q.dependGraph r ≠ [] →
      srcs.countP (SrcReg.waitsFor r) ≤ (q.dependGraph r).count i) :
    Ends (fun _ => False) (srcs.foldlM (fun q src => q.removeSource i src) q)
      fun q' => Unlinked q q' i srcs := by
  -- The induction follows the sources; removing one leaves the entries of the others.
  induction srcs generalizing q with
  | nil => exact ⟨rfl, fun r => List.Sublist.refl _, fun r j _ => rfl, fun r _ => rfl⟩
  | cons src srcs ih =>
    rw [List.foldlM_cons, ends_bind]
    have first : Ends (fun _ => False) (q.removeSource i src) fun q' => Unlinked q q' i [src] :=
      removeSource_ends (unready src (by simp)) fun waits nonempty => by
        have bound := linked src.reg nonempty
        rw [List.countP_cons] at bound
        have here : src.waitsFor src.reg = true := by simp [SrcReg.waitsFor, waits]
        rw [if_pos here] at bound
        exact List.count_pos_iff.mp (by omega)
    refine first.mono fun q1 step => ?_
    have before (r : Nat) (nonempty : q1.dependGraph r ≠ []) : q.dependGraph r ≠ [] := by
      intro empty
      have sub := step.fewer r
      rw [empty] at sub
      exact nonempty (List.sublist_nil.mp sub)
    refine (ih (q := q1) ?_ ?_).mono fun q2 rest => ?_
    · intro src' member waits
      rw [show q1.numPhysRegs = q.numPhysRegs from congrArg (·.numPhysRegs) step.frame]
      exact unready src' (by simp [member]) waits
    · intro r nonempty
      have bound := linked r (before r nonempty)
      have own := step.own r (before r nonempty)
      rw [List.countP_cons] at bound
      simp only [List.countP_singleton] at own
      omega
    · refine ⟨by rw [rest.frame, step.frame], fun r => (rest.fewer r).trans (step.fewer r),
        fun r j other => (rest.others r j other).trans (step.others r j other), fun r was => ?_⟩
      have own := step.own r was
      rw [List.countP_cons]
      simp only [List.countP_singleton] at own
      by_cases nonempty : q1.dependGraph r = []
      · have sub := rest.fewer r
        rw [nonempty] at sub
        rw [List.sublist_nil.mp sub]
        rw [nonempty] at own
        have bound := linked r was
        rw [List.countP_cons] at bound
        simp only [List.count_nil] at own ⊢
        omega
      · have later := rest.own r nonempty
        omega

theorem Core.linked (core : Core q live) (alive : live i = true) (nonempty : q.dependGraph r ≠ []) :
    (q.dependGraph r).count i = (q.insts i).srcRegs.countP (SrcReg.waitsFor r) := by
  obtain ⟨j, member⟩ := List.exists_mem_of_ne_nil _ nonempty
  have count := core.waiting i r alive
  rw [(core.unwritten member).1] at count
  exact count

/-- What a squash leaves as it was, and what it leaves of the instructions that stay. -/
structure Squashed (q q' : InstructionQueue numThreads) (stays : Nat → Bool) : Prop where
  insts : ∀ j, stays j = true → q'.insts j = q.insts j
  thread : ∀ j, (q'.insts j).threadNumber = (q.insts j).threadNumber
  fewer : ∀ tid, (q'.instList tid).Sublist (q.instList tid)
  regScoreboard : q'.regScoreboard = q.regScoreboard
  numPhysRegs : q'.numPhysRegs = q.numPhysRegs
  ready : q'.ready = q.ready

theorem Squashed.refl (q : InstructionQueue numThreads) (stays : Nat → Bool) :
    Squashed q q stays :=
  ⟨fun _ _ => rfl, fun _ => rfl, fun _ => List.Sublist.refl _, rfl, rfl, rfl⟩

theorem Squashed.trans {q'' : InstructionQueue numThreads} {stays stays' : Nat → Bool}
    (first : Squashed q q' stays) (second : Squashed q' q'' stays')
    (both : ∀ j, stays' j = true → stays j = true) : Squashed q q'' stays' where
  insts j kept := (second.insts j kept).trans (first.insts j (both j kept))
  thread j := (second.thread j).trans (first.thread j)
  fewer tid := (second.fewer tid).trans (first.fewer tid)
  regScoreboard := second.regScoreboard.trans first.regScoreboard
  numPhysRegs := second.numPhysRegs.trans first.numPhysRegs
  ready := second.ready.trans first.ready

theorem erase_fewer (tid other : Fin numThreads) (i : Nat) :
    ((q.erase tid i).instList other).Sublist (q.instList other) := by
  show (update q.instList tid _ other).Sublist _
  rw [update_apply]
  split
  · rename_i home
    exact home ▸ List.erase_sublist
  · exact List.Sublist.refl _

theorem countP_erase (list : List Nat) (i : Nat) (f : Nat → Bool) (member : i ∈ list) :
    list.countP f = (list.erase i).countP f + if f i then 1 else 0 := by
  rw [(List.perm_cons_erase member).countP_eq f, List.countP_cons]

/-- The invariant survives that an instruction leaves which does not count any more. -/
theorem Core.erase (core : Core q live) (idle : (q.insts i).counts = false) :
    Core (q.erase tid i) (update live i false) := by
  have others (j : Nat) (alive : update live i false j = true) :
      j ≠ i ∧ live j = true := by
    by_cases same : j = i
    · simp [same] at alive
    · exact ⟨same, by simpa [same] using alive⟩
  have only (j : Nat) (before : live j = true) (after : update live i false j = false) :
      j = i := by
    by_cases same : j = i
    · exact same
    · rw [update_of_ne same, before] at after
      cases after
  refine core.leave (fun j alive => (others j alive).2) (fun j alive => ?_) (fun other => ?_)
    (fun other => ?_) (fun j before after r => ?_) fun other j _ before after => ?_
  · have here := core.home j (others j alive).2
    rw [update_apply]
    split
    · rename_i thread
      exact (List.mem_erase_of_ne (others j alive).1).mpr (thread ▸ here)
    · exact here
  · rw [update_apply]
    split
    · rename_i thread
      exact thread ▸ List.erase_sublist
    · exact List.Sublist.refl _
  · rw [update_apply]
    split
    · rename_i thread
      subst thread
      rw [core.count]
      by_cases member : i ∈ q.instList other
      · rw [countP_erase _ i _ member, idle]
        simp
      · rw [List.erase_of_not_mem member]
    · exact core.count other
  · obtain rfl := only j before after
    exact core.idle_notInGraph before idle r
  · obtain rfl := only j before after
    exact idle

/-- The invariant survives that an instruction leaves which was unlinked. -/
theorem Core.unlinked (core : Core q live) {graph : Nat → List Nat} (member : i ∈ q.instList tid)
    (counts : (q.insts i).counts = true) (fewer : ∀ r, (graph r).Sublist (q.dependGraph r))
    (others : ∀ r j, j ≠ i → (graph r).count j = (q.dependGraph r).count j)
    (own : ∀ r, (graph r).count i = 0) :
    Core ((({ q with dependGraph := graph } : InstructionQueue numThreads).markSquashed i).erase
      tid i) (update live i false) := by
  have thread := (core.listed tid i member).1
  have split (j : Nat) (alive : update live i false j = true) :
      j ≠ i ∧ live j = true := by
    by_cases same : j = i
    · simp [same] at alive
    · exact ⟨same, by simpa [same] using alive⟩
  -- The instruction stands once in the list of its own thread, and in no other one.
  have absent (other : Fin numThreads) (j : Nat)
      (inside : j ∈ update q.instList tid ((q.instList tid).erase i) other) :
      j ≠ i ∧ j ∈ q.instList other := by
    rw [update_apply] at inside
    split at inside
    · rename_i home
      subst home
      exact ((core.once other).mem_erase_iff).mp inside
    · rename_i away
      refine ⟨fun same => away ?_, inside⟩
      rw [same] at inside
      exact (core.listed other i inside).1.symm.trans thread
  have kept (j : Nat) (other : j ≠ i) :
      ((({ q with dependGraph := graph } : InstructionQueue numThreads).markSquashed i).erase
        tid i).insts j = q.insts j := by
    simp [InstructionQueue.erase, markSquashed, modify, other]
  constructor
  case sorted =>
    intro other
    refine (core.sorted other).sublist ?_
    show (update q.instList tid ((q.instList tid).erase i) other).Sublist _
    rw [update_apply]
    split
    · rename_i home
      exact home ▸ List.erase_sublist
    · exact List.Sublist.refl _
  case home =>
    intro j alive
    obtain ⟨other, before⟩ := split j alive
    rw [kept j other]
    have here := core.home j before
    show j ∈ update q.instList tid ((q.instList tid).erase i) (q.insts j).threadNumber
    rw [update_apply]
    split
    · rename_i home
      exact (List.mem_erase_of_ne other).mpr (home ▸ here)
    · exact here
  case listed =>
    intro home j inside
    obtain ⟨other, before⟩ := absent home j inside
    rw [kept j other, update_of_ne other]
    exact core.listed home j before
  case count =>
    intro other
    have same : (update q.instList tid ((q.instList tid).erase i) other).countP
        (fun j => (((({ q with dependGraph := graph } :
          InstructionQueue numThreads).markSquashed i).erase tid i).insts j).counts) =
        (update q.instList tid ((q.instList tid).erase i) other).countP
          fun j => (q.insts j).counts := by
      refine List.countP_congr fun j inside => ?_
      rw [kept j (absent other j inside).1]
    refine Eq.trans ?_ same.symm
    show update q.count (q.insts i).threadNumber _ other = _
    rw [thread, update_apply, update_apply]
    split
    · show q.count tid - 1 = _
      rw [core.count, countP_erase _ i _ member, counts]
      simp
    · exact core.count other
  case inGraph =>
    intro j alive
    obtain ⟨other, before⟩ := split j alive
    rw [kept j other]
    exact core.inGraph j before
  case unready =>
    intro j alive
    obtain ⟨other, before⟩ := split j alive
    rw [kept j other]
    exact core.unready j before
  case waiting =>
    intro j r alive
    obtain ⟨other, before⟩ := split j alive
    rw [kept j other]
    exact (others r j other).trans (core.waiting j r before)
  case held =>
    intro r j inside
    have other : j ≠ i := by
      intro same
      have inside : j ∈ graph r := inside
      have positive := List.count_pos_iff.mpr inside
      rw [same, own r] at positive
      exact absurd positive (Nat.lt_irrefl 0)
    rw [update_of_ne other]
    exact core.held r j ((fewer r).subset inside)
  case readyRegs =>
    intro j alive
    obtain ⟨other, before⟩ := split j alive
    rw [kept j other]
    exact core.readyRegs j before
  case canIssue =>
    intro j alive
    obtain ⟨other, before⟩ := split j alive
    rw [kept j other]
    exact core.canIssue j before
  case ready =>
    intro j alive
    obtain ⟨other, before⟩ := split j alive
    rw [kept j other]
    exact core.ready j before
  case issued =>
    intro j alive
    obtain ⟨other, before⟩ := split j alive
    rw [kept j other]
    exact core.issued j before

/-- The invariant survives that an instruction is squashed. -/
theorem Core.squashInst (core : Core q live)
    (member : i ∈ q.instList tid) : Ends (fun _ => False) (q.squashInst tid i) fun q' =>
      Core q' (update live i false) ∧ Squashed q q' (fun j => decide (j ≠ i)) ∧
        q'.instList tid = (q.instList tid).erase i := by
  obtain ⟨thread, here, either⟩ := core.listed tid i member
  unfold InstructionQueue.squashInst
  dsimp only
  rw [if_neg (by simp [thread, here])]
  split
  case isFalse idle =>
    exact ⟨core.erase (by simpa using idle), ⟨fun _ _ => rfl, fun _ => rfl,
      fun other => erase_fewer tid other i, rfl, rfl, rfl⟩, update_self ..⟩
  case isTrue counts =>
    have alive : live i = true := either.resolve_right (by simp [counts])
    unfold InstructionQueue.unlink
    rw [if_pos (core.inGraph i alive), ends_bind]
    refine (removeSources_ends (core.unready i alive) fun r nonempty =>
      Nat.le_of_eq (core.linked alive nonempty).symm).mono fun q1 unlinked => ?_
    have own (r : Nat) : (q1.dependGraph r).count i = 0 := by
      by_cases empty : q.dependGraph r = []
      · have sub := unlinked.fewer r
        rw [empty] at sub
        rw [List.sublist_nil.mp sub]
        rfl
      · have sum := unlinked.own r empty
        rw [core.linked alive empty] at sum
        omega
    have rest := core.unlinked member counts unlinked.fewer unlinked.others own
    rw [← unlinked.frame] at rest
    have lists : q1.instList = q.instList := congrArg (·.instList) unlinked.frame
    have insts (j : Nat) : q1.insts j = q.insts j :=
      congrFun (congrArg (·.insts) unlinked.frame) j
    refine ⟨rest, ⟨fun j stays => ?_, fun j => ?_, fun other => ?_, ?_, ?_, ?_⟩, ?_⟩
    · have other : j ≠ i := of_decide_eq_true stays
      show update q1.insts i _ j = _
      rw [update_of_ne other, insts j]
    · show (update q1.insts i _ j).threadNumber = _
      by_cases same : j = i
      · rw [same, update_self, insts i]
      · rw [update_of_ne same, insts j]
    · rw [← lists]
      exact erase_fewer tid other i
    · exact congrArg (·.regScoreboard) unlinked.frame
    · exact congrArg (·.numPhysRegs) unlinked.frame
    · exact congrArg (·.ready) unlinked.frame
    · show update q1.instList tid ((q1.instList tid).erase i) tid = _
      rw [update_self, lists]

/-- What a squash of the younger instructions of a thread leaves. -/
def stays (q : InstructionQueue numThreads) (tid : Fin numThreads) (squashedSeqNum : Nat)
    (j : Nat) : Bool :=
  !(decide ((q.insts j).threadNumber = tid) && decide (squashedSeqNum < j))

/-- The invariant survives that the loop takes the younger instructions off the list. -/
theorem Core.squashLoop (core : Core q live) {squashedSeqNum : Nat} {list : List Nat}
    (rest : q.instList tid = list.reverse) :
    Ends (fun _ => False) (squashLoop tid squashedSeqNum list q) fun q' =>
      Core q' (fun j => live j && q.stays tid squashedSeqNum j) ∧
        Squashed q q' (q.stays tid squashedSeqNum) := by
  -- The induction follows the list from its end on, which is what is left of the thread's list.
  induction list generalizing q live with
  | nil =>
    refine ⟨?_, Squashed.refl q _⟩
    have same : (fun j => live j && q.stays tid squashedSeqNum j) = live := by
      funext j
      cases alive : live j with
      | false => rfl
      | true =>
        have here := core.home j alive
        by_cases thread : (q.insts j).threadNumber = tid
        · rw [thread, rest] at here
          cases here
        · simp [InstructionQueue.stays, thread]
    rw [same]
    exact core
  | cons i older ih =>
    rw [List.reverse_cons] at rest
    have member : i ∈ q.instList tid := by simp [rest]
    unfold InstructionQueue.squashLoop
    split
    · rename_i younger
      rw [ends_bind]
      refine (core.squashInst member).mono fun q1 first => ?_
      obtain ⟨core1, squashed, list1⟩ := first
      have shorter : q1.instList tid = older.reverse := by
        have once := core.once tid
        rw [rest] at once
        have absent : i ∉ older.reverse :=
          fun inside => (List.nodup_append.mp once).2.2 i inside i (by simp) rfl
        rw [list1, rest, List.erase_append_right _ absent]
        simp
      have thread := (core.listed tid i member).1
      have stays : q1.stays tid squashedSeqNum = q.stays tid squashedSeqNum := by
        funext j
        rw [InstructionQueue.stays, InstructionQueue.stays, squashed.thread j]
      refine (ih core1 shorter).mono fun q2 later => ?_
      rw [stays] at later
      have live' : (fun j => update live i false j && q.stays tid squashedSeqNum j) =
          fun j => live j && q.stays tid squashedSeqNum j := by
        funext j
        by_cases same : j = i
        · rw [same, update_self]
          simp [InstructionQueue.stays, thread, younger]
        · rw [update_of_ne same]
      refine ⟨live' ▸ later.1, squashed.trans later.2 fun j kept => ?_⟩
      refine decide_eq_true fun same => ?_
      rw [same] at kept
      simp [InstructionQueue.stays, thread, younger] at kept
    · rename_i reached
      refine ⟨?_, Squashed.refl q _⟩
      have same : (fun j => live j && q.stays tid squashedSeqNum j) = live := by
        funext j
        cases alive : live j with
        | false => rfl
        | true =>
          have here := core.home j alive
          by_cases thread : (q.insts j).threadNumber = tid
          · rw [thread, rest] at here
            have sorted := core.sorted tid
            rw [rest] at sorted
            have bound : j ≤ i := by
              rcases List.mem_append.mp here with old | last
              · exact Nat.le_of_lt ((List.pairwise_append.mp sorted).2.2 j old i (by simp))
              · exact Nat.le_of_eq (List.mem_singleton.mp last)
            simp [InstructionQueue.stays]
            omega
          · simp [InstructionQueue.stays, thread]
      rw [same]
      exact core

theorem Core.squash (core : Core q live) (tid : Fin numThreads) (squashedSeqNum : Nat) :
    Ends (fun _ => False) (q.squash tid squashedSeqNum) fun q' =>
      Core q' (fun j => live j && q.stays tid squashedSeqNum j) ∧
        Squashed q q' (q.stays tid squashedSeqNum) := by
  unfold InstructionQueue.squash
  split
  · exact core.squashLoop (by simp)
  · -- Without one that counts nothing is taken off the list, and nothing of it is in the graph.
    rename_i none
    have idle (j : Nat) (before : live j = true)
        (after : (live j && q.stays tid squashedSeqNum j) = false) :
        (q.insts j).counts = false := by
      have thread : (q.insts j).threadNumber = tid := by
        simp only [before, InstructionQueue.stays, Bool.true_and, Bool.not_eq_false',
          Bool.and_eq_true, decide_eq_true_eq] at after
        exact after.1
      have here := core.home j before
      have empty := core.count tid
      rw [thread] at here
      rw [Nat.eq_zero_of_not_pos none] at empty
      simpa using List.countP_eq_zero.mp empty.symm j here
    refine ⟨?_, Squashed.refl q _⟩
    refine core.leave (fun j alive => (Bool.and_eq_true_iff.mp alive).1)
      (fun j alive => core.home j (Bool.and_eq_true_iff.mp alive).1)
      (fun other => List.Sublist.refl _) core.count
      (fun j before after r => core.idle_notInGraph before (idle j before after) r)
      fun other j _ before after => idle j before after

end InstructionQueue

end GemDroid
