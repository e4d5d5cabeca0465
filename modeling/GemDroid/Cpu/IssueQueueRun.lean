import GemDroid.Cpu.IssueQueueInsert
import GemDroid.Lib.Run

/-! Over every run an instruction is ready exactly when the producers of its registers are done. -/

namespace GemDroid

open Function (update update_apply update_eq_self update_of_ne update_self)

namespace IssueQueueRun

open Outcome InstructionQueue

variable {numThreads : Nat}

/-- The queue, and what the pipeline knows of the instructions in it. -/
structure State (numThreads : Nat) where
  iq : InstructionQueue numThreads
  newest : Nat := 0
  /-- The instructions that were neither committed nor squashed. -/
  live : Nat → Bool := fun _ => false
  done : Nat → Bool := fun _ => false
  /-- The last instruction that was inserted to write a register. -/
  writer : Nat → Option Nat := fun _ => none
  /-- The writer of a register at the time when an instruction was inserted. -/
  source : Nat → Nat → Option Nat := fun _ _ => none

/-- What the pipeline does to the queue. -/
inductive Op (numThreads : Nat) where
  | insert (i : Nat) (new_inst : IQInst numThreads) (depends : Bool)
  | issue (i : Nat)
  | clearIssued (i : Nat)
  | complete (i : Nat)
  | commit (tid : Fin numThreads) (inst : Nat)
  | squash (tid : Fin numThreads) (squashedSeqNum : Nat)

/-- A source register is known to be ready only when its producer is done. -/
def State.knows (s : State numThreads) (src : SrcReg) : Bool :=
  if src.ready then (s.writer src.reg).all s.done
  else decide (src.reg < s.iq.numPhysRegs) && (s.writer src.reg).isSome

/-- A register gets a new producer when nothing in the queue reads or is still to write it. -/
def State.unused (s : State numThreads) (new_inst : IQInst numThreads) (r : Nat) : Bool :=
  decide (s.iq.numPhysRegs ≤ r) ||
    ((new_inst.srcRegs.all fun src => src.reg != r) &&
      decide (∀ tid, ∀ j ∈ s.iq.instList tid, s.live j = true →
        ((s.iq.insts j).srcRegs.all fun src => src.reg != r) = true ∧
          (r ∈ (s.iq.insts j).destRegs → s.done j = true)))

/-- What dispatch inserts speculatively is new and has its registers from rename. -/
def State.renames (s : State numThreads) (i : Nat) (new_inst : IQInst numThreads) : Bool :=
  decide (s.newest < i) && new_inst.inGraph &&
    decide (new_inst.readyRegs = new_inst.srcRegs.countP SrcReg.ready) &&
    (new_inst.canIssue == decide (new_inst.readyRegs = new_inst.srcRegs.length)) &&
    !new_inst.isIssued && !new_inst.memOpDone && !new_inst.isSquashedInIQ &&
    new_inst.srcRegs.all s.knows && new_inst.destRegs.all (s.unused new_inst)

/-- A new instruction is the producer of its registers from now on. -/
def State.inserted (s : State numThreads) (i : Nat) (new_inst : IQInst numThreads)
    (iq : InstructionQueue numThreads) : State numThreads :=
  { s with
    iq
    newest := i
    live := update s.live i true
    writer := fun r =>
      if r < s.iq.numPhysRegs ∧ r ∈ new_inst.destRegs then some i else s.writer r
    source := update s.source i s.writer }

/-- The pipeline takes one step, unless it has to wait or the queue has failed an assertion. -/
def step : Except IQFault (State numThreads) → Op numThreads →
    Option (Except IQFault (State numThreads))
  | .error _, _ => none
  | .ok s, .insert i new_inst depends =>
    if s.iq.freeEntries ≠ 0 ∧ s.renames i new_inst = true then
      some (do return s.inserted i new_inst (← s.iq.insert i new_inst depends))
    else none
  | .ok s, .issue i =>
    if s.live i = true ∧ i ∈ s.iq.ready ∧ s.done i = false ∧
        ((s.iq.insts i).isMemRef = true ∨ (s.iq.insts i).isIssued = false) then
      some (.ok { s with iq := s.iq.issue i })
    else none
  | .ok s, .clearIssued i =>
    if s.live i = true ∧ s.done i = false ∧ (s.iq.insts i).isMemRef = true then
      some (.ok { s with iq := s.iq.modify i fun inst => { inst with isIssued := false } })
    else none
  | .ok s, .complete i =>
    if s.live i = true ∧ s.done i = false ∧ (s.iq.insts i).isIssued = true then
      some (.ok { s with iq := s.iq.wakeDependents i, done := update s.done i true })
    else none
  | .ok s, .commit tid inst =>
    if ∀ j ∈ s.iq.instList tid, j ≤ inst → s.live j = true → s.done j = true then
      some (.ok { s with
        iq := s.iq.commit tid inst
        live := fun j => s.live j &&
          !(decide ((s.iq.insts j).threadNumber = tid) && decide (j ≤ inst)) })
    else none
  | .ok s, .squash tid squashedSeqNum =>
    some (do return { s with
      iq := ← s.iq.squash tid squashedSeqNum
      live := fun j => s.live j && s.iq.stays tid squashedSeqNum j })

/-- The producer of a source register of an instruction is done. -/
def State.produced (s : State numThreads) (i : Nat) (src : SrcReg) : Bool :=
  (s.source i src.reg).all s.done

/--
An instruction became ready once, when the producers of all its source registers were done, and is
on the list of a register once for each source whose producer is not.
-/
structure Woken (s : State numThreads) : Prop where
  ready : ∀ i, s.live i = true →
    s.iq.ready.count i = if (s.iq.insts i).srcRegs.all (s.produced i) then 1 else 0
  waits : ∀ i r, s.live i = true → (s.iq.dependGraph r).count i =
    (s.iq.insts i).srcRegs.countP fun src => src.reg == r && !s.produced i src
  held : ∀ r, ∀ i ∈ s.iq.dependGraph r, s.live i = true

/-- No assertion failed, and every wake-up is exact. -/
def Good : Except IQFault (State numThreads) → Prop
  | .error _ => False
  | .ok s => Woken s

/-- The queue agrees with what the pipeline knows of the producers. -/
structure Inv (s : State numThreads) : Prop where
  core : Core s.iq s.live
  board : ∀ r, s.iq.regScoreboard r = (s.writer r).any s.done
  linked : ∀ i, s.live i = true → ∀ src ∈ (s.iq.insts i).srcRegs,
    s.source i src.reg = s.writer src.reg
  known : ∀ i, s.live i = true → ∀ src ∈ (s.iq.insts i).srcRegs, src.ready = true →
    s.produced i src = true
  awaited : ∀ i, s.live i = true → ∀ src ∈ (s.iq.insts i).srcRegs, src.ready = false →
    (s.writer src.reg).isSome = true
  producers : ∀ p, s.live p = true → s.done p = false → ∀ r ∈ (s.iq.insts p).destRegs,
    r < s.iq.numPhysRegs → s.writer r = some p
  writers : ∀ r p, s.writer r = some p → s.live p = true →
    r < s.iq.numPhysRegs ∧ r ∈ (s.iq.insts p).destRegs
  idle : ∀ i, s.live i = true → s.done i = true → (s.iq.insts i).counts = false
  undone : ∀ i, s.live i = true → s.done i = false → (s.iq.insts i).memOpDone = false
  written : ∀ r p, s.writer r = some p → p ≤ s.newest
  listed : ∀ tid, ∀ i ∈ s.iq.instList tid, i ≤ s.newest
  readied : ∀ i ∈ s.iq.ready, i ≤ s.newest
  ended : ∀ i, s.done i = true → i ≤ s.newest

variable {s : State numThreads}

theorem Inv.avail_eq (inv : Inv s) {i : Nat} (alive : s.live i = true) {src : SrcReg}
    (member : src ∈ (s.iq.insts i).srcRegs) : s.iq.avail src = s.produced i src := by
  cases ready : src.ready with
  | true =>
    rw [inv.known i alive src member ready]
    simp [avail, ready]
  | false =>
    have link := inv.linked i alive src member
    obtain ⟨p, writer⟩ := Option.isSome_iff_exists.mp (inv.awaited i alive src member ready)
    rw [avail, ready, inv.board, State.produced, link, writer]
    rfl

theorem Inv.woken (inv : Inv s) : Woken s where
  ready i alive := by
    have all : (s.iq.insts i).srcRegs.all s.iq.avail =
        (s.iq.insts i).srcRegs.all (s.produced i) := by
      rw [Bool.eq_iff_iff, List.all_eq_true, List.all_eq_true]
      refine forall₂_congr fun src member => ?_
      rw [inv.avail_eq alive member]
    rw [inv.core.ready i alive, all]
  waits i r alive := by
    rw [inv.core.waiting i r alive]
    cases board : s.iq.regScoreboard r with
    | true =>
      have none : ((s.iq.insts i).srcRegs.countP fun src =>
          src.reg == r && !s.produced i src) = 0 := by
        rw [List.countP_eq_zero]
        intro src member
        by_cases same : src.reg = r
        · rw [← inv.avail_eq alive member]
          simp [avail, same, board]
        · simp [same]
      rw [none]
      rfl
    | false =>
      refine List.countP_congr fun src member => ?_
      by_cases same : src.reg = r
      · rw [← inv.avail_eq alive member]
        simp [SrcReg.waitsFor, avail, same, board]
      · simp [SrcReg.waitsFor, same]
  held := inv.core.held

theorem Inv.again (inv : Inv s) {iq : InstructionQueue numThreads} {live : Nat → Bool}
    (core : Core iq live) (was : ∀ i, live i = true → s.live i = true)
    (srcs : ∀ i, live i = true → (iq.insts i).srcRegs = (s.iq.insts i).srcRegs)
    (dests : ∀ i, live i = true → (iq.insts i).destRegs = (s.iq.insts i).destRegs)
    (board : iq.regScoreboard = s.iq.regScoreboard) (phys : iq.numPhysRegs = s.iq.numPhysRegs)
    (ready : iq.ready = s.iq.ready)
    (fewer : ∀ tid, (iq.instList tid).Sublist (s.iq.instList tid))
    (idle : ∀ i, live i = true → s.done i = true → (iq.insts i).counts = false)
    (undone : ∀ i, live i = true → s.done i = false → (iq.insts i).memOpDone = false) :
    Inv { s with iq, live } where
  core := core
  board r := by
    rw [board]
    exact inv.board r
  linked i alive src member := inv.linked i (was i alive) src (srcs i alive ▸ member)
  known i alive src member := inv.known i (was i alive) src (srcs i alive ▸ member)
  awaited i alive src member := inv.awaited i (was i alive) src (srcs i alive ▸ member)
  producers p alive going r member physical :=
    inv.producers p (was p alive) going r (dests p alive ▸ member) (phys ▸ physical)
  writers r p writes alive := by
    rw [phys, dests p alive]
    exact inv.writers r p writes (was p alive)
  idle := idle
  undone := undone
  written := inv.written
  listed tid i member := inv.listed tid i ((fewer tid).subset member)
  readied i member := inv.readied i (ready ▸ member)
  ended := inv.ended

/-- What dispatch checks of a new instruction. -/
structure Renamed (s : State numThreads) (i : Nat) (new_inst : IQInst numThreads) : Prop where
  newer : s.newest < i
  fresh : Fresh s.iq new_inst
  memOpDone : new_inst.memOpDone = false
  ready : ∀ src ∈ new_inst.srcRegs, src.ready = true → (s.writer src.reg).all s.done = true
  awaited : ∀ src ∈ new_inst.srcRegs, src.ready = false → (s.writer src.reg).isSome = true
  own : ∀ r ∈ new_inst.destRegs, r < s.iq.numPhysRegs → ∀ src ∈ new_inst.srcRegs, src.reg ≠ r
  unused : ∀ r ∈ new_inst.destRegs, r < s.iq.numPhysRegs →
    ∀ tid, ∀ j ∈ s.iq.instList tid, s.live j = true →
      (∀ src ∈ (s.iq.insts j).srcRegs, src.reg ≠ r) ∧
        (r ∈ (s.iq.insts j).destRegs → s.done j = true)

theorem renamed_of_renames {i : Nat} {new_inst : IQInst numThreads}
    (renames : s.renames i new_inst = true) : Renamed s i new_inst := by
  simp only [State.renames, Bool.and_eq_true, decide_eq_true_eq, beq_iff_eq, Bool.not_eq_true',
    List.all_eq_true] at renames
  obtain ⟨⟨⟨⟨⟨⟨⟨⟨newer, graph⟩, readyRegs⟩, canIssue⟩, issued⟩, memOpDone⟩, squashed⟩, knows⟩,
    unused⟩ := renames
  have known (src : SrcReg) (member : src ∈ new_inst.srcRegs) (unready : src.ready = false) :
      src.reg < s.iq.numPhysRegs ∧ (s.writer src.reg).isSome = true := by
    simpa [State.knows, unready] using knows src member
  have free (r : Nat) (member : r ∈ new_inst.destRegs) (physical : r < s.iq.numPhysRegs) :
      (∀ src ∈ new_inst.srcRegs, src.reg ≠ r) ∧ ∀ tid, ∀ j ∈ s.iq.instList tid, s.live j = true →
        (∀ src ∈ (s.iq.insts j).srcRegs, src.reg ≠ r) ∧
          (r ∈ (s.iq.insts j).destRegs → s.done j = true) := by
    simpa [State.unused, Nat.not_le.mpr physical] using unused r member
  exact {
    newer
    fresh := {
      inGraph := graph
      unready := fun src member unready => (known src member unready).1
      readyRegs
      canIssue
      isIssued := issued
      isSquashedInIQ := squashed }
    memOpDone
    ready := fun src member ready => by simpa [State.knows, ready] using knows src member
    awaited := fun src member unready => (known src member unready).2
    own := fun r member physical => (free r member physical).1
    unused := fun r member physical => (free r member physical).2 }

/-- The invariant survives an insertion. -/
theorem insert_inv (inv : Inv s) {i : Nat} {new_inst : IQInst numThreads} {depends : Bool}
    (room : s.iq.freeEntries ≠ 0) (renamed : Renamed s i new_inst) :
    Ends (fun _ => False) (s.iq.insert i new_inst depends) fun iq =>
      Inv (s.inserted i new_inst iq) := by
  have newer := renamed.newer
  have unknown : s.live i = false := by
    cases alive : s.live i with
    | false => rfl
    | true =>
      have bound := inv.listed _ i (inv.core.home i alive)
      omega
  have undone : s.done i = false := by
    cases finished : s.done i with
    | false => rfl
    | true =>
      have bound := inv.ended i finished
      omega
  have free (r : Nat) (member : r ∈ new_inst.destRegs) (physical : r < s.iq.numPhysRegs) (j : Nat)
      (alive : s.live j = true) :=
        renamed.unused r member physical _ j (inv.core.home j alive) alive
  refine (inv.core.insert depends renamed.fresh unknown
    (fun tid j member => Nat.lt_of_le_of_lt (inv.listed tid j member) newer)
    (fun member => Nat.lt_irrefl i (Nat.lt_of_le_of_lt (inv.readied i member) newer)) room
    fun r member physical => ⟨renamed.own r member physical,
      fun j alive => (free r member physical j alive).1⟩).mono fun iq result => ?_
  obtain ⟨core, inserted⟩ := result
  obtain ⟨canIssue, own⟩ := inserted.own
  have before (j : Nat) (other : j ≠ i) (alive : update s.live i true j = true) :
      s.live j = true := by
    rwa [update_of_ne other] at alive
  have source (j : Nat) (other : j ≠ i) :
      (s.inserted i new_inst iq).source j = s.source j := update_of_ne other ..
  have same (r : Nat) (not_given : ¬(r < s.iq.numPhysRegs ∧ r ∈ new_inst.destRegs)) :
      (s.inserted i new_inst iq).writer r = s.writer r := if_neg not_given
  have given (r : Nat) (both : r < s.iq.numPhysRegs ∧ r ∈ new_inst.destRegs) :
      (s.inserted i new_inst iq).writer r = some i := if_pos both
  -- A register that something in the queue reads keeps its producer.
  have kept (j : Nat) (alive : s.live j = true) (src : SrcReg)
      (member : src ∈ (s.iq.insts j).srcRegs) :
      (s.inserted i new_inst iq).writer src.reg = s.writer src.reg :=
    same _ fun both => (free _ both.2 both.1 j alive).1 src member rfl
  have seen (src : SrcReg) (member : src ∈ (iq.insts i).srcRegs) :
      ∃ old ∈ new_inst.srcRegs, s.iq.seen old = src := by
    rw [own] at member
    exact List.mem_map.mp member
  have fixed (src : SrcReg) (member : src ∈ (iq.insts i).srcRegs) :
      (s.inserted i new_inst iq).writer src.reg = s.writer src.reg := by
    obtain ⟨old, inside, looked⟩ := seen src member
    refine same _ fun both => ?_
    rw [← looked] at both
    exact renamed.own _ both.2 both.1 old inside rfl
  constructor
  case core => exact core
  case board =>
    intro r
    show iq.regScoreboard r = _
    rw [inserted.regScoreboard, claimed]
    by_cases both : r < s.iq.numPhysRegs ∧ r ∈ new_inst.destRegs
    · rw [given r both]
      show _ = s.done i
      rw [undone]
      simp [both]
    · rw [same r both, inv.board r]
      show _ = (s.writer r).any s.done
      rcases not_and_or.mp both with outside | other
      · simp [outside]
      · simp [other]
  case linked =>
    intro j alive src member
    by_cases this : j = i
    · subst this
      rw [fixed src member]
      exact congrFun (update_self ..) src.reg
    · have member : src ∈ (iq.insts j).srcRegs := member
      rw [inserted.others j this] at member
      rw [source j this, kept j (before j this alive) src member]
      exact inv.linked j (before j this alive) src member
  case known =>
    intro j alive src member ready
    by_cases this : j = i
    · subst this
      obtain ⟨old, inside, looked⟩ := seen src member
      rw [← looked] at ready ⊢
      show Option.all s.done (update s.source j s.writer j old.reg) = true
      rw [update_self]
      rw [(seen_avail (renamed.fresh.unready old inside)).2] at ready
      rcases Bool.or_eq_true_iff.mp ready with flag | board
      · exact renamed.ready old inside flag
      · rw [inv.board] at board
        cases writer : s.writer old.reg with
        | none => rfl
        | some p =>
          rw [writer] at board
          exact board
    · have member : src ∈ (iq.insts j).srcRegs := member
      rw [inserted.others j this] at member
      have old := inv.known j (before j this alive) src member ready
      rw [State.produced, source j this]
      exact old
  case awaited =>
    intro j alive src member unready
    by_cases this : j = i
    · subst this
      obtain ⟨old, inside, looked⟩ := seen src member
      rw [fixed src member, ← looked]
      rw [← looked] at unready
      refine renamed.awaited old inside ?_
      simp only [InstructionQueue.seen, Bool.or_eq_false_iff] at unready
      exact unready.1
    · have member : src ∈ (iq.insts j).srcRegs := member
      rw [inserted.others j this] at member
      rw [kept j (before j this alive) src member]
      exact inv.awaited j (before j this alive) src member unready
  case producers =>
    intro p alive going r member physical
    have physical : r < iq.numPhysRegs := physical
    rw [inserted.numPhysRegs] at physical
    have member : r ∈ (iq.insts p).destRegs := member
    by_cases this : p = i
    · rw [this, own] at member
      rw [this]
      exact given r ⟨physical, member⟩
    · rw [inserted.others p this] at member
      have writes := inv.producers p (before p this alive) going r member physical
      rw [same r fun both => ?_, writes]
      have finished := (free r both.2 both.1 p (before p this alive)).2 member
      rw [show s.done p = false from going] at finished
      cases finished
  case writers =>
    intro r p writes alive
    show r < iq.numPhysRegs ∧ r ∈ (iq.insts p).destRegs
    rw [inserted.numPhysRegs]
    by_cases both : r < s.iq.numPhysRegs ∧ r ∈ new_inst.destRegs
    · rw [given r both] at writes
      obtain rfl := Option.some.inj writes
      rw [own]
      exact both
    · rw [same r both] at writes
      have bound := inv.written r p writes
      have this : p ≠ i := by omega
      rw [inserted.others p this]
      exact inv.writers r p writes (before p this alive)
  case idle =>
    intro j alive finished
    have bound := inv.ended j finished
    have this : j ≠ i := by omega
    show (iq.insts j).counts = false
    rw [inserted.others j this]
    exact inv.idle j (before j this alive) finished
  case undone =>
    intro j alive going
    show (iq.insts j).memOpDone = false
    by_cases this : j = i
    · rw [this, own]
      exact renamed.memOpDone
    · rw [inserted.others j this]
      exact inv.undone j (before j this alive) going
  case written =>
    intro r p writes
    by_cases both : r < s.iq.numPhysRegs ∧ r ∈ new_inst.destRegs
    · rw [given r both] at writes
      exact Nat.le_of_eq (Option.some.inj writes).symm
    · rw [same r both] at writes
      have bound := inv.written r p writes
      exact Nat.le_of_lt (Nat.lt_of_le_of_lt bound newer)
  case listed =>
    intro tid j member
    rcases inserted.listed tid j member with this | old
    · exact Nat.le_of_eq this
    · exact Nat.le_of_lt (Nat.lt_of_le_of_lt (inv.listed tid j old) newer)
  case readied =>
    intro j member
    rcases inserted.readied j member with this | old
    · exact Nat.le_of_eq this
    · exact Nat.le_of_lt (Nat.lt_of_le_of_lt (inv.readied j old) newer)
  case ended =>
    intro j finished
    exact Nat.le_of_lt (Nat.lt_of_le_of_lt (inv.ended j finished) newer)

/-- The invariant survives that an instruction is issued. -/
theorem issue_inv (inv : Inv s) {i : Nat} (alive : s.live i = true) (member : i ∈ s.iq.ready)
    (going : s.done i = false)
    (first : (s.iq.insts i).isMemRef = true ∨ (s.iq.insts i).isIssued = false) :
    Inv { s with iq := s.iq.issue i } := by
  have insts : (s.iq.issue i).insts =
      update s.iq.insts i { s.iq.insts i with isIssued := true } := by
    unfold InstructionQueue.issue
    dsimp only
    split <;> rfl
  have rest : (s.iq.issue i).instList = s.iq.instList ∧
      (s.iq.issue i).numPhysRegs = s.iq.numPhysRegs ∧ (s.iq.issue i).ready = s.iq.ready ∧
      (s.iq.issue i).regScoreboard = s.iq.regScoreboard := by
    unfold InstructionQueue.issue
    dsimp only
    split <;> exact ⟨rfl, rfl, rfl, rfl⟩
  have same {α : Type} (field : IQInst numThreads → α)
      (kept : field { s.iq.insts i with isIssued := true } = field (s.iq.insts i)) (j : Nat) :
      field ((s.iq.issue i).insts j) = field (s.iq.insts j) := by
    rw [insts]
    by_cases this : j = i
    · rw [this, update_self, kept]
    · rw [update_of_ne this]
  refine inv.again (inv.core.issue alive member (inv.undone i alive going) first)
    (fun _ alive' => alive') (fun j _ => same (·.srcRegs) rfl j)
    (fun j _ => same (·.destRegs) rfl j) rest.2.2.2 rest.2.1 rest.2.2.1
    (fun tid => rest.1 ▸ List.Sublist.refl _) (fun j alive' finished => ?_)
      fun j alive' going' => ?_
  · have this : j ≠ i := by
      intro this
      rw [this, going] at finished
      cases finished
    rw [insts, update_of_ne this]
    exact inv.idle j alive' finished
  · rw [same (·.memOpDone) rfl j]
    exact inv.undone j alive' going'

theorem clearIssued_inv (inv : Inv s) {i : Nat} (alive : s.live i = true)
    (going : s.done i = false) (memRef : (s.iq.insts i).isMemRef = true) :
    Inv { s with iq := s.iq.modify i fun inst => { inst with isIssued := false } } := by
  have same {α : Type} (field : IQInst numThreads → α)
      (kept : field { s.iq.insts i with isIssued := false } = field (s.iq.insts i)) (j : Nat) :
      field ((s.iq.modify i fun inst => { inst with isIssued := false }).insts j) =
        field (s.iq.insts j) := by
    show field (update s.iq.insts i _ j) = _
    by_cases this : j = i
    · rw [this, update_self, kept]
    · rw [update_of_ne this]
  refine inv.again (inv.core.clearIssued memRef (inv.undone i alive going))
    (fun _ alive' => alive') (fun j _ => same (·.srcRegs) rfl j)
    (fun j _ => same (·.destRegs) rfl j) rfl rfl rfl (fun tid => List.Sublist.refl _)
    (fun j alive' finished => ?_) fun j alive' going' => ?_
  · have this : j ≠ i := by
      intro this
      rw [this, going] at finished
      cases finished
    show (update s.iq.insts i _ j).counts = false
    rw [update_of_ne this]
    exact inv.idle j alive' finished
  · rw [same (·.memOpDone) rfl j]
    exact inv.undone j alive' going'

theorem commit_inv (inv : Inv s) {tid : Fin numThreads} {inst : Nat}
    (ended : ∀ j ∈ s.iq.instList tid, j ≤ inst → s.live j = true → s.done j = true) :
    Inv { s with
      iq := s.iq.commit tid inst
      live := fun j => s.live j &&
        !(decide ((s.iq.insts j).threadNumber = tid) && decide (j ≤ inst)) } := by
  have was (j : Nat) (alive : (s.live j &&
      !(decide ((s.iq.insts j).threadNumber = tid) && decide (j ≤ inst))) = true) :
      s.live j = true := (Bool.and_eq_true_iff.mp alive).1
  refine inv.again (inv.core.commit (fun j member old => ?_) fun _ => rfl) was
    (fun _ _ => rfl) (fun _ _ => rfl) rfl rfl rfl (fun other => ?_)
    (fun j alive finished => inv.idle j (was j alive) finished)
    fun j alive going => inv.undone j (was j alive) going
  · rcases (inv.core.listed tid j member).2.2 with alive | idle
    · exact inv.idle j alive (ended j member old alive)
    · exact idle
  · show (update s.iq.instList tid _ other).Sublist _
    rw [update_apply]
    split
    · rename_i home
      exact home ▸ List.dropWhile_sublist _
    · exact List.Sublist.refl _

theorem squash_inv (inv : Inv s) (tid : Fin numThreads) (squashedSeqNum : Nat) :
    Ends (fun _ => False) (s.iq.squash tid squashedSeqNum) fun iq => Inv { s with
      iq
      live := fun j => s.live j && s.iq.stays tid squashedSeqNum j } := by
  refine (inv.core.squash tid squashedSeqNum).mono fun iq result => ?_
  obtain ⟨core, squashed⟩ := result
  have both (j : Nat) (alive : (s.live j && s.iq.stays tid squashedSeqNum j) = true) :
      s.live j = true ∧ iq.insts j = s.iq.insts j := by
    obtain ⟨before, stays⟩ := Bool.and_eq_true_iff.mp alive
    exact ⟨before, squashed.insts j stays⟩
  refine inv.again core (fun j alive => (both j alive).1)
    (fun j alive => by rw [(both j alive).2]) (fun j alive => by rw [(both j alive).2])
    squashed.regScoreboard squashed.numPhysRegs squashed.ready squashed.fewer
    (fun j alive finished => ?_) fun j alive going => ?_
  · rw [(both j alive).2]
    exact inv.idle j (both j alive).1 finished
  · rw [(both j alive).2]
    exact inv.undone j (both j alive).1 going

/-- The invariant survives that an instruction completes and wakes what waits for it. -/
theorem complete_inv (inv : Inv s) {i : Nat} (alive : s.live i = true) (going : s.done i = false)
    (issued : (s.iq.insts i).isIssued = true) : Inv { s with
      iq := s.iq.wakeDependents i
      done := update s.done i true } := by
  -- First a memory instruction frees its entry, then the registers are written.
  obtain ⟨q1, q1_eq⟩ : ∃ q1, q1 =
      if (s.iq.insts i).isMemRef = true then s.iq.completeMemInst i else s.iq := ⟨_, rfl⟩
  have core1 : Core q1 s.live := by
    rw [q1_eq]
    split
    · rename_i memRef
      exact inv.core.completeMemInst alive memRef issued (inv.undone i alive going)
    · exact inv.core
  have insts1 : q1.insts = update s.iq.insts i { s.iq.insts i with
      memOpDone := (s.iq.insts i).isMemRef || (s.iq.insts i).memOpDone } := by
    rw [q1_eq]
    split
    · rename_i memRef
      rw [memRef]
      rfl
    · rename_i notMemRef
      rw [Bool.eq_false_iff.mpr notMemRef, Bool.false_or, update_eq_self]
  have rest1 : q1.instList = s.iq.instList ∧ q1.numPhysRegs = s.iq.numPhysRegs ∧
      q1.ready = s.iq.ready ∧ q1.regScoreboard = s.iq.regScoreboard := by
    rw [q1_eq]
    split <;> exact ⟨rfl, rfl, rfl, rfl⟩
  have wrote := core1.wroteAll (s.iq.insts i).destRegs
  have final : s.iq.wakeDependents i = (s.iq.insts i).destRegs.foldl wakeReg q1 := by
    unfold wakeDependents
    dsimp only
    rw [← q1_eq, insts1, update_self]
  have core := core1.wakeRegs (s.iq.insts i).destRegs
  rw [← final] at wrote core
  have same {α : Type} (field : IQInst numThreads → α)
      (woken : ∀ inst readyRegs canIssue, field { inst with readyRegs, canIssue } = field inst)
      (kept : ∀ inst memOpDone, field { inst with memOpDone } = field inst) (j : Nat) :
      field ((s.iq.wakeDependents i).insts j) = field (s.iq.insts j) := by
    obtain ⟨_, _, eq⟩ := wrote.insts j
    rw [eq, woken, insts1]
    by_cases this : j = i
    · rw [this, update_self, kept]
    · rw [update_of_ne this]
  have other (j : Nat) (this : j ≠ i) :
      ((s.iq.wakeDependents i).insts j).counts = (s.iq.insts j).counts ∧
        ((s.iq.wakeDependents i).insts j).memOpDone = (s.iq.insts j).memOpDone := by
    obtain ⟨_, _, eq⟩ := wrote.insts j
    rw [eq, insts1, update_of_ne this]
    exact ⟨rfl, rfl⟩
  have srcs := same (·.srcRegs) (fun _ _ _ => rfl) fun _ _ => rfl
  have dests := same (·.destRegs) (fun _ _ _ => rfl) fun _ _ => rfl
  have phys : (s.iq.wakeDependents i).numPhysRegs = s.iq.numPhysRegs :=
    wrote.numPhysRegs.trans rest1.2.1
  have bound : i ≤ s.newest := inv.listed _ i (inv.core.home i alive)
  constructor
  case core => exact core
  case board =>
    intro r
    show (s.iq.wakeDependents i).regScoreboard r =
      (s.writer r).any (update s.done i true)
    rw [wrote.regScoreboard, rest1.2.2.2, rest1.2.1, inv.board]
    have own (physical : r < s.iq.numPhysRegs) (member : r ∈ (s.iq.insts i).destRegs) :=
      inv.producers i alive going r member physical
    cases writer : s.writer r with
    | none =>
      have none : ¬(r < s.iq.numPhysRegs ∧ r ∈ (s.iq.insts i).destRegs) := by
        intro both
        rw [own both.1 both.2] at writer
        cases writer
      rcases not_and_or.mp none with outside | absent
      · simp [outside]
      · simp [absent]
    | some p =>
      by_cases this : p = i
      · rw [this] at writer
        obtain ⟨physical, member⟩ := inv.writers r i writer alive
        simp [this, physical, member]
      · have none : ¬(r < s.iq.numPhysRegs ∧ r ∈ (s.iq.insts i).destRegs) := by
          intro both
          rw [own both.1 both.2] at writer
          exact this (Option.some.inj writer).symm
        rcases not_and_or.mp none with outside | absent
        · simp [outside, this]
        · simp [absent, this]
  case linked =>
    intro j alive' src member
    exact inv.linked j alive' src (srcs j ▸ member)
  case known =>
    intro j alive' src member ready
    have before := inv.known j alive' src (srcs j ▸ member) ready
    rw [State.produced] at before ⊢
    show Option.all (update s.done i true) (s.source j src.reg) = true
    cases source : s.source j src.reg with
    | none => rfl
    | some p =>
      rw [source] at before
      show update s.done i true p = true
      rw [update_apply]
      split
      · rfl
      · exact before
  case awaited =>
    intro j alive' src member
    exact inv.awaited j alive' src (srcs j ▸ member)
  case producers =>
    intro p alive' going' r member physical
    have going' : update s.done i true p = false := going'
    have this : p ≠ i := by
      intro this
      rw [this, update_self] at going'
      cases going'
    rw [update_of_ne this] at going'
    exact inv.producers p alive' going' r (dests p ▸ member) (phys ▸ physical)
  case writers =>
    intro r p writes alive'
    show r < (s.iq.wakeDependents i).numPhysRegs ∧ r ∈ ((s.iq.wakeDependents i).insts p).destRegs
    rw [phys, dests p]
    exact inv.writers r p writes alive'
  case idle =>
    intro j alive' finished
    show ((s.iq.wakeDependents i).insts j).counts = false
    by_cases this : j = i
    · obtain ⟨_, _, eq⟩ := wrote.insts j
      rw [eq, insts1, this, update_self]
      cases memRef : (s.iq.insts i).isMemRef <;> simp [IQInst.counts, issued, memRef]
    · rw [(other j this).1]
      have finished : update s.done i true j = true := finished
      rw [update_of_ne this] at finished
      exact inv.idle j alive' finished
  case undone =>
    intro j alive' going'
    have going' : update s.done i true j = false := going'
    have this : j ≠ i := by
      intro this
      rw [this, update_self] at going'
      cases going'
    rw [update_of_ne this] at going'
    show ((s.iq.wakeDependents i).insts j).memOpDone = false
    rw [(other j this).2]
    exact inv.undone j alive' going'
  case written => exact inv.written
  case listed =>
    intro tid j member
    have member : j ∈ (s.iq.wakeDependents i).instList tid := member
    rw [wrote.instList, rest1.1] at member
    exact inv.listed tid j member
  case readied =>
    intro j member
    rcases wrote.ready j member with before | alive'
    · exact inv.readied j (rest1.2.2.1 ▸ before)
    · exact inv.listed _ j (inv.core.home j alive')
  case ended =>
    intro j finished
    have finished : update s.done i true j = true := finished
    rw [update_apply] at finished
    split at finished
    · rename_i this
      exact this ▸ bound
    · exact inv.ended j finished

/-- The invariant, of a state that was reached without a failed assertion. -/
def Invariant : Except IQFault (State numThreads) → Prop
  | .error _ => False
  | .ok s => Inv s

theorem step_inv (inv : Inv s) {op : Op numThreads} {t : Except IQFault (State numThreads)}
    (taken : step (.ok s) op = some t) : Ends (fun _ => False) t Inv := by
  cases op with
  | insert i new_inst depends =>
    obtain ⟨allowed, result⟩ := Option.ite_none_right_eq_some.mp taken
    obtain rfl := Option.some.inj result
    rw [ends_bind]
    exact insert_inv inv allowed.1 (renamed_of_renames allowed.2)
  | issue i =>
    obtain ⟨allowed, result⟩ := Option.ite_none_right_eq_some.mp taken
    obtain rfl := Option.some.inj result
    exact issue_inv inv allowed.1 allowed.2.1 allowed.2.2.1 allowed.2.2.2
  | clearIssued i =>
    obtain ⟨allowed, result⟩ := Option.ite_none_right_eq_some.mp taken
    obtain rfl := Option.some.inj result
    exact clearIssued_inv inv allowed.1 allowed.2.1 allowed.2.2
  | complete i =>
    obtain ⟨allowed, result⟩ := Option.ite_none_right_eq_some.mp taken
    obtain rfl := Option.some.inj result
    exact complete_inv inv allowed.1 allowed.2.1 allowed.2.2
  | commit tid inst =>
    obtain ⟨allowed, result⟩ := Option.ite_none_right_eq_some.mp taken
    obtain rfl := Option.some.inj result
    exact commit_inv inv allowed
  | squash tid squashedSeqNum =>
    obtain rfl := Option.some.inj taken
    rw [ends_bind]
    exact squash_inv inv tid squashedSeqNum

/-- An empty queue. -/
def start (numPhysRegs freeEntries : Nat) (insts : Nat → IQInst numThreads) :
    State numThreads where
  iq := { numPhysRegs, insts, freeEntries }

theorem start_inv (numPhysRegs freeEntries : Nat) (insts : Nat → IQInst numThreads) :
    Inv (start numPhysRegs freeEntries insts) where
  core := {
    sorted := fun _ => List.Pairwise.nil
    home := by simp [start]
    listed := by simp [start]
    count := by simp [start]
    inGraph := by simp [start]
    unready := by simp [start]
    waiting := by simp [start]
    held := by simp [start]
    readyRegs := by simp [start]
    canIssue := by simp [start]
    ready := by simp [start]
    issued := by simp [start] }
  board := by simp [start]
  linked := by simp [start]
  known := by simp [start]
  awaited := by simp [start]
  producers := by simp [start]
  writers := by simp [start]
  idle := by simp [start]
  undone := by simp [start]
  written := by simp [start]
  listed := by simp [start]
  readied := by simp [start]
  ended := by simp [start]

/-- In every run every instruction is woken exactly, and no assertion fails. -/
theorem wakeups_exact (numPhysRegs freeEntries : Nat) (insts : Nat → IQInst numThreads)
    (ops : List (Op numThreads)) :
    Machine.Always step Good (.ok (start numPhysRegs freeEntries insts)) ops := by
  refine Machine.always_of_invariant (I := Invariant) ?_ ?_
    (start_inv numPhysRegs freeEntries insts)
  · intro s inv
    cases s with
    | error fault => exact inv
    | ok s => exact Inv.woken inv
  · intro s op t inv taken
    cases s with
    | error fault => exact inv.elim
    | ok s =>
      have ends := step_inv inv taken
      cases t with
      | error fault => exact ends
      | ok t => exact ends

/-- A consumer that reads one register twice is woken once, by the producer of the register. -/
example : (Machine.run step
    (.ok (start 4 8 fun _ => ({ threadNumber := ⟨0, Nat.one_pos⟩ } : IQInst 1)))
    [.insert 1 { threadNumber := 0, destRegs := [3], canIssue := true } false,
      .insert 2 { threadNumber := 0, srcRegs := [⟨3, false⟩, ⟨3, false⟩], destRegs := [2] } false,
      .issue 1, .complete 1]).any
    (fun t => t.toOption.any fun s => s.iq.ready == [1, 2]) = true := by
  decide

end IssueQueueRun

end GemDroid
