import GemDroid.Cpu.IssueQueueLists

/-! An instruction that joins the queue looks at each of its registers once. -/

namespace GemDroid

open Function (update update_apply update_of_ne update_self)

namespace InstructionQueue

open Outcome

variable {numThreads : Nat} {q q' : InstructionQueue numThreads} {live : Nat → Bool}

/-- A source register as an instruction knows it that has looked at the scoreboard. -/
def seen (q : InstructionQueue numThreads) (src : SrcReg) : SrcReg :=
  { src with ready := src.ready || (decide (src.reg < q.numPhysRegs) && q.regScoreboard src.reg) }

/-- A source register that turned out to be ready. -/
def found (q : InstructionQueue numThreads) (src : SrcReg) : Bool :=
  !src.ready && q.regScoreboard src.reg

/-- A queue in which an instruction has looked at some of its registers. -/
structure Looked (q q' : InstructionQueue numThreads) (i : Nat) (srcs : List SrcReg) : Prop where
  frame : q' = { q with insts := q'.insts, dependGraph := q'.dependGraph }
  others : ∀ j, j ≠ i → q'.insts j = q.insts j
  own : q'.insts i = { q.insts i with
    readyRegs := (q.insts i).readyRegs + srcs.countP q.found
    canIssue := (q.insts i).canIssue || decide (0 < srcs.countP q.found ∧
      (q.insts i).readyRegs + srcs.countP q.found = (q.insts i).srcRegs.length) }
  graph : ∀ r j, (q'.dependGraph r).count j = (q.dependGraph r).count j +
    if j = i ∧ q.regScoreboard r = false then srcs.countP (SrcReg.waitsFor r) else 0

variable {i : Nat} {src : SrcReg} {new_inst : IQInst numThreads}

/-- One register is looked at. -/
theorem addSource_looked (unready : src.ready = false → src.reg < q.numPhysRegs) :
    Looked q (q.addSource i src).1 i [src] ∧ (q.addSource i src).2 = q.seen src := by
  unfold addSource
  cases ready : src.ready with
  | true =>
    refine ⟨⟨rfl, fun j _ => rfl, ?_, fun r j => ?_⟩, ?_⟩
    · simp [found, ready]
    · simp [SrcReg.waitsFor, ready]
    · obtain ⟨reg, flag⟩ := src
      obtain rfl : flag = true := ready
      rfl
  | false =>
    have phys := unready ready
    rw [if_neg Bool.false_ne_true, if_neg (Nat.not_le.mpr phys)]
    cases board : q.regScoreboard src.reg with
    | true =>
      refine ⟨⟨rfl, fun j other => ?_, ?_, fun r j => ?_⟩, ?_⟩
      · simp [markSrcRegReady, modify, other]
      · simp [markSrcRegReady, modify, found, ready, board, beq_eq_decide]
      · by_cases same : src.reg = r
        · simp [markSrcRegReady, modify, ← same, board]
        · simp [markSrcRegReady, modify, SrcReg.waitsFor, same]
      · simp [seen, board, phys]
    | false =>
      refine ⟨⟨rfl, fun j other => rfl, ?_, fun r j => ?_⟩, ?_⟩
      · simp [found, board]
      · by_cases same : r = src.reg
        · subst same
          by_cases own : j = i
          · simp [own, board, SrcReg.waitsFor, ready]
          · simp [own, Ne.symm own]
        · simp [same, SrcReg.waitsFor, Ne.symm same]
      · obtain ⟨reg, flag⟩ := src
        obtain rfl : flag = false := ready
        simp [seen, show q.regScoreboard reg = false from board]

theorem Looked.trans {q'' : InstructionQueue numThreads} {srcs : List SrcReg}
    (first : Looked q q' i [src]) (second : Looked q' q'' i srcs)
    (bound : (q.insts i).readyRegs + (src :: srcs).countP q.found ≤
      (q.insts i).srcRegs.length) : Looked q q'' i (src :: srcs) := by
  have board : q'.regScoreboard = q.regScoreboard := congrArg (·.regScoreboard) first.frame
  have same : q'.found = q.found := by
    funext src
    rw [found, found, board]
  have sum (p : SrcReg → Bool) : (src :: srcs).countP p = [src].countP p + srcs.countP p :=
    (List.countP_append : ([src] ++ srcs).countP _ = _)
  refine ⟨by rw [second.frame, first.frame], fun j other => ?_, ?_, fun r j => ?_⟩
  · rw [second.others j other, first.others j other]
  · rw [sum] at bound
    rw [second.own, first.own, same, sum q.found]
    simp only [Nat.add_assoc, IQInst.mk.injEq, true_and, and_true]
    by_cases none : srcs.countP q.found = 0
    · rw [none]
      simp
    · have before : ¬((q.insts i).readyRegs + [src].countP q.found =
          (q.insts i).srcRegs.length) := by omega
      have some : 0 < srcs.countP q.found := Nat.pos_of_ne_zero none
      have either : 0 < [src].countP q.found + srcs.countP q.found := by omega
      simp only [before, and_false, decide_false, Bool.or_false, some, either, true_and]
  · rw [second.graph r j, first.graph r j, board, sum]
    split <;> omega

theorem addSources_looked {srcs : List SrcReg}
    (unready : ∀ src ∈ srcs, src.ready = false → src.reg < q.numPhysRegs)
    (bound : (q.insts i).readyRegs + srcs.countP q.found ≤ (q.insts i).srcRegs.length) :
    Looked q (q.addSources i srcs).1 i srcs ∧ (q.addSources i srcs).2 = srcs.map q.seen := by
  -- The induction follows the registers; looking at one leaves the scoreboard as it is.
  induction srcs generalizing q with
  | nil => exact ⟨⟨rfl, fun _ _ => rfl, by simp [addSources], by simp [addSources]⟩, rfl⟩
  | cons src srcs ih =>
    obtain ⟨first, same⟩ := addSource_looked (i := i) (unready src (by simp))
    have board : (q.addSource i src).1.regScoreboard = q.regScoreboard :=
      congrArg (·.regScoreboard) first.frame
    have phys : (q.addSource i src).1.numPhysRegs = q.numPhysRegs :=
      congrArg (·.numPhysRegs) first.frame
    have found' : (q.addSource i src).1.found = q.found := by
      funext src
      rw [found, found, board]
    have seen' : (q.addSource i src).1.seen = q.seen := by
      funext src
      rw [seen, seen, board, phys]
    have sum : (src :: srcs).countP q.found = [src].countP q.found + srcs.countP q.found :=
      (List.countP_append : ([src] ++ srcs).countP _ = _)
    obtain ⟨rest, tail⟩ := ih (q := (q.addSource i src).1) (fun src' member waits => by
      rw [phys]
      exact unready src' (by simp [member]) waits) (by
      rw [first.own, found']
      show (q.insts i).readyRegs + _ + _ ≤ (q.insts i).srcRegs.length
      omega)
    refine ⟨first.trans rest bound, ?_⟩
    show (q.addSource i src).2 :: ((q.addSource i src).1.addSources i srcs).2 = _
    rw [same, tail, seen', List.map_cons]

theorem seen_avail (unready : src.ready = false → src.reg < q.numPhysRegs) :
    q.avail (q.seen src) = q.avail src ∧ (q.seen src).ready = q.avail src := by
  cases ready : src.ready with
  | true => simp [avail, seen, ready]
  | false => simp [avail, seen, ready, unready ready]

theorem seen_waitsFor {r : Nat} (board : q.regScoreboard r = false) :
    (q.seen src).waitsFor r = src.waitsFor r := by
  by_cases same : src.reg = r
  · simp [SrcReg.waitsFor, seen, same, board]
  · have other : (src.reg == r) = false := beq_eq_false_iff_ne.mpr same
    simp only [SrcReg.waitsFor, seen, other, Bool.and_false]

theorem countP_found (srcs : List SrcReg) :
    srcs.countP q.avail = srcs.countP SrcReg.ready + srcs.countP q.found := by
  -- The induction follows the registers; each was known to be ready, was found so, or is not.
  induction srcs with
  | nil => rfl
  | cons src srcs ih =>
    rw [List.countP_cons, List.countP_cons, List.countP_cons, ih]
    cases ready : src.ready <;> cases board : q.regScoreboard src.reg <;>
      simp [avail, found, ready, board] <;> omega

/-- What rename promises of an instruction that is new. -/
structure Fresh (q : InstructionQueue numThreads) (new_inst : IQInst numThreads) : Prop where
  inGraph : new_inst.inGraph = true
  unready : ∀ src ∈ new_inst.srcRegs, src.ready = false → src.reg < q.numPhysRegs
  readyRegs : new_inst.readyRegs = new_inst.srcRegs.countP SrcReg.ready
  canIssue : new_inst.canIssue = decide (new_inst.readyRegs = new_inst.srcRegs.length)
  isIssued : new_inst.isIssued = false
  isSquashedInIQ : new_inst.isSquashedInIQ = false

/-- What an instruction knows of its registers after it has looked at all of them. -/
def looked (q : InstructionQueue numThreads) (new_inst : IQInst numThreads) : IQInst numThreads :=
  { new_inst with
    srcRegs := new_inst.srcRegs.map q.seen
    readyRegs := new_inst.srcRegs.countP q.avail
    canIssue := new_inst.srcRegs.all q.avail }

/-- An instruction that has looked at its registers waits for those that are not ready. -/
theorem addToDependents_looked (fresh : Fresh q new_inst) : ∃ graph : Nat → List Nat,
    (q.pushBack i new_inst).addToDependents i =
      { q.pushBack i (q.looked new_inst) with dependGraph := graph } ∧
    ∀ r j, (graph r).count j = (q.dependGraph r).count j +
      if j = i ∧ q.regScoreboard r = false then new_inst.srcRegs.countP (SrcReg.waitsFor r)
      else 0 := by
  have sum := countP_found (q := q) new_inst.srcRegs
  have total : new_inst.srcRegs.countP q.avail ≤ new_inst.srcRegs.length := List.countP_le_length
  have self : (q.pushBack i new_inst).insts i = new_inst := update_self ..
  have bound : ((q.pushBack i new_inst).insts i).readyRegs +
      new_inst.srcRegs.countP (q.pushBack i new_inst).found ≤
      ((q.pushBack i new_inst).insts i).srcRegs.length := by
    rw [self, fresh.readyRegs]
    show _ + new_inst.srcRegs.countP q.found ≤ _
    omega
  obtain ⟨looked, srcs⟩ := addSources_looked (q := q.pushBack i new_inst) (i := i)
    fresh.unready bound
  have own := looked.own
  rw [self] at own
  refine ⟨((q.pushBack i new_inst).addSources i new_inst.srcRegs).1.dependGraph, ?_,
    looked.graph⟩
  unfold addToDependents
  rw [self]
  dsimp only
  have insts : (((q.pushBack i new_inst).addSources i new_inst.srcRegs).1.modify i fun inst =>
      { inst with srcRegs := ((q.pushBack i new_inst).addSources i new_inst.srcRegs).2 }).insts =
      (q.pushBack i (q.looked new_inst)).insts := by
    funext j
    by_cases same : j = i
    · subst same
      show update _ j _ j = update _ j _ j
      rw [update_self, update_self, own, srcs]
      have issues : (new_inst.canIssue || decide (0 < new_inst.srcRegs.countP q.found ∧
          new_inst.readyRegs + new_inst.srcRegs.countP q.found = new_inst.srcRegs.length)) =
          new_inst.srcRegs.all q.avail := by
        rw [Bool.eq_iff_iff, all_avail_iff, fresh.canIssue, fresh.readyRegs, Bool.or_eq_true_iff,
          decide_eq_true_eq, decide_eq_true_eq]
        omega
      show ({ new_inst with
        srcRegs := new_inst.srcRegs.map q.seen
        readyRegs := new_inst.readyRegs + new_inst.srcRegs.countP q.found
        canIssue := new_inst.canIssue || _ } : IQInst numThreads) = q.looked new_inst
      rw [InstructionQueue.looked, fresh.readyRegs, ← sum, ← issues, fresh.readyRegs]
      rfl
    · show update _ i _ j = update _ i _ j
      rw [update_of_ne same, update_of_ne same, looked.others j same]
      exact update_of_ne same ..
  unfold modify at insts ⊢
  dsimp only at insts ⊢
  rw [insts, looked.frame]
  rfl

theorem looked_avail (fresh : Fresh q new_inst) :
    (q.looked new_inst).srcRegs.countP q.avail = new_inst.srcRegs.countP q.avail := by
  show (new_inst.srcRegs.map q.seen).countP q.avail = _
  rw [List.countP_map]
  refine List.countP_congr fun src member => ?_
  show q.avail (q.seen src) = true ↔ _
  rw [(seen_avail (fresh.unready src member)).1]

/-- The queue after an instruction has joined it, with what waits for each register. -/
def joined (q : InstructionQueue numThreads) (i : Nat) (new_inst : IQInst numThreads)
    (graph : Nat → List Nat) : InstructionQueue numThreads :=
  { q.pushBack i (q.looked new_inst) with
    dependGraph := graph
    ready := if new_inst.srcRegs.all q.avail then q.ready ++ [i] else q.ready }

theorem addIfReady_joined {graph : Nat → List Nat} :
    ({ q.pushBack i (q.looked new_inst) with dependGraph := graph } :
      InstructionQueue numThreads).addIfReady i = q.joined i new_inst graph := by
  have self : (q.pushBack i (q.looked new_inst)).insts i = q.looked new_inst :=
    update_self ..
  unfold addIfReady
  rw [show (({ q.pushBack i (q.looked new_inst) with dependGraph := graph } :
    InstructionQueue numThreads).insts i) = q.looked new_inst from self]
  show (if new_inst.srcRegs.all q.avail = true then _ else _) = _
  unfold InstructionQueue.joined
  split <;> rfl

/-- The invariant holds again when an instruction has joined with the registers it waits for. -/
theorem Core.joined (core : Core q live) (fresh : Fresh q new_inst) (unknown : live i = false)
    (newest : ∀ tid, ∀ j ∈ q.instList tid, j < i) (unused : i ∉ q.ready) {graph : Nat → List Nat}
    (counts : ∀ r j, (graph r).count j = (q.dependGraph r).count j +
      if j = i ∧ q.regScoreboard r = false then new_inst.srcRegs.countP (SrcReg.waitsFor r)
      else 0) : Core (q.joined i new_inst graph) (update live i true) := by
  -- The new instruction is the only one whose entry changes, and no list names it yet.
  have self : (q.pushBack i (q.looked new_inst)).insts i = q.looked new_inst :=
    update_self ..
  have kept (j : Nat) (other : j ≠ i) :
      (q.pushBack i (q.looked new_inst)).insts j = q.insts j := update_of_ne other ..
  have absent (r : Nat) : (q.dependGraph r).count i = 0 := by
    rw [List.count_eq_zero]
    intro member
    rw [core.held r i member] at unknown
    cases unknown
  have lists (tid : Fin numThreads) : (q.pushBack i (q.looked new_inst)).instList tid =
      if tid = new_inst.threadNumber then q.instList tid ++ [i] else q.instList tid := by
    show update q.instList new_inst.threadNumber _ tid = _
    rw [update_apply]
    split
    · rename_i home
      rw [home]
      rfl
    · rfl
  have before (j : Nat) (other : j ≠ i) (alive : update live i true j = true) :
      live j = true := by
    rwa [update_of_ne other] at alive
  have all : (q.looked new_inst).srcRegs.all q.avail = new_inst.srcRegs.all q.avail := by
    rw [Bool.eq_iff_iff, all_avail_iff, all_avail_iff, looked_avail fresh]
    exact iff_of_eq (congrArg _ (List.length_map _))
  constructor
  case sorted =>
    intro tid
    show ((q.pushBack i (q.looked new_inst)).instList tid).Pairwise (· < ·)
    rw [lists tid]
    split
    · refine List.pairwise_append.mpr ⟨core.sorted tid, List.pairwise_singleton .., ?_⟩
      intro j member k last
      rw [List.mem_singleton.mp last]
      exact newest tid j member
    · exact core.sorted tid
  case home =>
    intro j alive
    show j ∈ (q.pushBack i (q.looked new_inst)).instList
      ((q.pushBack i (q.looked new_inst)).insts j).threadNumber
    rw [lists]
    by_cases own : j = i
    · have home : (q.looked new_inst).threadNumber = new_inst.threadNumber := rfl
      rw [own, self, if_pos home]
      exact List.mem_append_right _ (List.mem_singleton_self i)
    · rw [kept j own]
      have here := core.home j (before j own alive)
      split
      · exact List.mem_append_left _ here
      · exact here
  case listed =>
    intro tid j member
    have member : j ∈ (q.pushBack i (q.looked new_inst)).instList tid := member
    show ((q.pushBack i (q.looked new_inst)).insts j).threadNumber = tid ∧
      ((q.pushBack i (q.looked new_inst)).insts j).isSquashedInIQ = false ∧
      (update live i true j = true ∨
        ((q.pushBack i (q.looked new_inst)).insts j).counts = false)
    rw [lists] at member
    by_cases own : j = i
    · rw [own, self]
      refine ⟨?_, fresh.isSquashedInIQ, .inl (update_self ..)⟩
      split at member
      · rename_i home
        exact home.symm
      · exact absurd (own ▸ newest tid j member) (Nat.lt_irrefl j)
    · rw [kept j own, update_of_ne own]
      refine core.listed tid j ?_
      split at member
      · rcases List.mem_append.mp member with old | last
        · exact old
        · exact absurd (List.mem_singleton.mp last) own
      · exact member
  case count =>
    intro tid
    show update q.count new_inst.threadNumber _ tid =
      ((q.pushBack i (q.looked new_inst)).instList tid).countP
        fun j => ((q.pushBack i (q.looked new_inst)).insts j).counts
    have old : (q.instList tid).countP
        (fun j => ((q.pushBack i (q.looked new_inst)).insts j).counts) = q.count tid := by
      rw [core.count]
      refine List.countP_congr fun j member => ?_
      rw [kept j (Nat.ne_of_lt (newest tid j member))]
    have waits : ((q.pushBack i (q.looked new_inst)).insts i).counts = true := by
      rw [self]
      simp [IQInst.counts, InstructionQueue.looked, fresh.isIssued]
    rw [lists, update_apply]
    split
    · rename_i home
      subst home
      rw [List.countP_append, old, List.countP_singleton, if_pos waits]
      rfl
    · exact old.symm
  case inGraph =>
    intro j alive
    show ((q.pushBack i (q.looked new_inst)).insts j).inGraph = true
    by_cases own : j = i
    · rw [own, self]
      exact fresh.inGraph
    · rw [kept j own]
      exact core.inGraph j (before j own alive)
  case unready =>
    intro j alive
    -- A look at the scoreboard only makes sources ready.
    show ∀ src ∈ ((q.pushBack i (q.looked new_inst)).insts j).srcRegs, _
    by_cases own : j = i
    · rw [own, self]
      intro src member unready
      obtain ⟨old, inside, same⟩ := List.mem_map.mp member
      subst same
      refine fresh.unready old inside ?_
      simp only [seen, Bool.or_eq_false_iff] at unready
      exact unready.1
    · rw [kept j own]
      exact core.unready j (before j own alive)
  case waiting =>
    intro j r alive
    show (graph r).count j = if q.regScoreboard r then 0 else
      ((q.pushBack i (q.looked new_inst)).insts j).srcRegs.countP (SrcReg.waitsFor r)
    rw [counts r j]
    by_cases own : j = i
    · rw [own, self, absent r]
      cases board : q.regScoreboard r with
      | true => simp
      | false =>
        -- It stands in the list of a register once for each of its sources that waits for it.
        simp only [true_and, if_true, Nat.zero_add, Bool.false_eq_true, if_false]
        show _ = (new_inst.srcRegs.map q.seen).countP _
        rw [List.countP_map]
        refine List.countP_congr fun src _ => ?_
        show _ ↔ (q.seen src).waitsFor r = true
        rw [seen_waitsFor board]
    · rw [kept j own, core.waiting j r (before j own alive)]
      simp [own]
  case held =>
    intro r j member
    have member : j ∈ graph r := member
    by_cases own : j = i
    · rw [own, update_self]
    · rw [update_of_ne own]
      refine core.held r j (List.count_pos_iff.mp ?_)
      have positive := List.count_pos_iff.mpr member
      rw [counts r j] at positive
      simpa [own] using positive
  case readyRegs =>
    intro j alive
    show ((q.pushBack i (q.looked new_inst)).insts j).readyRegs =
      ((q.pushBack i (q.looked new_inst)).insts j).srcRegs.countP q.avail
    by_cases own : j = i
    · rw [own, self, looked_avail fresh]
      rfl
    · rw [kept j own]
      exact core.readyRegs j (before j own alive)
  case canIssue =>
    intro j alive
    show ((q.pushBack i (q.looked new_inst)).insts j).canIssue = true →
      ((q.pushBack i (q.looked new_inst)).insts j).srcRegs.all q.avail = true
    by_cases own : j = i
    · rw [own, self, all]
      exact id
    · rw [kept j own]
      exact core.canIssue j (before j own alive)
  case ready =>
    intro j alive
    show (if new_inst.srcRegs.all q.avail then q.ready ++ [i] else q.ready).count j =
      if ((q.pushBack i (q.looked new_inst)).insts j).srcRegs.all q.avail then 1 else 0
    by_cases own : j = i
    · -- It is ready at once if all its registers are, and no other instruction becomes ready.
      have none := List.count_eq_zero.mpr unused
      rw [own, self, all]
      split
      · rw [List.count_append, none]
        simp
      · exact none
    · rw [kept j own, ← core.ready j (before j own alive)]
      split
      · rw [List.count_append]
        simp [Ne.symm own]
      · rfl
  case issued =>
    intro j alive
    show ((q.pushBack i (q.looked new_inst)).insts j).isIssued = true →
      ((q.pushBack i (q.looked new_inst)).insts j).srcRegs.all q.avail = true
    by_cases own : j = i
    · rw [own, self]
      intro issued
      rw [show (q.looked new_inst).isIssued = false from fresh.isIssued] at issued
      cases issued
    · rw [kept j own]
      exact core.issued j (before j own alive)

/-- The scoreboard after registers got a new producer. -/
def claimed (q : InstructionQueue numThreads) (destRegs : List Nat) (r : Nat) : Bool :=
  q.regScoreboard r && !(decide (r < q.numPhysRegs) && decide (r ∈ destRegs))

/-- Registers that nothing waits for can get a new producer. -/
theorem addProducers_eq {destRegs : List Nat}
    (empty : ∀ r ∈ destRegs, r < q.numPhysRegs → q.dependGraph r = []) :
    destRegs.foldlM addProducer q =
      .ok { q with regScoreboard := q.claimed destRegs } := by
  -- The induction follows the registers; the lists stay as they are.
  induction destRegs generalizing q with
  | nil =>
    have same : q.claimed [] = q.regScoreboard := by
      funext r
      simp [claimed]
    rw [same]
    rfl
  | cons d destRegs ih =>
    rw [List.foldlM_cons]
    unfold addProducer
    split
    · rename_i misc
      show destRegs.foldlM addProducer q = _
      rw [ih fun r member => empty r (by simp [member])]
      have same : q.claimed (d :: destRegs) = q.claimed destRegs := by
        funext r
        by_cases own : r = d
        · simp [claimed, own, Nat.not_lt.mpr misc]
        · simp [claimed, own]
      rw [same]
    · rename_i physical
      have none := empty d (by simp) (Nat.not_le.mp physical)
      rw [if_pos (List.isEmpty_iff.mpr none)]
      refine (ih (q := { q with regScoreboard := update q.regScoreboard d false })
        fun r member => empty r (by simp [member])).trans ?_
      have same : ({ q with regScoreboard := update q.regScoreboard d false } :
          InstructionQueue numThreads).claimed destRegs = q.claimed (d :: destRegs) := by
        funext r
        by_cases own : r = d
        · simp [claimed, own, Nat.not_le.mp physical]
        · simp [claimed, own]
      rw [same]

/-- The invariant survives that registers which nothing in flight reads get a new producer. -/
theorem Core.claimed (core : Core q live) (destRegs : List Nat)
    (unread : ∀ r ∈ destRegs, r < q.numPhysRegs → ∀ i, live i = true →
      ∀ src ∈ (q.insts i).srcRegs, src.reg ≠ r) :
    Core { q with regScoreboard := q.claimed destRegs } live := by
  -- The scoreboard says the same of every register that something in flight reads.
  have board (i : Nat) (alive : live i = true) (src : SrcReg)
      (member : src ∈ (q.insts i).srcRegs) :
      q.claimed destRegs src.reg = q.regScoreboard src.reg := by
    have other : (decide (src.reg < q.numPhysRegs) && decide (src.reg ∈ destRegs)) = false := by
      rw [Bool.eq_false_iff]
      intro both
      rw [Bool.and_eq_true, decide_eq_true_eq, decide_eq_true_eq] at both
      exact unread src.reg both.2 both.1 i alive src member rfl
    rw [InstructionQueue.claimed, other, Bool.not_false, Bool.and_true]
  have avail (i : Nat) (alive : live i = true) (src : SrcReg)
      (member : src ∈ (q.insts i).srcRegs) :
      ({ q with regScoreboard := q.claimed destRegs } : InstructionQueue numThreads).avail src =
        q.avail src := by
    rw [InstructionQueue.avail, InstructionQueue.avail]
    exact congrArg _ (board i alive src member)
  have counts (i : Nat) (alive : live i = true) : (q.insts i).srcRegs.countP
      ({ q with regScoreboard := q.claimed destRegs } : InstructionQueue numThreads).avail =
        (q.insts i).srcRegs.countP q.avail :=
    List.countP_congr fun src member => by rw [avail i alive src member]
  have all (i : Nat) (alive : live i = true) : (q.insts i).srcRegs.all
      ({ q with regScoreboard := q.claimed destRegs } : InstructionQueue numThreads).avail =
        (q.insts i).srcRegs.all q.avail := by
    rw [Bool.eq_iff_iff, all_avail_iff, all_avail_iff, counts i alive]
  constructor
  case sorted => exact core.sorted
  case home => exact core.home
  case listed => exact core.listed
  case count => exact core.count
  case inGraph => exact core.inGraph
  case unready => exact core.unready
  case waiting =>
    intro i r alive
    show (q.dependGraph r).count i = if q.claimed destRegs r then 0 else _
    rw [core.waiting i r alive]
    by_cases given : r < q.numPhysRegs ∧ r ∈ destRegs
    · have none : (q.insts i).srcRegs.countP (SrcReg.waitsFor r) = 0 := by
        rw [List.countP_eq_zero]
        intro src member
        have other := unread r given.2 given.1 i alive src member
        simp [SrcReg.waitsFor, other]
      simp [none]
    · have same : q.claimed destRegs r = q.regScoreboard r := by
        have other : (decide (r < q.numPhysRegs) && decide (r ∈ destRegs)) = false := by
          rw [Bool.eq_false_iff]
          intro both
          rw [Bool.and_eq_true, decide_eq_true_eq, decide_eq_true_eq] at both
          exact given both
        rw [InstructionQueue.claimed, other, Bool.not_false, Bool.and_true]
      rw [same]
  case held => exact core.held
  case readyRegs =>
    intro i alive
    rw [counts i alive]
    exact core.readyRegs i alive
  case canIssue =>
    intro i alive issues
    rw [all i alive]
    exact core.canIssue i alive issues
  case ready =>
    intro i alive
    rw [all i alive]
    exact core.ready i alive
  case issued =>
    intro i alive issued
    rw [all i alive]
    exact core.issued i alive issued

/-- What an insertion leaves as it was, and what it makes of the new instruction. -/
structure Inserted (q q' : InstructionQueue numThreads) (i : Nat) (new_inst : IQInst numThreads) :
    Prop where
  others : ∀ j, j ≠ i → q'.insts j = q.insts j
  own : ∃ canIssue, q'.insts i = { q.looked new_inst with canIssue }
  listed : ∀ tid, ∀ j ∈ q'.instList tid, j = i ∨ j ∈ q.instList tid
  readied : ∀ j ∈ q'.ready, j = i ∨ j ∈ q.ready
  regScoreboard : q'.regScoreboard = q.claimed new_inst.destRegs
  numPhysRegs : q'.numPhysRegs = q.numPhysRegs

/-- The invariant survives an insertion, which fails no assertion. -/
theorem Core.insert (core : Core q live) (depends : Bool) (fresh : Fresh q new_inst)
    (unknown : live i = false) (newest : ∀ tid, ∀ j ∈ q.instList tid, j < i) (unused : i ∉ q.ready)
    (room : q.freeEntries ≠ 0)
    (unread : ∀ r ∈ new_inst.destRegs, r < q.numPhysRegs →
      (∀ src ∈ new_inst.srcRegs, src.reg ≠ r) ∧
        ∀ j, live j = true → ∀ src ∈ (q.insts j).srcRegs, src.reg ≠ r) :
    Ends (fun _ => False) (q.insert i new_inst depends) fun q' =>
      Core q' (update live i true) ∧ Inserted q q' i new_inst := by
  obtain ⟨graph, added, counts⟩ := addToDependents_looked (i := i) fresh
  have core1 := core.joined fresh unknown newest unused counts
  have self : (q.joined i new_inst graph).insts i = q.looked new_inst := update_self ..
  have kept (j : Nat) (other : j ≠ i) : (q.joined i new_inst graph).insts j = q.insts j :=
    update_of_ne other ..
  -- Nothing waits for the registers that the instruction is to write.
  have empty : ∀ r ∈ new_inst.destRegs, r < q.numPhysRegs → graph r = [] := by
    intro r member physical
    rw [List.eq_nil_iff_forall_not_mem]
    intro j waits
    have positive := List.count_pos_iff.mpr waits
    obtain ⟨own, others⟩ := unread r member physical
    rw [counts r j] at positive
    by_cases before : j ∈ q.dependGraph r
    · obtain ⟨_, src, inside, reads⟩ := core.unwritten before
      refine others j (core.held r j before) src inside ?_
      simp only [SrcReg.waitsFor, Bool.and_eq_true, beq_iff_eq] at reads
      exact reads.2
    · have none : new_inst.srcRegs.countP (SrcReg.waitsFor r) = 0 := by
        rw [List.countP_eq_zero]
        intro src inside
        simp [SrcReg.waitsFor, own src inside]
      rw [List.count_eq_zero.mpr before, none] at positive
      simp at positive
  have core2 := core1.claimed new_inst.destRegs fun r member physical j alive => by
    obtain ⟨own, others⟩ := unread r member physical
    by_cases same : j = i
    · rw [same, self]
      intro src inside
      obtain ⟨old, inside', looked⟩ := List.mem_map.mp inside
      rw [← looked]
      exact own old inside'
    · rw [kept j same]
      rw [update_of_ne same] at alive
      exact others j alive
  unfold InstructionQueue.insert
  rw [if_neg room, added, ends_bind]
  unfold addToProducers
  have dests : ((q.joined i new_inst graph).insts i).destRegs = new_inst.destRegs := by
    rw [self]
    rfl
  rw [show (({ q.pushBack i (q.looked new_inst) with dependGraph := graph } :
    InstructionQueue numThreads).insts i).destRegs = new_inst.destRegs from dests]
  rw [addProducers_eq empty, ends_ok, ends_pure]
  have ready : ({ q.pushBack i (q.looked new_inst) with
      dependGraph := graph, regScoreboard := q.claimed new_inst.destRegs } :
        InstructionQueue numThreads).addIfReady i =
      { q.joined i new_inst graph with regScoreboard := q.claimed new_inst.destRegs } := by
    rw [← addIfReady_joined]
    unfold addIfReady
    dsimp only
    split <;> rfl
  have listed : ∀ tid, ∀ j ∈ (q.joined i new_inst graph).instList tid,
      j = i ∨ j ∈ q.instList tid := by
    intro tid j member
    have member : j ∈ update q.instList new_inst.threadNumber _ tid := member
    rw [update_apply] at member
    split at member
    · rename_i home
      rcases List.mem_append.mp member with old | last
      · exact .inr (home ▸ old)
      · exact .inl (List.mem_singleton.mp last)
    · exact .inr member
  have readied : ∀ j ∈ (q.joined i new_inst graph).ready, j = i ∨ j ∈ q.ready := by
    intro j member
    have member : j ∈ if new_inst.srcRegs.all q.avail = true then q.ready ++ [i] else q.ready :=
      member
    split at member
    · rcases List.mem_append.mp member with old | last
      · exact .inr old
      · exact .inl (List.mem_singleton.mp last)
    · exact .inr member
  rw [show ({ q.pushBack i (q.looked new_inst) with dependGraph := graph } :
    InstructionQueue numThreads).claimed new_inst.destRegs = q.claimed new_inst.destRegs from rfl]
  split
  · -- The memory dependence unit only takes back that the instruction can issue.
    unfold memDepInsert
    rw [ready]
    have core3 : Core { q.joined i new_inst graph with
        insts := update (q.joined i new_inst graph).insts i { q.looked new_inst with
          canIssue := (q.looked new_inst).canIssue && !depends }
        regScoreboard := q.claimed new_inst.destRegs } (update live i true) := core2.touch
      (by rw [self]) (by rw [self]) (by rw [self]; rfl) (by rw [self]) (by rw [self])
      (by
        rw [self]
        intro both
        exact (Bool.and_eq_true_iff.mp both).1)
      (by
        intro _ issued
        rw [show (q.looked new_inst).isIssued = false from fresh.isIssued] at issued
        cases issued)
      (by
        rw [self]
        exact id)
      (fun tid => by
        rw [core2.count tid]
        refine List.countP_congr fun j _ => ?_
        by_cases same : j = i
        · rw [same, update_self, self]
          rfl
        · rw [update_of_ne same])
    unfold modify
    dsimp only
    rw [self]
    refine ⟨core3, fun j other => ?_, ⟨_, update_self ..⟩, listed, readied, rfl, rfl⟩
    exact (update_of_ne other ..).trans (kept j other)
  · rw [ready]
    exact ⟨core2, kept, ⟨_, self⟩, listed, readied, rfl, rfl⟩

end InstructionQueue

end GemDroid
