import GemDroid.Cpu.MemDep
import GemDroid.Lib.Outcome
import GemDroid.Lib.Run

/-! Over every run the memory dependence unit loses no instruction. -/

namespace GemDroid

open Function (update update_apply update_of_ne update_self)

namespace MemDepRun

open MemDepUnit Outcome

/-- How an instruction was inserted. -/
inductive How where
  | speculative
  | nonSpeculative
  | barrier
  deriving DecidableEq

/-- The unit, and what happened to each instruction, by its number. -/
structure State (Pred : Type) where
  unit : MemDepUnit Pred
  /-- The youngest instruction that was inserted. -/
  newest : Nat := 0
  how : Nat → Option How := fun _ => none
  /-- The instruction that it was found to depend on when it was inserted. -/
  producer : Nat → Option Nat := fun _ => none
  regsKnown : Nat → Bool := fun _ => false
  issued : Nat → Bool := fun _ => false
  done : Nat → Bool := fun _ => false

variable {Pred : Type}

/-- The instruction that it depends on has completed, if there is one. -/
def State.resolved (s : State Pred) (i : Nat) : Bool :=
  (s.producer i).all s.done

/-- An instruction that joins the unit is noted with what it depends on. -/
def State.joined (s : State Pred) (unit : MemDepUnit Pred) (i : Nat) (how : How)
    (producer : Option Nat) (canIssue : Bool) : State Pred :=
  { s with
    unit
    newest := i
    how := update s.how i (some how)
    producer := update s.producer i producer
    regsKnown := update s.regsKnown i canIssue }

/-- What the pipeline does with the unit. -/
inductive Op where
  | insert (inst : MemInst) (canIssue : Bool)
  | insertNonSpec (inst : MemInst)
  | insertBarrier (inst : MemInst)
  | regsReady (i : Nat)
  | nonSpecInstReady (i : Nat)
  | issue (i : Nat)
  /-- The instruction queue drops a ready instruction that was squashed. -/
  | drop (i : Nat)
  | reschedule (i : Nat)
  | replay
  | complete (i : Nat)
  | squash (squashed_num : Nat)
  | violation (store load : Addr)

/-- An instruction is being executed. -/
def State.executes (s : State Pred) (i : Nat) : Prop :=
  s.unit.memDepHash i = true ∧ s.issued i = true ∧ i ∉ s.unit.readyInsts ∧
    i ∉ s.unit.instsToReplay

instance (s : State Pred) (i : Nat) : Decidable (s.executes i) := by
  unfold State.executes
  infer_instance

/-- The instruction of a number may complete now: it is a barrier, or it is being executed. -/
def State.completes (s : State Pred) (i : Nat) : Prop :=
  s.unit.memDepHash i = true ∧ ((s.unit.entries i).inst.isMemRef = true → s.executes i)

instance (s : State Pred) (i : Nat) : Decidable (s.completes i) := by
  unfold State.completes
  infer_instance

theorem resolved_true_iff {s : State Pred} {i : Nat} :
    s.resolved i = true ↔ ∀ p, s.producer i = some p → s.done p = true := by
  unfold State.resolved
  cases s.producer i <;> simp

theorem resolved_mono {s t : State Pred} {d : Nat} (producer : t.producer = s.producer)
    (done : ∀ p, s.done p = true → t.done p = true) (resolved : s.resolved d = true) :
    t.resolved d = true := by
  rw [resolved_true_iff] at resolved ⊢
  rw [producer]
  exact fun p found => done p (resolved p found)

variable [MemDepPred Pred]

/-- The unit before the first instruction. -/
def start (Pred : Type) [MemDepPred Pred] (clear_period : Nat) : State Pred where
  unit := { depPred := MemDepPred.init clear_period }

/-- A memory instruction is inserted, and what it was found to depend on is noted. -/
def insert (s : State Pred) (inst : MemInst) (canIssue : Bool) :
    Except MemDepFault (State Pred) := do
  let (unit, _) ← s.unit.insert inst canIssue
  return s.joined unit inst.seqNum .speculative ((s.unit.addEntry inst).producerOf inst) canIssue

/--
One operation: instructions come in program order; registers become ready once; only ready
instructions are issued, and only what is being executed is rescheduled or completes.
-/
def step : Except MemDepFault (State Pred) → Op → Option (Except MemDepFault (State Pred))
  | .error _, _ => none
  | .ok s, .insert inst canIssue =>
    if s.newest < inst.seqNum ∧ inst.isMemRef then some (insert s inst canIssue) else none
  | .ok s, .insertNonSpec inst =>
    if s.newest < inst.seqNum ∧ inst.isMemRef then
      some (do return s.joined (← s.unit.insertNonSpec inst) inst.seqNum .nonSpeculative none false)
    else none
  | .ok s, .insertBarrier inst =>
    if s.newest < inst.seqNum ∧ inst.isMemRef = false ∧
        (inst.isMemBarrier ∨ inst.isWriteBarrier) then
      some (.ok (s.joined (s.unit.insertBarrier inst) inst.seqNum .barrier none false))
    else none
  | .ok s, .regsReady i =>
    if s.unit.memDepHash i ∧ s.how i = some .speculative ∧ s.regsKnown i = false then
      some (do return { s with
        unit := ← s.unit.regsReady i, regsKnown := update s.regsKnown i true })
    else none
  | .ok s, .nonSpecInstReady i =>
    if s.unit.memDepHash i ∧ s.how i = some .nonSpeculative then
      some (do return { s with unit := ← s.unit.nonSpecInstReady i })
    else none
  | .ok s, .issue i =>
    if i ∈ s.unit.readyInsts then
      some (.ok { s with
        unit := { s.unit with readyInsts := s.unit.readyInsts.erase i }.issue
          (s.unit.entries i).inst
        issued := update s.issued i true })
    else none
  | .ok s, .drop i =>
    if s.unit.memDepHash i = false then
      some (.ok { s with unit := { s.unit with readyInsts := s.unit.readyInsts.erase i } })
    else none
  | .ok s, .reschedule i =>
    if s.executes i ∧ (s.unit.entries i).inst.isMemRef then
      some (.ok { s with unit := s.unit.reschedule i })
    else none
  | .ok s, .replay => some (do return { s with unit := ← s.unit.replay })
  | .ok s, .complete i =>
    if s.completes i then
      some (do return { s with
        unit := ← s.unit.iqWakeDependents (s.unit.entries i).inst
        done := update s.done i true })
    else none
  | .ok s, .squash squashed_num => some (do return { s with unit := ← s.unit.squash squashed_num })
  | .ok s, .violation store load => some (.ok { s with unit := s.unit.violation store load })

/--
The list and the hash hold the same instructions in program order; a speculative one that is not
squashed waits in exactly one list, of an older one, until what it depends on has completed; and
until its first issue it is ready once, from when both its registers and its dependence are.
-/
structure Scheduled (s : State Pred) : Prop where
  inOrder : s.unit.instList.Pairwise (· < ·)
  same : ∀ i, s.unit.memDepHash i = true ↔ i ∈ s.unit.instList
  resolved : ∀ d, s.unit.memDepHash d = true ∨ s.done d = true → s.how d = some .speculative →
    s.resolved d = true → ∀ p, s.unit.memDepHash p = true →
      d ∉ (s.unit.entries p).dependInsts
  waits : ∀ d, s.unit.memDepHash d = true ∨ s.done d = true → s.how d = some .speculative →
    s.resolved d = false → ∃ p, p < d ∧ s.unit.memDepHash p = true ∧
      (s.unit.entries p).dependInsts.count d = 1 ∧
        ∀ q, s.unit.memDepHash q = true → d ∈ (s.unit.entries q).dependInsts → q = p
  moved : ∀ d, s.unit.memDepHash d = true → s.how d = some .speculative → s.issued d = false →
    s.unit.readyInsts.count d = if s.regsKnown d && s.resolved d then 1 else 0

/-- No assertion failed, and the instructions are scheduled as they should be. -/
def Good : Except MemDepFault (State Pred) → Prop
  | .error _ => False
  | .ok s => Scheduled s

/-- An entry of which others may be dependents. -/
def Producer (inst : MemInst) : Prop :=
  inst.isStore = true ∨ inst.isMemBarrier = true ∨ inst.isWriteBarrier = true

/-- One instruction is in the list of dependents of another. -/
structure Dependent (s : State Pred) (p d : Nat) : Prop where
  producer : s.producer d = some p
  older : p < d
  bounded : d ≤ s.newest
  speculative : s.how d = some .speculative
  held : s.unit.memDepHash d = true ∨ (s.unit.entries d).squashed = true

variable [LawfulMemDepPred Pred]

/-- What holds between any two operations. -/
structure Inv (s : State Pred) : Prop where
  sorted : s.unit.instList.Pairwise (· < ·)
  same : ∀ i, s.unit.memDepHash i = true ↔ i ∈ s.unit.instList
  bounded : ∀ i, s.unit.memDepHash i = true → i ≤ s.newest
  named : ∀ i, s.unit.memDepHash i = true → (s.unit.entries i).inst.seqNum = i
  here : ∀ i, s.unit.memDepHash i = true → (s.unit.entries i).squashed = false
  replayable : ∀ i ∈ s.unit.instsToReplay, s.unit.memDepHash i = true ∧ s.issued i = true ∧
    (s.unit.entries i).inst.isMemRef = true
  once : ∀ p, s.unit.memDepHash p = true → (s.unit.entries p).dependInsts.Nodup
  dependents : ∀ p, s.unit.memDepHash p = true → ∀ d ∈ (s.unit.entries p).dependInsts,
    Dependent s p d
  producers : ∀ d p, s.unit.memDepHash d = true → s.how d = some .speculative →
    s.producer d = some p → s.done p = false →
      s.unit.memDepHash p = true ∧ d ∈ (s.unit.entries p).dependInsts
  ended : ∀ d, s.done d = true → s.how d = some .speculative → s.resolved d = true
  wakes : ∀ p, s.unit.memDepHash p = true → (s.unit.entries p).dependInsts ≠ [] →
    Producer (s.unit.entries p).inst
  known : ∀ d, s.unit.memDepHash d = true → s.how d = some .speculative →
    (s.unit.entries d).regsReady = s.regsKnown d
  ready : ∀ d, s.unit.memDepHash d = true → s.how d = some .speculative →
    s.regsKnown d = false → (s.unit.entries d).memDepReady = s.resolved d
  moved : ∀ d, s.unit.memDepHash d = true → s.how d = some .speculative → s.issued d = false →
    s.unit.readyInsts.count d = if s.regsKnown d && s.resolved d then 1 else 0
  issuable : ∀ d, s.unit.memDepHash d = true → s.how d = some .speculative → s.issued d = true →
    s.resolved d = true
  gone : ∀ p, s.done p = true → s.unit.memDepHash p = false ∧ p ≤ s.newest
  readyBounded : ∀ d ∈ s.unit.readyInsts, d ≤ s.newest
  issuedBounded : ∀ d, s.issued d = true → d ≤ s.newest
  speculates : ∀ d, s.unit.memDepHash d = true → s.how d = some .speculative →
    (s.unit.entries d).inst.isMemRef = true
  kind : ∀ i, s.unit.memDepHash i = true → (s.unit.entries i).inst.isMemRef = true ∨
    (s.unit.entries i).inst.isMemBarrier = true ∨ (s.unit.entries i).inst.isWriteBarrier = true
  loadBounded : s.unit.loadBarrierSN ≤ s.newest
  storeBounded : s.unit.storeBarrierSN ≤ s.newest
  loadBarrier : s.unit.loadBarrier = true → s.unit.memDepHash s.unit.loadBarrierSN = true →
    Producer (s.unit.entries s.unit.loadBarrierSN).inst
  storeBarrier : s.unit.storeBarrier = true → s.unit.memDepHash s.unit.storeBarrierSN = true →
    Producer (s.unit.entries s.unit.storeBarrierSN).inst
  within : LawfulMemDepPred.Within s.unit.depPred s.newest
  names : ∀ n, LawfulMemDepPred.Names s.unit.depPred n → s.unit.memDepHash n = true →
    Producer (s.unit.entries n).inst

variable {s : State Pred} {u' : MemDepUnit Pred}

theorem Inv.scheduled (inv : Inv s) : Scheduled s where
  inOrder := inv.sorted
  same := inv.same
  resolved d _ _ resolved p held member := by
    have ended : s.done p = true :=
      resolved_true_iff.mp resolved p (inv.dependents p held d member).producer
    have left := (inv.gone p ended).1
    rw [held] at left
    cases left
  waits d there speculative unresolved := by
    have some : ∃ p, s.producer d = some p ∧ s.done p = false := by
      unfold State.resolved at unresolved
      cases found : s.producer d with
      | none => simp [found] at unresolved
      | some p => exact ⟨p, rfl, by simpa [found] using unresolved⟩
    obtain ⟨p, found, waiting⟩ := some
    have inside : s.unit.memDepHash d = true := by
      refine there.resolve_right fun ended => ?_
      rw [inv.ended d ended speculative] at unresolved
      cases unresolved
    obtain ⟨held, member⟩ := inv.producers d p inside speculative found waiting
    refine ⟨p, (inv.dependents p held d member).older, held,
      List.count_eq_one_of_mem (inv.once p held) member, fun q heldToo memberToo => ?_⟩
    have also := (inv.dependents q heldToo d memberToo).producer
    rw [found] at also
    exact (Option.some.inj also).symm
  moved := inv.moved

/-- A new entry joined the unit, and perhaps the dependents of an older one. -/
structure Joins (u u' : MemDepUnit Pred) (inst : MemInst) (entry : MemDepEntry)
    (waits : Option Nat) (ready : Bool) : Prop where
  instList : u'.instList = u.instList ++ [inst.seqNum]
  hash : u'.memDepHash = update u.memDepHash inst.seqNum true
  entry : u'.entries inst.seqNum = entry
  others : ∀ j, j ≠ inst.seqNum → u'.entries j = if waits = some j then
    { u.entries j with dependInsts := (u.entries j).dependInsts ++ [inst.seqNum] } else u.entries j
  ready : u'.readyInsts = if ready then u.readyInsts ++ [inst.seqNum] else u.readyInsts
  replay : u'.instsToReplay = u.instsToReplay
  within : ∀ n, LawfulMemDepPred.Within u.depPred n → n ≤ inst.seqNum →
    LawfulMemDepPred.Within u'.depPred inst.seqNum
  names : ∀ n, LawfulMemDepPred.Names u'.depPred n →
    n = inst.seqNum ∧ Producer inst ∨ LawfulMemDepPred.Names u.depPred n
  loadBarrier : u'.loadBarrierSN = inst.seqNum ∧ Producer inst ∨
    u'.loadBarrier = u.loadBarrier ∧ u'.loadBarrierSN = u.loadBarrierSN
  storeBarrier : u'.storeBarrierSN = inst.seqNum ∧ Producer inst ∨
    u'.storeBarrier = u.storeBarrier ∧ u'.storeBarrierSN = u.storeBarrierSN

section Join

variable {inst : MemInst} {entry : MemDepEntry} {waits : Option Nat} {ready canIssue : Bool}
  {how : How}

theorem Joins.cases (joins : Joins s.unit u' inst entry waits ready) {i : Nat}
    (held : u'.memDepHash i = true) : i = inst.seqNum ∨
      i ≠ inst.seqNum ∧ s.unit.memDepHash i = true := by
  by_cases new : i = inst.seqNum
  · exact .inl new
  · exact .inr ⟨new, by rwa [joins.hash, update_of_ne new] at held⟩

theorem Joins.kept (joins : Joins s.unit u' inst entry waits ready) {i : Nat}
    (other : i ≠ inst.seqNum) :
    (u'.entries i).inst = (s.unit.entries i).inst ∧
      (u'.entries i).squashed = (s.unit.entries i).squashed ∧
      (u'.entries i).regsReady = (s.unit.entries i).regsReady ∧
      (u'.entries i).memDepReady = (s.unit.entries i).memDepReady := by
  rw [joins.others i other]
  split <;> exact ⟨rfl, rfl, rfl, rfl⟩

/-- What is asked of an instruction that joins. -/
structure Joining (s : State Pred) (inst : MemInst) (entry : MemDepEntry) (waits : Option Nat)
    (ready canIssue : Bool) (how : How) : Prop where
  newer : s.newest < inst.seqNum
  own : entry.inst = inst
  kind : inst.isMemRef = true ∨ inst.isMemBarrier = true ∨ inst.isWriteBarrier = true
  here : entry.squashed = false
  alone : entry.dependInsts = []
  chosen : ∀ p, waits = some p → s.unit.memDepHash p = true ∧
    Producer (s.unit.entries p).inst ∧ how = .speculative
  speculative : how = .speculative → inst.isMemRef = true ∧ entry.regsReady = canIssue ∧
    entry.memDepReady = waits.isNone ∧ ready = (canIssue && waits.isNone)

theorem joined_resolved (inv : Inv s)
    (joining : Joining s inst entry waits ready canIssue how) :
    (s.joined u' inst.seqNum how waits canIssue).resolved inst.seqNum = waits.isNone := by
  show ((update s.producer inst.seqNum waits) inst.seqNum).all s.done = _
  rw [update_self]
  cases found : waits with
  | none => rfl
  | some p =>
    -- What it waits for is still in the unit.
    cases ended : s.done p with
    | false => simp [ended]
    | true =>
      have left := (inv.gone p ended).1
      rw [(joining.chosen p found).1] at left
      cases left

omit [MemDepPred Pred] [LawfulMemDepPred Pred] in
theorem joined_resolved_ne {i : Nat} (other : i ≠ inst.seqNum) :
    (s.joined u' inst.seqNum how waits canIssue).resolved i = s.resolved i := by
  show ((update s.producer inst.seqNum waits) i).all s.done = _
  rw [update_of_ne other]
  rfl

/-- The invariant survives an instruction that joins. -/
theorem Inv.join (inv : Inv s) (joins : Joins s.unit u' inst entry waits ready)
    (joining : Joining s inst entry waits ready canIssue how) :
    Inv (s.joined u' inst.seqNum how waits canIssue) := by
  -- Everything that was there has a smaller number than the instruction that joins.
  have old (i : Nat) (bound : i ≤ s.newest) : i ≠ inst.seqNum := by
    have := joining.newer
    omega
  have held (i : Nat) (there : s.unit.memDepHash i = true) : i ≠ inst.seqNum :=
    old i (inv.bounded i there)
  have kept (i : Nat) (there : s.unit.memDepHash i = true) : u'.memDepHash i = true := by
    rw [joins.hash, update_of_ne (held i there), there]
  have newHeld : u'.memDepHash inst.seqNum = true := by simp [joins.hash]
  have how_ne (i : Nat) (other : i ≠ inst.seqNum)
      (speculative : (s.joined u' inst.seqNum how waits canIssue).how i = some .speculative) :
      s.how i = some .speculative := by
    simpa [State.joined, other] using speculative
  have how_new (speculative : (s.joined u' inst.seqNum how waits canIssue).how inst.seqNum =
      some .speculative) : how = .speculative := by
    simpa [State.joined] using speculative
  -- The dependents of an older entry are the ones it had, and perhaps the new instruction.
  have dependents (p : Nat) (other : p ≠ inst.seqNum) (d : Nat)
      (member : d ∈ (u'.entries p).dependInsts) : d ∈ (s.unit.entries p).dependInsts ∨
        d = inst.seqNum ∧ waits = some p := by
    rw [joins.others p other] at member
    split at member
    · rename_i chosen
      rcases List.mem_append.mp member with before | new
      · exact .inl before
      · exact .inr ⟨List.mem_singleton.mp new, chosen⟩
    · exact .inl member
  constructor
  case sorted =>
    show u'.instList.Pairwise _
    rw [joins.instList, List.pairwise_append]
    refine ⟨inv.sorted, List.pairwise_singleton .., fun i member j last => ?_⟩
    have := inv.bounded i ((inv.same i).mpr member)
    have := joining.newer
    rw [List.mem_singleton.mp last]
    omega
  case same =>
    intro i
    show u'.memDepHash i = true ↔ i ∈ u'.instList
    rw [joins.hash, joins.instList, List.mem_append, List.mem_singleton, update_apply,
      ← inv.same i]
    by_cases new : i = inst.seqNum <;> simp [new]
  case bounded =>
    intro i there
    show i ≤ inst.seqNum
    rcases joins.cases there with rfl | ⟨_, before⟩
    · exact Nat.le_refl _
    · have := inv.bounded i before
      have := joining.newer
      omega
  case named =>
    intro i there
    rcases joins.cases there with rfl | ⟨other, before⟩
    · show (u'.entries inst.seqNum).inst.seqNum = _
      rw [joins.entry, joining.own]
    · show (u'.entries i).inst.seqNum = i
      rw [(joins.kept other).1, inv.named i before]
  case here =>
    intro i there
    rcases joins.cases there with rfl | ⟨other, before⟩
    · show (u'.entries inst.seqNum).squashed = _
      rw [joins.entry, joining.here]
    · show (u'.entries i).squashed = _
      rw [(joins.kept other).2.1, inv.here i before]
  case replayable =>
    intro i member
    rw [show (s.joined u' inst.seqNum how waits canIssue).unit.instsToReplay =
      s.unit.instsToReplay from joins.replay] at member
    obtain ⟨there, executed, memRef⟩ := inv.replayable i member
    refine ⟨kept i there, executed, ?_⟩
    show (u'.entries i).inst.isMemRef = true
    rw [(joins.kept (held i there)).1, memRef]
  case once =>
    intro p there
    show (u'.entries p).dependInsts.Nodup
    rcases joins.cases there with rfl | ⟨other, before⟩
    · simp [joins.entry, joining.alone]
    · rw [joins.others p other]
      split
      · refine List.nodup_append.mpr ⟨inv.once p before, by simp, fun d member d' last => ?_⟩
        rw [List.mem_singleton.mp last]
        exact old d (inv.dependents p before d member).bounded
      · exact inv.once p before
  case dependents =>
    intro p there d member
    rcases joins.cases there with rfl | ⟨other, before⟩
    · have : (u'.entries inst.seqNum).dependInsts = [] := by rw [joins.entry, joining.alone]
      rw [show (s.joined u' inst.seqNum how waits canIssue).unit.entries = u'.entries from rfl,
        this] at member
      cases member
    · rcases dependents p other d member with was | ⟨rfl, chosen⟩
      · have dependent := inv.dependents p before d was
        have other := old d dependent.bounded
        constructor
        · simpa [State.joined, other] using dependent.producer
        · exact dependent.older
        · exact Nat.le_of_lt (Nat.lt_of_le_of_lt dependent.bounded joining.newer)
        · simpa [State.joined, other] using dependent.speculative
        · rcases dependent.held with there | squashed
          · exact .inl (kept d there)
          · right
            show (u'.entries d).squashed = true
            rw [(joins.kept other).2.1, squashed]
      · constructor
        · simp [State.joined, chosen]
        · exact Nat.lt_of_le_of_lt (inv.bounded p before) joining.newer
        · exact Nat.le_refl _
        · simp [State.joined, (joining.chosen p chosen).2.2]
        · exact .inl newHeld
  case producers =>
    intro d p there speculative found waiting
    by_cases new : d = inst.seqNum
    · subst new
      have chosen : waits = some p := by simpa [State.joined] using found
      have before := (joining.chosen p chosen).1
      refine ⟨kept p before, ?_⟩
      show inst.seqNum ∈ (u'.entries p).dependInsts
      rw [joins.others p (held p before), if_pos chosen]
      simp
    · have was : s.unit.memDepHash d = true := by
        rcases joins.cases there with same | ⟨_, before⟩
        · exact absurd same new
        · exact before
      obtain ⟨before, member⟩ := inv.producers d p was (how_ne d new speculative)
        (by simpa [State.joined, new] using found) waiting
      refine ⟨kept p before, ?_⟩
      show d ∈ (u'.entries p).dependInsts
      rw [joins.others p (held p before)]
      split
      · exact List.mem_append_left _ member
      · exact member
  case ended =>
    intro d ended speculative
    have other := old d (inv.gone d ended).2
    rw [joined_resolved_ne other]
    exact inv.ended d ended (how_ne d other speculative)
  case wakes =>
    intro p there nonempty
    rcases joins.cases there with rfl | ⟨other, before⟩
    · refine absurd ?_ nonempty
      show (u'.entries inst.seqNum).dependInsts = []
      rw [joins.entry, joining.alone]
    · show Producer (u'.entries p).inst
      rw [(joins.kept other).1]
      by_cases chosen : waits = some p
      · exact (joining.chosen p chosen).2.1
      · refine inv.wakes p before ?_
        have same : u'.entries p = s.unit.entries p := by
          rw [joins.others p other, if_neg chosen]
        exact fun empty => nonempty (by simpa [State.joined, same] using empty)
  case known =>
    intro d there speculative
    show (u'.entries d).regsReady = _
    rcases joins.cases there with rfl | ⟨other, before⟩
    · rw [joins.entry, (joining.speculative (how_new speculative)).2.1]
      simp [State.joined]
    · rw [(joins.kept other).2.2.1, inv.known d before (how_ne d other speculative)]
      simp [State.joined, other]
  case ready =>
    intro d there speculative unknown
    show (u'.entries d).memDepReady = _
    rcases joins.cases there with rfl | ⟨other, before⟩
    · rw [joins.entry, joined_resolved inv joining,
        (joining.speculative (how_new speculative)).2.2.1]
    · rw [(joins.kept other).2.2.2, joined_resolved_ne other]
      exact inv.ready d before (how_ne d other speculative)
        (by simpa [State.joined, other] using unknown)
  case moved =>
    intro d there speculative waiting
    show u'.readyInsts.count d = _
    rw [joins.ready]
    rcases joins.cases there with rfl | ⟨other, before⟩
    · have absent : s.unit.readyInsts.count inst.seqNum = 0 :=
        List.count_eq_zero.mpr fun member => old _ (inv.readyBounded _ member) rfl
      rw [joined_resolved inv joining, (joining.speculative (how_new speculative)).2.2.2]
      split
      · rename_i go
        simp [State.joined, absent, go]
      · rename_i stay
        simp [State.joined, absent, stay]
    · rw [joined_resolved_ne other]
      have count := inv.moved d before (how_ne d other speculative) waiting
      split
      · rw [List.count_append, count]
        simp [State.joined, other, Ne.symm other]
      · rw [count]
        simp [State.joined, other]
  case issuable =>
    intro d there speculative executed
    rcases joins.cases there with rfl | ⟨other, before⟩
    · exact absurd rfl (old _ (inv.issuedBounded _ executed))
    · rw [joined_resolved_ne other]
      exact inv.issuable d before (how_ne d other speculative) executed
  case gone =>
    intro p ended
    obtain ⟨left, bound⟩ := inv.gone p ended
    have other := old p bound
    constructor
    · show u'.memDepHash p = false
      rw [joins.hash, update_of_ne other, left]
    · exact Nat.le_of_lt (Nat.lt_of_le_of_lt bound joining.newer)
  case readyBounded =>
    intro d member
    show d ≤ inst.seqNum
    rw [show (s.joined u' inst.seqNum how waits canIssue).unit.readyInsts = _ from joins.ready]
      at member
    have bound (before : d ∈ s.unit.readyInsts) : d ≤ inst.seqNum :=
      Nat.le_of_lt (Nat.lt_of_le_of_lt (inv.readyBounded d before) joining.newer)
    split at member
    · rcases List.mem_append.mp member with before | new
      · exact bound before
      · exact Nat.le_of_eq (List.mem_singleton.mp new)
    · exact bound member
  case issuedBounded =>
    intro d executed
    exact Nat.le_of_lt (Nat.lt_of_le_of_lt (inv.issuedBounded d executed) joining.newer)
  case speculates =>
    intro d there speculative
    show (u'.entries d).inst.isMemRef = true
    rcases joins.cases there with rfl | ⟨other, before⟩
    · rw [joins.entry, joining.own]
      exact (joining.speculative (how_new speculative)).1
    · rw [(joins.kept other).1]
      exact inv.speculates d before (how_ne d other speculative)
  case kind =>
    intro i there
    show (u'.entries i).inst.isMemRef = true ∨ (u'.entries i).inst.isMemBarrier = true ∨
      (u'.entries i).inst.isWriteBarrier = true
    rcases joins.cases there with rfl | ⟨other, before⟩
    · rw [joins.entry, joining.own]
      exact joining.kind
    · rw [(joins.kept other).1]
      exact inv.kind i before
  case loadBounded =>
    show u'.loadBarrierSN ≤ inst.seqNum
    have := inv.loadBounded
    have := joining.newer
    rcases joins.loadBarrier with ⟨new, _⟩ | ⟨_, same⟩ <;> omega
  case storeBounded =>
    show u'.storeBarrierSN ≤ inst.seqNum
    have := inv.storeBounded
    have := joining.newer
    rcases joins.storeBarrier with ⟨new, _⟩ | ⟨_, same⟩ <;> omega
  case loadBarrier =>
    intro flag there
    change u'.memDepHash u'.loadBarrierSN = true at there
    show Producer (u'.entries u'.loadBarrierSN).inst
    rcases joins.loadBarrier with ⟨new, producer⟩ | ⟨was, same⟩
    · rw [new, joins.entry, joining.own]
      exact producer
    · rcases joins.cases there with new | ⟨other, before⟩
      · exact absurd new (old _ (same ▸ inv.loadBounded))
      · rw [(joins.kept other).1, same]
        exact inv.loadBarrier (was ▸ flag) (same ▸ before)
  case storeBarrier =>
    intro flag there
    change u'.memDepHash u'.storeBarrierSN = true at there
    show Producer (u'.entries u'.storeBarrierSN).inst
    rcases joins.storeBarrier with ⟨new, producer⟩ | ⟨was, same⟩
    · rw [new, joins.entry, joining.own]
      exact producer
    · rcases joins.cases there with new | ⟨other, before⟩
      · exact absurd new (old _ (same ▸ inv.storeBounded))
      · rw [(joins.kept other).1, same]
        exact inv.storeBarrier (was ▸ flag) (same ▸ before)
  case within => exact joins.within _ inv.within (Nat.le_of_lt joining.newer)
  case names =>
    intro n names there
    show Producer (u'.entries n).inst
    rcases joins.names n names with ⟨rfl, producer⟩ | before
    · rw [joins.entry, joining.own]
      exact producer
    · have other := old n (LawfulMemDepPred.names_le inv.within before)
      rw [(joins.kept other).1]
      rcases joins.cases there with same | ⟨_, was⟩
      · exact absurd same other
      · exact inv.names n before was

/-- What an instruction is found to wait for is an older store or barrier of the unit. -/
theorem producerOf_older (inv : Inv s) (newer : s.newest < inst.seqNum) {p : Nat}
    (found : (s.unit.addEntry inst).producerOf inst = some p) :
    s.unit.memDepHash p = true ∧ Producer (s.unit.entries p).inst := by
  unfold MemDepUnit.producerOf at found
  dsimp only at found
  split at found
  · rename_i both
    obtain ⟨nonzero, there⟩ := both
    have chosen := Option.some.inj found
    rw [chosen] at nonzero there
    have older (bound : p ≤ s.newest) : s.unit.memDepHash p = true := by
      have other : p ≠ inst.seqNum := by omega
      simpa [MemDepUnit.addEntry, other] using there
    -- The number is that of a barrier that is waited for, or comes from the predictor.
    unfold MemDepUnit.producingStore at chosen
    split at chosen
    · rename_i load
      have flag : s.unit.loadBarrier = true := (Bool.and_eq_true_iff.mp load).2
      have held := older (chosen ▸ inv.loadBounded)
      have number : s.unit.loadBarrierSN = p := chosen
      exact ⟨held, number ▸ inv.loadBarrier flag (number ▸ held)⟩
    · split at chosen
      · rename_i store
        have flag : s.unit.storeBarrier = true := (Bool.and_eq_true_iff.mp store).2
        have held := older (chosen ▸ inv.storeBounded)
        have number : s.unit.storeBarrierSN = p := chosen
        exact ⟨held, number ▸ inv.storeBarrier flag (number ▸ held)⟩
      · have named : LawfulMemDepPred.Names s.unit.depPred p := by
          rcases LawfulMemDepPred.checkInst_names s.unit.depPred inst.instAddr with none | names
          · exact absurd (chosen ▸ none) nonzero
          · exact chosen ▸ names
        have held := older (LawfulMemDepPred.names_le inv.within named)
        exact ⟨held, inv.names p named held⟩
  · cases found

/-- The predictor after it was told of a store. -/
def noted (u : MemDepUnit Pred) (inst : MemInst) : Pred :=
  if inst.isStore then MemDepPred.insertStore u.depPred inst.instAddr inst.seqNum else u.depPred

omit [LawfulMemDepPred Pred] in
theorem noteStore_eq {u : MemDepUnit Pred} (memRef : inst.isMemRef = true) :
    u.noteStore inst = .ok { u with depPred := noted u inst } := by
  unfold MemDepUnit.noteStore noted
  cases store : inst.isStore with
  | true => simp
  | false =>
    have load : inst.isLoad = true := by simpa [MemInst.isMemRef, store] using memRef
    simp [load]

theorem within_noted {u : MemDepUnit Pred} {n : Nat}
    (within : LawfulMemDepPred.Within u.depPred n) (newer : n ≤ inst.seqNum) :
    LawfulMemDepPred.Within (noted u inst) inst.seqNum := by
  unfold noted
  split
  · exact LawfulMemDepPred.within_insertStore _ within newer
  · exact LawfulMemDepPred.within_mono within newer

theorem names_noted {u : MemDepUnit Pred} {n : Nat}
    (names : LawfulMemDepPred.Names (noted u inst) n) :
    n = inst.seqNum ∧ Producer inst ∨ LawfulMemDepPred.Names u.depPred n := by
  unfold noted at names
  split at names
  · rename_i store
    exact (LawfulMemDepPred.names_insertStore names).imp_left fun new => ⟨new, .inl store⟩
  · exact .inr names

omit [MemDepPred Pred] [LawfulMemDepPred Pred] in
theorem insertReady_eq {u : MemDepUnit Pred} {i : Nat} (canIssue : Bool)
    (here : (u.entries i).squashed = false) :
    u.insertReady i canIssue = .ok { u with
      entries := update u.entries i { u.entries i with
        memDepReady := true, regsReady := canIssue || (u.entries i).regsReady }
      readyInsts := if canIssue then u.readyInsts ++ [i] else u.readyInsts } := by
  unfold MemDepUnit.insertReady MemDepUnit.moveToReady MemDepUnit.modify
  cases canIssue <;> simp [here]

omit [MemDepPred Pred] [LawfulMemDepPred Pred] in
theorem insertWaiting_eq {u : MemDepUnit Pred} {i store : Nat} (canIssue : Bool)
    (other : store ≠ i) : u.insertWaiting i store canIssue = { u with
      entries := update
        (update u.entries i
          { u.entries i with regsReady := canIssue || (u.entries i).regsReady }) store
        { u.entries store with dependInsts := (u.entries store).dependInsts ++ [i] } } := by
  unfold MemDepUnit.insertWaiting MemDepUnit.modify
  cases canIssue <;> simp [other]

/-- Two units that wait for the same barriers. -/
structure SameBarriers (u u' : MemDepUnit Pred) : Prop where
  loadBarrier : u'.loadBarrier = u.loadBarrier
  loadBarrierSN : u'.loadBarrierSN = u.loadBarrierSN
  storeBarrier : u'.storeBarrier = u.storeBarrier
  storeBarrierSN : u'.storeBarrierSN = u.storeBarrierSN

/-- A speculative instruction joins, waiting or not. -/
theorem insert_joins (inv : Inv s) (newer : s.newest < inst.seqNum)
    (memRef : inst.isMemRef = true) (canIssue : Bool) : ∃ u' left entry ready,
      s.unit.insert inst canIssue = .ok (u', left) ∧ SameBarriers s.unit u' ∧
        Joins s.unit u' inst entry ((s.unit.addEntry inst).producerOf inst) ready ∧
        Joining s inst entry ((s.unit.addEntry inst).producerOf inst) ready canIssue
          .speculative := by
  have there : ∀ p, (s.unit.addEntry inst).producerOf inst = some p → p ≠ inst.seqNum := by
    intro p found
    have := inv.bounded p (producerOf_older inv newer found).1
    omega
  unfold MemDepUnit.insert
  dsimp only
  cases found : (s.unit.addEntry inst).producerOf inst with
  | none =>
    rw [insertReady_eq canIssue (by simp [MemDepUnit.addEntry])]
    refine ⟨_, canIssue, { inst, memDepReady := true, regsReady := canIssue }, canIssue,
      by simp only [noteStore_eq memRef, bind, Except.bind, pure, Except.pure]; rfl, ?_, ?_, ?_⟩
    · exact ⟨rfl, rfl, rfl, rfl⟩
    · constructor
      case within => exact fun n within newer => within_noted within newer
      case names => exact fun n names => names_noted names
      case loadBarrier => exact .inr ⟨rfl, rfl⟩
      case storeBarrier => exact .inr ⟨rfl, rfl⟩
      case others => exact fun j other => by simp [MemDepUnit.addEntry, other]
      all_goals simp [MemDepUnit.addEntry]
    · exact ⟨newer, rfl, .inl memRef, rfl, rfl, by simp, fun _ => by simp [memRef]⟩
  | some p =>
    have other := there p found
    obtain ⟨held, producer⟩ := producerOf_older inv newer found
    dsimp only
    rw [insertWaiting_eq canIssue other]
    refine ⟨_, false, { inst, regsReady := canIssue }, false,
      by simp only [noteStore_eq memRef, bind, Except.bind, pure, Except.pure]; rfl, ?_, ?_, ?_⟩
    · exact ⟨rfl, rfl, rfl, rfl⟩
    · constructor
      case within => exact fun n within newer => within_noted within newer
      case names => exact fun n names => names_noted names
      case loadBarrier => exact .inr ⟨rfl, rfl⟩
      case storeBarrier => exact .inr ⟨rfl, rfl⟩
      case others =>
        intro j old
        by_cases chosen : p = j
        · subst chosen
          simp [MemDepUnit.addEntry, other]
        · simp [MemDepUnit.addEntry, old, chosen, Ne.symm chosen]
      case entry => simp [MemDepUnit.addEntry, Ne.symm other]
      all_goals simp [MemDepUnit.addEntry]
    · refine ⟨newer, rfl, .inl memRef, rfl, rfl, ?_, fun _ => by simp [memRef]⟩
      intro q same
      cases same
      exact ⟨held, producer, rfl⟩

theorem insertNonSpec_joins (newer : s.newest < inst.seqNum) (memRef : inst.isMemRef = true) :
    ∃ u', s.unit.insertNonSpec inst = .ok u' ∧ SameBarriers s.unit u' ∧
      Joins s.unit u' inst { inst } none false ∧
      Joining s inst { inst } none false false .nonSpeculative := by
  unfold MemDepUnit.insertNonSpec
  refine ⟨_, noteStore_eq memRef, ⟨rfl, rfl, rfl, rfl⟩, ?_, ?_⟩
  · constructor
    case within => exact fun n within newer => within_noted within newer
    case names => exact fun n names => names_noted names
    case loadBarrier => exact .inr ⟨rfl, rfl⟩
    case storeBarrier => exact .inr ⟨rfl, rfl⟩
    case others => exact fun j other => by simp [MemDepUnit.addEntry, other]
    all_goals simp [MemDepUnit.addEntry]
  · exact ⟨newer, rfl, .inl memRef, rfl, rfl, by simp, by simp⟩

theorem insertBarrier_joins (newer : s.newest < inst.seqNum)
    (barrier : inst.isMemBarrier = true ∨ inst.isWriteBarrier = true) :
    Joins s.unit (s.unit.insertBarrier inst) inst { inst } none false ∧
      Joining s inst { inst } none false false .barrier := by
  have producer : Producer inst := .inr barrier
  refine ⟨?_, newer, rfl, .inr barrier, rfl, rfl, by simp, by simp⟩
  unfold MemDepUnit.insertBarrier MemDepUnit.addBarrier
  split
  · constructor
    case within => exact fun n within newer => LawfulMemDepPred.within_mono within newer
    case names => exact fun n names => .inr names
    case loadBarrier => exact .inl ⟨rfl, producer⟩
    case storeBarrier => exact .inl ⟨rfl, producer⟩
    case others => exact fun j other => by simp [MemDepUnit.addEntry, other]
    all_goals simp [MemDepUnit.addEntry]
  · rename_i other
    have write : inst.isWriteBarrier = true := barrier.resolve_left other
    rw [if_pos write]
    constructor
    case within => exact fun n within newer => LawfulMemDepPred.within_mono within newer
    case names => exact fun n names => .inr names
    case loadBarrier => exact .inr ⟨rfl, rfl⟩
    case storeBarrier => exact .inl ⟨rfl, producer⟩
    case others => exact fun j other => by simp [MemDepUnit.addEntry, other]
    all_goals simp [MemDepUnit.addEntry]

end Join

/-- An entry that may have changed in what it is ready for, and in nothing else. -/
structure SameLinks (e e' : MemDepEntry) : Prop where
  inst : e'.inst = e.inst
  dependInsts : e'.dependInsts = e.dependInsts
  squashed : e'.squashed = e.squashed

/-- The invariant survives what changes neither the instructions of the unit nor their links. -/
theorem Inv.adjust {entries' : Nat → MemDepEntry} {readyInsts' instsToReplay' : List Nat}
    {depPred' : Pred} {regsKnown' issued' : Nat → Bool} (inv : Inv s)
    (links : ∀ i, SameLinks (s.unit.entries i) (entries' i))
    (replayable : ∀ i ∈ instsToReplay', s.unit.memDepHash i = true ∧ issued' i = true ∧
      (s.unit.entries i).inst.isMemRef = true)
    (known : ∀ d, s.unit.memDepHash d = true → s.how d = some .speculative →
      (entries' d).regsReady = regsKnown' d)
    (ready : ∀ d, s.unit.memDepHash d = true → s.how d = some .speculative →
      regsKnown' d = false → (entries' d).memDepReady = s.resolved d)
    (moved : ∀ d, s.unit.memDepHash d = true → s.how d = some .speculative → issued' d = false →
      readyInsts'.count d = if regsKnown' d && s.resolved d then 1 else 0)
    (issuable : ∀ d, s.unit.memDepHash d = true → s.how d = some .speculative →
      issued' d = true → s.resolved d = true)
    (readyBounded : ∀ d ∈ readyInsts', d ≤ s.newest)
    (issuedBounded : ∀ d, issued' d = true → d ≤ s.newest)
    (within : LawfulMemDepPred.Within depPred' s.newest)
    (names : ∀ n, LawfulMemDepPred.Names depPred' n → LawfulMemDepPred.Names s.unit.depPred n) :
    Inv { s with
      unit := { s.unit with
        entries := entries', readyInsts := readyInsts', instsToReplay := instsToReplay'
        depPred := depPred' }
      regsKnown := regsKnown', issued := issued' } where
  sorted := inv.sorted
  same := inv.same
  bounded := inv.bounded
  named i there := by
    rw [(links i).inst]
    exact inv.named i there
  here i there := by
    rw [(links i).squashed]
    exact inv.here i there
  replayable i member := by
    rw [(links i).inst]
    exact replayable i member
  once p there := by
    rw [(links p).dependInsts]
    exact inv.once p there
  dependents p there d member := by
    rw [(links p).dependInsts] at member
    have dependent := inv.dependents p there d member
    exact ⟨dependent.producer, dependent.older, dependent.bounded, dependent.speculative,
      dependent.held.imp_right fun squashed => (links d).squashed.trans squashed⟩
  producers d p there speculative found waiting := by
    rw [(links p).dependInsts]
    exact inv.producers d p there speculative found waiting
  ended := inv.ended
  wakes p there := by
    rw [(links p).dependInsts, (links p).inst]
    exact inv.wakes p there
  known := known
  ready := ready
  moved := moved
  issuable := issuable
  gone := inv.gone
  readyBounded := readyBounded
  issuedBounded := issuedBounded
  speculates d there := by
    rw [(links d).inst]
    exact inv.speculates d there
  kind i there := by
    rw [(links i).inst]
    exact inv.kind i there
  loadBounded := inv.loadBounded
  storeBounded := inv.storeBounded
  loadBarrier flag there := by
    rw [(links _).inst]
    exact inv.loadBarrier flag there
  storeBarrier flag there := by
    rw [(links _).inst]
    exact inv.storeBarrier flag there
  within := within
  names n named there := by
    rw [(links n).inst]
    exact inv.names n (names n named) there

omit [MemDepPred Pred] [LawfulMemDepPred Pred] in
theorem SameLinks.refl (e : MemDepEntry) : SameLinks e e := ⟨rfl, rfl, rfl⟩

theorem Inv.again (inv : Inv s) (more : List Nat)
    (allowed : ∀ d ∈ more, d ≤ s.newest ∧
      (s.unit.memDepHash d = true → s.how d = some .speculative → s.issued d = true)) :
    Inv { s with unit := { s.unit with readyInsts := s.unit.readyInsts ++ more } } := by
  refine inv.adjust (fun i => SameLinks.refl _) inv.replayable inv.known inv.ready ?_
    inv.issuable ?_ inv.issuedBounded inv.within fun n names => names
  · intro d there speculative waiting
    have absent : d ∉ more := by
      intro member
      rw [(allowed d member).2 there speculative] at waiting
      cases waiting
    rw [List.count_append, List.count_eq_zero.mpr absent]
    exact inv.moved d there speculative waiting
  · intro d member
    rcases List.mem_append.mp member with before | new
    · exact inv.readyBounded d before
    · exact (allowed d new).1

/-- The unit when the registers of an instruction have become ready. -/
def afterRegs (u : MemDepUnit Pred) (i : Nat) (resolved : Bool) : MemDepUnit Pred :=
  { u with
    entries := update u.entries i { u.entries i with regsReady := true }
    readyInsts := u.readyInsts ++ if resolved then [i] else [] }

theorem regsReady_eq (inv : Inv s) {i : Nat} (there : s.unit.memDepHash i = true)
    (speculative : s.how i = some .speculative) (unknown : s.regsKnown i = false) :
    s.unit.regsReady i = .ok (afterRegs s.unit i (s.resolved i)) := by
  have stays : (s.unit.entries i).squashed = false := inv.here i there
  have resolved := inv.ready i there speculative unknown
  unfold MemDepUnit.regsReady MemDepUnit.findInHash MemDepUnit.moveToReady MemDepUnit.modify
  rw [if_pos there, afterRegs]
  cases memDepReady : (s.unit.entries i).memDepReady <;>
    simp [memDepReady, ← resolved, stays, bind, Except.bind, pure, Except.pure]

theorem regsReady_inv (inv : Inv s) {i : Nat} (there : s.unit.memDepHash i = true)
    (unknown : s.regsKnown i = false) :
    Inv { s with
      unit := afterRegs s.unit i (s.resolved i)
      regsKnown := update s.regsKnown i true } := by
  refine inv.adjust ?_ inv.replayable ?_ ?_ ?_ inv.issuable ?_ inv.issuedBounded inv.within
    fun n names => names
  · intro j
    by_cases same : j = i
    · subst same
      exact ⟨by simp, by simp, by simp⟩
    · simpa [same] using SameLinks.refl _
  · intro d held spec
    by_cases same : d = i
    · simp [same]
    · simpa [same] using inv.known d held spec
  · intro d held spec left
    by_cases same : d = i
    · simp [same] at left
    · simpa [same] using inv.ready d held spec (by simpa [same] using left)
  · intro d held spec waiting
    rw [List.count_append, inv.moved d held spec waiting]
    by_cases same : d = i
    · subst same
      cases s.resolved d <;> simp [unknown]
    · cases s.resolved i <;> simp [same, Ne.symm same]
  · intro d member
    rcases List.mem_append.mp member with before | new
    · exact inv.readyBounded d before
    · split at new
      · rw [List.mem_singleton.mp new]
        exact inv.bounded i there
      · cases new

omit [MemDepPred Pred] [LawfulMemDepPred Pred] in
theorem nonSpecInstReady_eq {u : MemDepUnit Pred} {i : Nat} (there : u.memDepHash i = true)
    (stays : (u.entries i).squashed = false) :
    u.nonSpecInstReady i = .ok { u with readyInsts := u.readyInsts ++ [i] } := by
  unfold MemDepUnit.nonSpecInstReady MemDepUnit.findInHash MemDepUnit.moveToReady
  rw [if_pos there]
  simp [stays, bind, Except.bind]

theorem nonSpecInstReady_inv (inv : Inv s) {i : Nat} (there : s.unit.memDepHash i = true)
    (nonSpec : s.how i = some .nonSpeculative) :
    Inv { s with unit := { s.unit with readyInsts := s.unit.readyInsts ++ [i] } } := by
  refine inv.again _ fun d member => ?_
  rw [List.mem_singleton.mp member]
  refine ⟨inv.bounded i there, fun _ speculative => ?_⟩
  rw [nonSpec] at speculative
  cases speculative

/-- The queue issues a ready instruction. -/
theorem issue_inv (inv : Inv s) {i : Nat} (member : i ∈ s.unit.readyInsts) :
    Inv { s with
      unit := { s.unit with readyInsts := s.unit.readyInsts.erase i }.issue (s.unit.entries i).inst
      issued := update s.issued i true } := by
  refine inv.adjust (fun j => SameLinks.refl _) ?_ inv.known inv.ready ?_ ?_ ?_ ?_
    (LawfulMemDepPred.within_issued _ _ _ inv.within) fun n names =>
      LawfulMemDepPred.names_issued names
  · intro j replayed
    obtain ⟨there, executed, memRef⟩ := inv.replayable j replayed
    refine ⟨there, ?_, memRef⟩
    by_cases same : j = i <;> simp [same, executed]
  · intro d there speculative waiting
    have other : d ≠ i := by
      intro same
      simp [same] at waiting
    rw [List.count_erase_of_ne other]
    exact inv.moved d there speculative (by simpa [other] using waiting)
  · intro d there speculative executed
    by_cases same : d = i
    · subst same
      cases before : s.issued d with
      | true => exact inv.issuable d there speculative before
      | false =>
        -- It is ready, so its registers and its dependence are.
        have count := inv.moved d there speculative before
        have positive := List.count_pos_iff.mpr member
        cases resolved : s.resolved d with
        | true => rfl
        | false => simp [resolved] at count; omega
    · exact inv.issuable d there speculative (by simpa [same] using executed)
  · exact fun d left => inv.readyBounded d (List.mem_of_mem_erase left)
  · intro d executed
    by_cases same : d = i
    · exact same ▸ inv.readyBounded i member
    · exact inv.issuedBounded d (by simpa [same] using executed)

theorem drop_inv (inv : Inv s) {i : Nat} (gone : s.unit.memDepHash i = false) :
    Inv { s with unit := { s.unit with readyInsts := s.unit.readyInsts.erase i } } := by
  refine inv.adjust (fun j => SameLinks.refl _) inv.replayable inv.known inv.ready ?_
    inv.issuable (fun d left => inv.readyBounded d (List.mem_of_mem_erase left))
    inv.issuedBounded inv.within fun n names => names
  intro d there speculative waiting
  have other : d ≠ i := by
    rintro rfl
    rw [gone] at there
    cases there
  rw [List.count_erase_of_ne other]
  exact inv.moved d there speculative waiting

theorem reschedule_inv (inv : Inv s) {i : Nat} (executes : s.executes i)
    (memRef : (s.unit.entries i).inst.isMemRef = true) :
    Inv { s with unit := s.unit.reschedule i } := by
  refine inv.adjust (fun _ => SameLinks.refl _) ?_ inv.known inv.ready inv.moved inv.issuable
    inv.readyBounded inv.issuedBounded inv.within fun n names => names
  intro j member
  rcases List.mem_append.mp member with before | new
  · exact inv.replayable j before
  · rw [List.mem_singleton.mp new]
    exact ⟨executes.1, executes.2.1, memRef⟩

/-- The unit after all that waited for it were replayed. -/
def afterReplay (u : MemDepUnit Pred) : MemDepUnit Pred :=
  { u with readyInsts := u.readyInsts ++ u.instsToReplay, instsToReplay := [] }

omit [MemDepPred Pred] [LawfulMemDepPred Pred] in
theorem foldlM_nonSpecInstReady (list : List Nat) (u : MemDepUnit Pred)
    (held : ∀ i ∈ list, u.memDepHash i = true ∧ (u.entries i).squashed = false) :
    list.foldlM nonSpecInstReady u = .ok { u with readyInsts := u.readyInsts ++ list } := by
  -- The induction follows the list, and each of its instructions is found.
  induction list generalizing u with
  | nil => simp [pure, Except.pure]
  | cons i list ih =>
    obtain ⟨there, stays⟩ := held i (by simp)
    rw [List.foldlM_cons, nonSpecInstReady_eq there stays]
    show list.foldlM nonSpecInstReady { u with readyInsts := u.readyInsts ++ [i] } = _
    rw [ih { u with readyInsts := u.readyInsts ++ [i] } fun j member =>
      held j (by simp [member])]
    simp

theorem replay_eq (inv : Inv s) : s.unit.replay = .ok (afterReplay s.unit) := by
  unfold MemDepUnit.replay
  rw [foldlM_nonSpecInstReady _ _ fun i member =>
    ⟨(inv.replayable i member).1, inv.here i (inv.replayable i member).1⟩]
  rfl

theorem replay_inv (inv : Inv s) : Inv { s with unit := afterReplay s.unit } := by
  have more := inv.again s.unit.instsToReplay fun i member =>
    ⟨inv.bounded i (inv.replayable i member).1, fun _ _ => (inv.replayable i member).2.1⟩
  exact more.adjust (fun _ => SameLinks.refl _) (by simp) more.known more.ready more.moved
    more.issuable more.readyBounded more.issuedBounded more.within fun n names => names

theorem violation_inv (inv : Inv s) (store load : Addr) :
    Inv { s with unit := s.unit.violation store load } :=
  inv.adjust (fun _ => SameLinks.refl _) inv.replayable inv.known inv.ready inv.moved inv.issuable
    inv.readyBounded inv.issuedBounded (LawfulMemDepPred.within_violation _ _ inv.within)
    fun _ names => LawfulMemDepPred.names_violation names

section Complete

variable {i : Nat}

/-- The unit after an instruction has woken its dependents. -/
def afterWake (u : MemDepUnit Pred) (i : Nat) : MemDepUnit Pred :=
  (u.woken (u.entries i).dependInsts).modify i fun e => { e with dependInsts := [] }

/-- The unit after an instruction has woken its dependents and left. -/
def afterComplete (u : MemDepUnit Pred) (i : Nat) (loadBarrier storeBarrier : Bool) :
    MemDepUnit Pred :=
  { afterWake u i with
    memDepHash := update u.memDepHash i false
    instList := u.instList.erase i
    loadBarrier
    storeBarrier }

theorem wakeDependents_eq (inv : Inv s) (there : s.unit.memDepHash i = true) :
    s.unit.wakeDependents (s.unit.entries i).inst = .ok (afterWake s.unit i) := by
  have named := inv.named i there
  by_cases producer : Producer (s.unit.entries i).inst
  · have asked : ¬((!(s.unit.entries i).inst.isStore && !(s.unit.entries i).inst.isMemBarrier &&
        !(s.unit.entries i).inst.isWriteBarrier) = true) := by
      intro none
      simp only [Bool.and_eq_true, Bool.not_eq_true'] at none
      simp [Producer, none] at producer
    unfold MemDepUnit.wakeDependents MemDepUnit.findInHash
    rw [if_neg asked, named, if_pos there]
    simp [afterWake, bind, Except.bind, pure, Except.pure, foldlM_wake _ _ (inv.once i there)]
  · have none : (s.unit.entries i).dependInsts = [] :=
      Classical.byContradiction fun nonempty => producer (inv.wakes i there nonempty)
    have early : (!(s.unit.entries i).inst.isStore && !(s.unit.entries i).inst.isMemBarrier &&
        !(s.unit.entries i).inst.isWriteBarrier) = true := by
      simpa [Producer, not_or, and_assoc] using producer
    unfold MemDepUnit.wakeDependents
    rw [if_pos early]
    have same : update s.unit.entries i
        { s.unit.entries i with dependInsts := [] } = s.unit.entries := by
      rw [← none, Function.update_eq_self_iff]
    simp [afterWake, none, MemDepUnit.woken, MemDepUnit.modify, same]

theorem not_dependent_of_completes (inv : Inv s) (completes : s.completes i) {p : Nat}
    (there : s.unit.memDepHash p = true) : i ∉ (s.unit.entries p).dependInsts := by
  intro member
  have dependent := inv.dependents p there i member
  have executes := completes.2 (inv.speculates i completes.1 dependent.speculative)
  have resolved := inv.issuable i completes.1 dependent.speculative executes.2.1
  have left := (inv.gone p (resolved_true_iff.mp resolved p dependent.producer)).1
  rw [there] at left
  cases left

variable {loadBarrier storeBarrier : Bool}

omit [MemDepPred Pred] [LawfulMemDepPred Pred] in
theorem afterComplete_entries {u : MemDepUnit Pred} {j : Nat} (other : j ≠ i) :
    (afterComplete u i loadBarrier storeBarrier).entries j =
      (u.woken (u.entries i).dependInsts).entries j := by
  simp [afterComplete, afterWake, MemDepUnit.modify, other]

omit [MemDepPred Pred] [LawfulMemDepPred Pred] in
theorem woken_links (u : MemDepUnit Pred) (list : List Nat) (j : Nat) :
    SameLinks (u.entries j) ((u.woken list).entries j) ∧
      ((u.woken list).entries j).regsReady = (u.entries j).regsReady := by
  simp only [MemDepUnit.woken]
  split <;> exact ⟨⟨rfl, rfl, rfl⟩, rfl⟩

/-- The invariant survives an instruction that completes. -/
theorem Inv.complete (inv : Inv s) (completes : s.completes i)
    (fewerLoad : loadBarrier = true → s.unit.loadBarrier = true)
    (fewerStore : storeBarrier = true → s.unit.storeBarrier = true) :
    Inv { s with
      unit := afterComplete s.unit i loadBarrier storeBarrier
      done := update s.done i true } := by
  have there := completes.1
  have old (j : Nat) (held : update s.unit.memDepHash i false j = true) :
      j ≠ i ∧ s.unit.memDepHash j = true := by
    by_cases same : j = i
    · simp [same] at held
    · exact ⟨same, by simpa [same] using held⟩
  have links (j : Nat) (other : j ≠ i) : SameLinks (s.unit.entries j)
      ((afterComplete s.unit i loadBarrier storeBarrier).entries j) := by
    rw [afterComplete_entries other]
    exact (woken_links _ _ j).1
  have wasDone (p : Nat) (ended : s.done p = true) : update s.done i true p = true := by
    by_cases same : p = i <;> simp [same, ended]
  have live : s.done i = false := by
    cases ended : s.done i with
    | false => rfl
    | true =>
      have left := (inv.gone i ended).1
      rw [there] at left
      cases left
  -- The dependents of the instruction are what is resolved now and was not before.
  have freed (d : Nat) (held : s.unit.memDepHash d = true)
      (speculative : s.how d = some .speculative) (found : s.producer d = some i) :
      d ∈ (s.unit.entries i).dependInsts ∧ s.resolved d = false ∧
        State.resolved { s with
          unit := afterComplete s.unit i loadBarrier storeBarrier
          done := update s.done i true } d = true := by
    refine ⟨(inv.producers d i held speculative found live).2, ?_, ?_⟩
    · simp [State.resolved, found, live]
    · simp [State.resolved, found]
  have same (d : Nat) (found : s.producer d ≠ some i) :
      State.resolved { s with
          unit := afterComplete s.unit i loadBarrier storeBarrier
          done := update s.done i true } d = s.resolved d := by
    unfold State.resolved
    dsimp only
    cases producer : s.producer d with
    | none => rfl
    | some p =>
      have other : p ≠ i := fun same => found (by rw [producer, same])
      simp [other]
  have kept (d : Nat) (found : s.producer d ≠ some i) : d ∉ (s.unit.entries i).dependInsts :=
    fun member => found (inv.dependents i there d member).producer
  constructor
  case sorted => exact inv.sorted.sublist List.erase_sublist
  case same =>
    intro j
    have once : s.unit.instList.Nodup := inv.sorted.imp fun less => Nat.ne_of_lt less
    show update s.unit.memDepHash i false j = true ↔ j ∈ s.unit.instList.erase i
    rw [once.mem_erase_iff, ← inv.same j,
      update_apply]
    by_cases same : j = i <;> simp [same]
  case bounded => exact fun j held => inv.bounded j (old j held).2
  case named =>
    intro j held
    obtain ⟨other, was⟩ := old j held
    exact (congrArg MemInst.seqNum (links j other).inst).trans (inv.named j was)
  case here =>
    intro j held
    obtain ⟨other, was⟩ := old j held
    exact (links j other).squashed.trans (inv.here j was)
  case replayable =>
    intro j member
    obtain ⟨was, executed, memRef⟩ := inv.replayable j member
    have other : j ≠ i := by
      rintro rfl
      exact (completes.2 memRef).2.2.2 member
    refine ⟨?_, executed, ?_⟩
    · show update s.unit.memDepHash i false j = true
      rw [update_of_ne other, was]
    · exact (congrArg MemInst.isMemRef (links j other).inst).trans memRef
  case once =>
    intro p held
    obtain ⟨other, was⟩ := old p held
    exact (links p other).dependInsts ▸ inv.once p was
  case dependents =>
    intro p held d member
    obtain ⟨other, was⟩ := old p held
    have before : d ∈ (s.unit.entries p).dependInsts := (links p other).dependInsts ▸ member
    have dependent := inv.dependents p was d before
    have differs : d ≠ i := by
      rintro rfl
      exact not_dependent_of_completes inv completes was before
    refine ⟨dependent.producer, dependent.older, dependent.bounded, dependent.speculative, ?_⟩
    rcases dependent.held with held | squashed
    · left
      show update s.unit.memDepHash i false d = true
      rw [update_of_ne differs, held]
    · exact .inr ((links d differs).squashed.trans squashed)
  case producers =>
    intro d p held speculative found waiting
    have differs : p ≠ i := by
      rintro rfl
      simp at waiting
    obtain ⟨was, member⟩ := inv.producers d p (old d held).2 speculative found
      (by simpa [differs] using waiting)
    refine ⟨?_, (links p differs).dependInsts ▸ member⟩
    show update s.unit.memDepHash i false p = true
    rw [update_of_ne differs, was]
  case ended =>
    intro d ended speculative
    refine resolved_mono (s := s) rfl wasDone ?_
    by_cases same : d = i
    · subst same
      exact inv.issuable d there speculative
        (completes.2 (inv.speculates d there speculative)).2.1
    · exact inv.ended d (by simpa [same] using ended) speculative
  case wakes =>
    intro p held nonempty
    obtain ⟨other, was⟩ := old p held
    rw [show _ = _ from (links p other).inst]
    exact inv.wakes p was ((links p other).dependInsts ▸ nonempty)
  case known =>
    intro d held speculative
    obtain ⟨other, was⟩ := old d held
    show ((afterComplete s.unit i loadBarrier storeBarrier).entries d).regsReady = s.regsKnown d
    rw [afterComplete_entries other, (woken_links _ _ d).2, inv.known d was speculative]
  case ready =>
    intro d held speculative unknown
    obtain ⟨other, was⟩ := old d held
    show ((afterComplete s.unit i loadBarrier storeBarrier).entries d).memDepReady = _
    rw [afterComplete_entries other]
    have stays : s.unit.runs d = false := by
      have unready := (inv.known d was speculative).trans unknown
      simp [MemDepUnit.runs, unready]
    by_cases found : s.producer d = some i
    · obtain ⟨member, _, resolved⟩ := freed d was speculative found
      rw [resolved]
      simp [MemDepUnit.woken, member, stays]
    · rw [same d found, ← inv.ready d was speculative unknown]
      simp [MemDepUnit.woken, kept d found]
  case moved =>
    intro d held speculative waiting
    obtain ⟨other, was⟩ := old d held
    show (s.unit.readyInsts ++ (s.unit.entries i).dependInsts.filter s.unit.runs).count d = _
    rw [List.count_append, inv.moved d was speculative waiting]
    by_cases found : s.producer d = some i
    · obtain ⟨member, unresolved, resolved⟩ := freed d was speculative found
      have runs : s.unit.runs d = s.regsKnown d := by
        simp [MemDepUnit.runs, inv.known d was speculative, inv.here d was]
      rw [unresolved, resolved]
      show _ = if s.regsKnown d && true then 1 else 0
      cases known : s.regsKnown d with
      | true =>
        rw [List.count_filter (runs.trans known),
          List.count_eq_one_of_mem (inv.once i there) member]
        rfl
      | false =>
        have absent : d ∉ (s.unit.entries i).dependInsts.filter s.unit.runs := by
          simp [runs, known]
        rw [List.count_eq_zero.mpr absent]
        rfl
    · have absent : d ∉ (s.unit.entries i).dependInsts.filter s.unit.runs := by
        simp [kept d found]
      rw [List.count_eq_zero.mpr absent, same d found, Nat.add_zero]
  case issuable =>
    intro d held speculative executed
    exact resolved_mono (s := s) rfl wasDone
      (inv.issuable d (old d held).2 speculative executed)
  case gone =>
    intro p ended
    by_cases same : p = i
    · subst same
      exact ⟨update_self .., inv.bounded p there⟩
    · obtain ⟨left, bound⟩ := inv.gone p (by simpa [same] using ended)
      refine ⟨?_, bound⟩
      show update s.unit.memDepHash i false p = false
      rw [update_of_ne same, left]
  case readyBounded =>
    intro d member
    rcases List.mem_append.mp member with before | new
    · exact inv.readyBounded d before
    · exact (inv.dependents i there d (List.mem_of_mem_filter new)).bounded
  case issuedBounded => exact inv.issuedBounded
  case speculates =>
    intro d held speculative
    obtain ⟨other, was⟩ := old d held
    exact (congrArg MemInst.isMemRef (links d other).inst).trans (inv.speculates d was speculative)
  case kind =>
    intro j held
    obtain ⟨other, was⟩ := old j held
    rw [show _ = _ from (links j other).inst]
    exact inv.kind j was
  case loadBounded => exact inv.loadBounded
  case storeBounded => exact inv.storeBounded
  case loadBarrier =>
    intro flag held
    obtain ⟨other, was⟩ := old _ held
    rw [show _ = _ from (links _ other).inst]
    exact inv.loadBarrier (fewerLoad flag) was
  case storeBarrier =>
    intro flag held
    obtain ⟨other, was⟩ := old _ held
    rw [show _ = _ from (links _ other).inst]
    exact inv.storeBarrier (fewerStore flag) was
  case within => exact inv.within
  case names =>
    intro n names held
    obtain ⟨other, was⟩ := old n held
    rw [show _ = _ from (links n other).inst]
    exact inv.names n names was

/-- Whether loads still wait for a barrier when an instruction has completed. -/
def loadWaits (u : MemDepUnit Pred) (i : Nat) : Bool :=
  if (u.entries i).inst.isMemRef then u.loadBarrier
  else (u.forgetBarrier (u.entries i).inst).loadBarrier

/-- Whether stores still wait for a barrier when an instruction has completed. -/
def storeWaits (u : MemDepUnit Pred) (i : Nat) : Bool :=
  if (u.entries i).inst.isMemRef then u.storeBarrier
  else (u.forgetBarrier (u.entries i).inst).storeBarrier

omit [MemDepPred Pred] [LawfulMemDepPred Pred] in
theorem forgetBarrier_le (u : MemDepUnit Pred) (inst : MemInst) :
    ((u.forgetBarrier inst).loadBarrier = true → u.loadBarrier = true) ∧
      ((u.forgetBarrier inst).storeBarrier = true → u.storeBarrier = true) := by
  unfold MemDepUnit.forgetBarrier
  split
  · simp +contextual
  · split <;> simp +contextual

theorem complete_eq (inv : Inv s) (there : s.unit.memDepHash i = true) :
    s.unit.iqWakeDependents (s.unit.entries i).inst =
      .ok (afterComplete s.unit i (loadWaits s.unit i) (storeWaits s.unit i)) := by
  have named := inv.named i there
  have left : (afterWake s.unit i).completed i =
      .ok (afterComplete s.unit i s.unit.loadBarrier s.unit.storeBarrier) := by
    rw [MemDepUnit.completed, MemDepUnit.findInHash,
      show (afterWake s.unit i).memDepHash = s.unit.memDepHash from rfl, if_pos there]
    rfl
  unfold MemDepUnit.iqWakeDependents loadWaits storeWaits
  split
  · rw [wakeDependents_eq inv there, named]
    exact left
  · split
    · unfold MemDepUnit.completeBarrier
      rw [wakeDependents_eq inv there, named]
      show ((MemDepUnit.completed _ i).bind _) = _
      rw [left]
      show Except.ok (MemDepUnit.forgetBarrier _ _) = _
      unfold MemDepUnit.forgetBarrier
      split
      · rfl
      · split <;> rfl
    · rename_i memRef barrier
      have kind := inv.kind i there
      simp only [Bool.or_eq_true] at barrier
      tauto

theorem complete_inv (inv : Inv s) (completes : s.completes i) :
    Inv { s with
      unit := afterComplete s.unit i (loadWaits s.unit i) (storeWaits s.unit i)
      done := update s.done i true } := by
  apply inv.complete completes
  · unfold loadWaits
    split
    · exact id
    · exact (forgetBarrier_le _ _).1
  · unfold storeWaits
    split
    · exact id
    · exact (forgetBarrier_le _ _).2

end Complete

section Squash

variable {squashed_num : Nat}

/-- The unit without the instructions younger than a number. -/
def survivors (u : MemDepUnit Pred) (squashed_num : Nat) : MemDepUnit Pred :=
  (u.dropReplays squashed_num).withoutYounger squashed_num

omit [MemDepPred Pred] [LawfulMemDepPred Pred] in
theorem withoutYounger_entries {u : MemDepUnit Pred} {i : Nat} (older : i ≤ squashed_num) :
    (u.withoutYounger squashed_num).entries i = u.entries i :=
  if_neg fun both => absurd both.2 (Nat.not_lt.mpr older)

/-- The invariant survives that the instructions younger than a number are squashed. -/
theorem Inv.squash (inv : Inv s) {depPred' : Pred}
    (within : LawfulMemDepPred.Within depPred' s.newest)
    (names : ∀ n, LawfulMemDepPred.Names depPred' n → LawfulMemDepPred.Names s.unit.depPred n) :
    Inv { s with unit := { survivors s.unit squashed_num with depPred := depPred' } } := by
  -- What is left is as old as the number at least, and its entry is as it was.
  have old (i : Nat) (held : (survivors s.unit squashed_num).memDepHash i = true) :
      i ≤ squashed_num ∧ s.unit.memDepHash i = true := by
    simpa [survivors, MemDepUnit.dropReplays, MemDepUnit.withoutYounger, and_comm] using held
  have kept (i : Nat) (older : i ≤ squashed_num) (held : s.unit.memDepHash i = true) :
      (survivors s.unit squashed_num).memDepHash i = true := by
    simp [survivors, MemDepUnit.dropReplays, MemDepUnit.withoutYounger, held, older]
  have entry (i : Nat) (held : (survivors s.unit squashed_num).memDepHash i = true) :
      (survivors s.unit squashed_num).entries i = s.unit.entries i :=
    withoutYounger_entries (old i held).1
  constructor
  case sorted => exact inv.sorted.sublist List.filter_sublist
  case same =>
    intro i
    show (s.unit.memDepHash i && decide (i ≤ squashed_num)) = true ↔
      i ∈ s.unit.instList.filter fun i => i ≤ squashed_num
    rw [List.mem_filter, ← inv.same i, Bool.and_eq_true]
  case bounded => exact fun i held => inv.bounded i (old i held).2
  case named =>
    intro i held
    exact (congrArg (·.inst.seqNum) (entry i held)).trans (inv.named i (old i held).2)
  case here =>
    intro i held
    exact (congrArg (·.squashed) (entry i held)).trans (inv.here i (old i held).2)
  case replayable =>
    intro i member
    obtain ⟨before, older⟩ := List.mem_filter.mp member
    obtain ⟨held, executed, memRef⟩ := inv.replayable i before
    have still := kept i (of_decide_eq_true older) held
    exact ⟨still, executed, (congrArg (·.inst.isMemRef) (entry i still)).trans memRef⟩
  case once =>
    intro p held
    exact (congrArg (·.dependInsts) (entry p held)) ▸ inv.once p (old p held).2
  case dependents =>
    intro p held d member
    have before : d ∈ (s.unit.entries p).dependInsts :=
      (congrArg (·.dependInsts) (entry p held)) ▸ member
    have dependent := inv.dependents p (old p held).2 d before
    refine ⟨dependent.producer, dependent.older, dependent.bounded, dependent.speculative, ?_⟩
    by_cases older : d ≤ squashed_num
    · refine dependent.held.imp (kept d older) fun squashed => ?_
      exact (congrArg (·.squashed) (withoutYounger_entries older)).trans squashed
    · -- A dependent that goes is marked, unless it was before.
      right
      show (if s.unit.memDepHash d = true ∧ squashed_num < d then
        { s.unit.entries d with squashed := true } else s.unit.entries d).squashed = true
      split
      · rfl
      · rename_i stays
        refine dependent.held.resolve_left fun held => stays ⟨held, by omega⟩
  case producers =>
    intro d p held speculative found waiting
    obtain ⟨older, was⟩ := old d held
    obtain ⟨there, member⟩ := inv.producers d p was speculative found waiting
    -- What it depends on is older still, so that it is left too.
    have before := (inv.dependents p there d member).older
    have still := kept p (by omega) there
    exact ⟨still, (congrArg (·.dependInsts) (entry p still)) ▸ member⟩
  case ended => exact inv.ended
  case wakes =>
    intro p held nonempty
    have same := entry p held
    show Producer ((survivors s.unit squashed_num).entries p).inst
    rw [same]
    exact inv.wakes p (old p held).2 ((congrArg (·.dependInsts) same) ▸ nonempty)
  case known =>
    intro d held speculative
    exact (congrArg (·.regsReady) (entry d held)).trans (inv.known d (old d held).2 speculative)
  case ready =>
    intro d held speculative unknown
    exact (congrArg (·.memDepReady) (entry d held)).trans
      (inv.ready d (old d held).2 speculative unknown)
  case moved =>
    intro d held speculative waiting
    exact inv.moved d (old d held).2 speculative waiting
  case issuable => exact fun d held => inv.issuable d (old d held).2
  case gone =>
    intro p ended
    obtain ⟨left, bound⟩ := inv.gone p ended
    refine ⟨?_, bound⟩
    show (s.unit.memDepHash p && decide (p ≤ squashed_num)) = false
    rw [left, Bool.false_and]
  case readyBounded => exact inv.readyBounded
  case issuedBounded => exact inv.issuedBounded
  case speculates =>
    intro d held speculative
    exact (congrArg (·.inst.isMemRef) (entry d held)).trans
      (inv.speculates d (old d held).2 speculative)
  case kind =>
    intro i held
    show ((survivors s.unit squashed_num).entries i).inst.isMemRef = true ∨
      ((survivors s.unit squashed_num).entries i).inst.isMemBarrier = true ∨
      ((survivors s.unit squashed_num).entries i).inst.isWriteBarrier = true
    rw [entry i held]
    exact inv.kind i (old i held).2
  case loadBounded => exact inv.loadBounded
  case storeBounded => exact inv.storeBounded
  case loadBarrier =>
    intro flag held
    show Producer ((survivors s.unit squashed_num).entries s.unit.loadBarrierSN).inst
    rw [entry s.unit.loadBarrierSN held]
    exact inv.loadBarrier (Bool.and_eq_true_iff.mp flag).1 (old _ held).2
  case storeBarrier =>
    intro flag held
    show Producer ((survivors s.unit squashed_num).entries s.unit.storeBarrierSN).inst
    rw [entry s.unit.storeBarrierSN held]
    exact inv.storeBarrier (Bool.and_eq_true_iff.mp flag).1 (old _ held).2
  case within => exact within
  case names =>
    intro n named held
    show Producer ((survivors s.unit squashed_num).entries n).inst
    rw [entry n held]
    exact inv.names n (names n named) (old n held).2

theorem squash_eq (inv : Inv s) (squashed_num : Nat) : ∃ depPred' : Pred,
    LawfulMemDepPred.Within depPred' s.newest ∧
      (∀ n, LawfulMemDepPred.Names depPred' n → LawfulMemDepPred.Names s.unit.depPred n) ∧
      s.unit.squash squashed_num =
        .ok { survivors s.unit squashed_num with
          depPred := depPred' } := by
  obtain ⟨depPred', returned, within, names⟩ :=
    LawfulMemDepPred.squash_returns squashed_num inv.within
  have looped : squashLoop squashed_num s.unit.instList.reverse (s.unit.dropReplays squashed_num) =
      .ok (survivors s.unit squashed_num) :=
    squashLoop_eq (u := s.unit.dropReplays squashed_num) squashed_num inv.sorted inv.same
  have told : MemDepPred.squash
      (survivors s.unit squashed_num).depPred squashed_num =
      some depPred' := returned
  refine ⟨depPred', within, names, ?_⟩
  unfold MemDepUnit.squash
  rw [looped]
  dsimp only [bind, Except.bind]
  rw [told]
  rfl

end Squash

/-- Every operation keeps the invariant, and none fails. -/
theorem Inv.step (inv : Inv s) {op : Op} {t : Except MemDepFault (State Pred)}
    (taken : MemDepRun.step (.ok s) op = some t) : Ends (fun _ => False) t Inv := by
  cases op with
  | insert inst canIssue =>
    obtain ⟨allowed, result⟩ := Option.ite_none_right_eq_some.mp taken
    cases result
    obtain ⟨u', left, entry, ready, ran, _, joins, joining⟩ :=
      insert_joins inv allowed.1 allowed.2 canIssue
    rw [insert, ran]
    exact inv.join joins joining
  | insertNonSpec inst =>
    obtain ⟨allowed, result⟩ := Option.ite_none_right_eq_some.mp taken
    cases result
    obtain ⟨u', ran, _, joins, joining⟩ := insertNonSpec_joins allowed.1 allowed.2
    rw [ran]
    exact inv.join joins joining
  | insertBarrier inst =>
    obtain ⟨allowed, result⟩ := Option.ite_none_right_eq_some.mp taken
    cases result
    obtain ⟨joins, joining⟩ := insertBarrier_joins allowed.1 allowed.2.2
    exact inv.join joins joining
  | regsReady i =>
    obtain ⟨allowed, result⟩ := Option.ite_none_right_eq_some.mp taken
    cases result
    rw [regsReady_eq inv allowed.1 allowed.2.1 allowed.2.2]
    exact regsReady_inv inv allowed.1 allowed.2.2
  | nonSpecInstReady i =>
    obtain ⟨allowed, result⟩ := Option.ite_none_right_eq_some.mp taken
    cases result
    rw [nonSpecInstReady_eq allowed.1 (inv.here i allowed.1)]
    exact nonSpecInstReady_inv inv allowed.1 allowed.2
  | issue i =>
    obtain ⟨member, result⟩ := Option.ite_none_right_eq_some.mp taken
    cases result
    exact issue_inv inv member
  | drop i =>
    obtain ⟨gone, result⟩ := Option.ite_none_right_eq_some.mp taken
    cases result
    exact drop_inv inv gone
  | reschedule i =>
    obtain ⟨allowed, result⟩ := Option.ite_none_right_eq_some.mp taken
    cases result
    exact reschedule_inv inv allowed.1 allowed.2
  | replay =>
    obtain rfl := Option.some.inj taken
    rw [replay_eq inv]
    exact replay_inv inv
  | complete i =>
    obtain ⟨completes, result⟩ := Option.ite_none_right_eq_some.mp taken
    cases result
    rw [complete_eq inv completes.1]
    exact complete_inv inv completes
  | squash squashed_num =>
    obtain rfl := Option.some.inj taken
    obtain ⟨depPred', within, names, ran⟩ := squash_eq inv squashed_num
    rw [ran]
    exact inv.squash within names
  | violation store load =>
    obtain rfl := Option.some.inj taken
    exact violation_inv inv store load

theorem start_inv (clear_period : Nat) : Inv (start Pred clear_period) where
  sorted := List.Pairwise.nil
  same := by simp [start]
  bounded := by simp [start]
  named := by simp [start]
  here := by simp [start]
  replayable := by simp [start]
  once := by simp [start]
  dependents := by simp [start]
  producers := by simp [start]
  ended := by simp [start]
  wakes := by simp [start]
  known := by simp [start]
  ready := by simp [start]
  moved := by simp [start]
  issuable := by simp [start]
  gone := by simp [start]
  readyBounded := by simp [start]
  issuedBounded := by simp [start]
  speculates := by simp [start]
  kind := by simp [start]
  loadBounded := Nat.le_refl 0
  storeBounded := Nat.le_refl 0
  loadBarrier := by simp [start]
  storeBarrier := by simp [start]
  within := LawfulMemDepPred.within_init clear_period
  names n named := absurd named (LawfulMemDepPred.names_init clear_period n)

/-- The invariant, of a state that was reached without a failed assertion. -/
def Invariant : Except MemDepFault (State Pred) → Prop
  | .error _ => False
  | .ok s => Inv s

/-- In every run no assertion fails, and no instruction that is not squashed is lost. -/
theorem no_instruction_lost (clear_period : Nat) (ops : List Op) :
    Machine.Always step Good (.ok (start Pred clear_period)) ops := by
  refine Machine.always_of_invariant (I := Invariant) ?_ ?_ (start_inv clear_period)
  · intro s inv
    cases s with
    | error fault => exact inv
    | ok s => exact Inv.scheduled inv
  · intro s op t inv taken
    cases s with
    | error fault => exact inv.elim
    | ok s =>
      have ends := Inv.step inv taken
      cases t with
      | error fault => exact ends
      | ok t => exact ends

end MemDepRun

end GemDroid
