import GemDroid.Cpu.MemDepRun

/-! Barriers hold back the later accesses,
  as long as no squash takes some of them and leaves others. -/

namespace GemDroid

open Function (update update_of_ne update_self)

namespace MemDepRun

open MemDepUnit Outcome

/-- Loads wait for memory barriers, and stores for write barriers as well. -/
def Waits (barr inst : MemInst) : Prop :=
  -- What is a load is inserted as one, whatever else it is.
  inst.isLoad = true ∧ barr.isMemBarrier = true ∨
    inst.isLoad = false ∧ inst.isStore = true ∧
      (barr.isMemBarrier = true ∨ barr.isWriteBarrier = true)

/-- A barrier for loads. -/
def ForLoads (barr : MemInst) : Prop :=
  barr.isMemBarrier = true

/-- A barrier for stores. -/
def ForStores (barr : MemInst) : Prop :=
  barr.isMemBarrier = true ∨ barr.isWriteBarrier = true

variable {Pred : Type}

/-- A barrier of some kind is neither completed nor squashed. -/
structure Pending (s : State Pred) (kind : MemInst → Prop) (b : Nat) : Prop where
  barrier : s.how b = some .barrier
  held : s.unit.memDepHash b = true
  kind : kind (s.unit.entries b).inst

/-- An access has to wait for an older barrier. -/
structure Blocks (s : State Pred) (b d : Nat) : Prop where
  pending : Pending s (fun barr => Waits barr (s.unit.entries d).inst) b
  older : b < d
  access : s.how d = some .speculative

/-- No access has been moved to the ready list that has to wait for a barrier. -/
def Held : Except MemDepFault (State Pred) → Prop
  | .error _ => False
  | .ok s => ∀ b d, Blocks s b d → d ∉ s.unit.readyInsts ∧ s.issued d = false

/-- A squash takes all pending barriers of a kind or none of them. -/
def TakesAll (s : State Pred) (kind : MemInst → Prop) (squashed_num : Nat) : Prop :=
  ∀ b b', Pending s kind b → Pending s kind b' → b ≤ squashed_num → b' ≤ squashed_num

/-- Barriers complete when they are the oldest instruction. -/
def InOrder : Except MemDepFault (State Pred) → Op → Prop
  | .ok s, .complete i => s.how i = some .barrier → s.unit.instList.head? = some i
  | _, _ => True

/-- No squash takes a barrier and leaves an older one of the same kind. -/
def Unsplit : Except MemDepFault (State Pred) → Op → Prop
  | .ok s, .squash squashed_num =>
    TakesAll s ForLoads squashed_num ∧ TakesAll s ForStores squashed_num
  | _, _ => True

variable [MemDepPred Pred] [LawfulMemDepPred Pred]

/-- The unit waits for the youngest pending barrier, and what has to wait waits for one as young. -/
structure Barriers (s : State Pred) : Prop where
  load : ∀ b, Pending s ForLoads b →
    s.unit.loadBarrier = true ∧ Pending s ForLoads s.unit.loadBarrierSN ∧
      b ≤ s.unit.loadBarrierSN
  store : ∀ b, Pending s ForStores b →
    s.unit.storeBarrier = true ∧ Pending s ForStores s.unit.storeBarrierSN ∧
      b ≤ s.unit.storeBarrierSN
  waits : ∀ b d, Blocks s b d → s.unit.memDepHash d = true →
    ∃ p, s.producer d = some p ∧ s.how p = some .barrier ∧ s.unit.memDepHash p = true ∧ b ≤ p
  held : ∀ b d, Blocks s b d → d ∉ s.unit.readyInsts ∧ s.issued d = false
  positive : ∀ b, s.unit.memDepHash b = true → 0 < b
  known : ∀ d how, s.how d = some how → d ≤ s.newest

variable {s t : State Pred}

theorem Inv.waiting (inv : Inv s) {p d : Nat} (access : s.how d = some .speculative)
    (there : s.unit.memDepHash d = true) (found : s.producer d = some p)
    (held : s.unit.memDepHash p = true) : d ∉ s.unit.readyInsts ∧ s.issued d = false := by
  have unresolved : s.resolved d = false := by
    cases resolved : s.resolved d with
    | false => rfl
    | true =>
      have left := (inv.gone p (resolved_true_iff.mp resolved p found)).1
      rw [held] at left
      cases left
  have unissued : s.issued d = false := by
    cases executed : s.issued d with
    | false => rfl
    | true =>
      have resolved := inv.issuable d there access executed
      rw [unresolved] at resolved
      cases resolved
  have count := inv.moved d there access unissued
  rw [unresolved, Bool.and_false] at count
  exact ⟨List.count_eq_zero.mp count, unissued⟩

/-- What an operation other than an insertion may do to what barriers are about. -/
structure Follows (s t : State Pred) : Prop where
  how : t.how = s.how
  producer : t.producer = s.producer
  newest : t.newest = s.newest
  inst : ∀ i, (t.unit.entries i).inst = (s.unit.entries i).inst
  hash : ∀ i, t.unit.memDepHash i = true → s.unit.memDepHash i = true
  ready : ∀ d ∈ t.unit.readyInsts, s.how d = some .speculative →
    d ∈ s.unit.readyInsts ∨ t.unit.memDepHash d = true
  issued : ∀ d, t.issued d = true → s.issued d = true ∨ d ∈ s.unit.readyInsts

omit [MemDepPred Pred] [LawfulMemDepPred Pred] in
theorem Follows.pending (follows : Follows s t) {kind : MemInst → Prop} {b : Nat}
    (pending : Pending t kind b) : Pending s kind b :=
  ⟨follows.how ▸ pending.barrier, follows.hash b pending.held, follows.inst b ▸ pending.kind⟩

omit [MemDepPred Pred] [LawfulMemDepPred Pred] in
theorem Follows.blocks (follows : Follows s t) {b d : Nat} (blocks : Blocks t b d) :
    Blocks s b d := by
  refine ⟨?_, blocks.older, follows.how ▸ blocks.access⟩
  have pending := follows.pending blocks.pending
  rwa [follows.inst d] at pending

/-- Barriers hold back the accesses as before when the unit still waits for those it should. -/
theorem Barriers.follow (barriers : Barriers s) (inv : Inv t) (follows : Follows s t)
    (load : ∀ b, Pending t ForLoads b → t.unit.loadBarrier = true ∧
      Pending t ForLoads t.unit.loadBarrierSN ∧ b ≤ t.unit.loadBarrierSN)
    (store : ∀ b, Pending t ForStores b → t.unit.storeBarrier = true ∧
      Pending t ForStores t.unit.storeBarrierSN ∧ b ≤ t.unit.storeBarrierSN)
    (stays : ∀ b d p, Blocks t b d → t.unit.memDepHash d = true → s.producer d = some p →
      s.how p = some .barrier → s.unit.memDepHash p = true → b ≤ p →
        t.unit.memDepHash p = true) : Barriers t := by
  have waits (b d : Nat) (blocks : Blocks t b d) (there : t.unit.memDepHash d = true) :
      ∃ p, t.producer d = some p ∧ t.how p = some .barrier ∧ t.unit.memDepHash p = true ∧
        b ≤ p := by
    obtain ⟨p, found, barrier, held, younger⟩ :=
      barriers.waits b d (follows.blocks blocks) (follows.hash d there)
    exact ⟨p, follows.producer ▸ found, follows.how ▸ barrier,
      stays b d p blocks there found barrier held younger, younger⟩
  refine ⟨load, store, waits, fun b d blocks => ?_,
    fun b held => barriers.positive b (follows.hash b held), fun d how inserted => ?_⟩
  · obtain ⟨notReady, notIssued⟩ := barriers.held b d (follows.blocks blocks)
    by_cases there : t.unit.memDepHash d = true
    · obtain ⟨p, found, _, held, _⟩ := waits b d blocks there
      exact inv.waiting blocks.access there found held
    · constructor
      · intro member
        rcases follows.ready d member (follows.how ▸ blocks.access) with before | inside
        · exact notReady before
        · exact there inside
      · cases executed : t.issued d with
        | false => rfl
        | true =>
          rcases follows.issued d executed with before | ready
          · rw [notIssued] at before
            cases before
          · exact absurd ready notReady
  · rw [follows.newest]
    exact barriers.known d how (follows.how ▸ inserted)

theorem Barriers.keep (barriers : Barriers s) (inv : Inv t) (follows : Follows s t)
    (hash : t.unit.memDepHash = s.unit.memDepHash) (same : SameBarriers s.unit t.unit) :
    Barriers t := by
  have back {kind : MemInst → Prop} {b : Nat} (pending : Pending s kind b) : Pending t kind b :=
    ⟨follows.how ▸ pending.barrier, hash ▸ pending.held, (follows.inst b).symm ▸ pending.kind⟩
  refine barriers.follow inv follows ?_ ?_ fun b d p _ _ _ _ held _ => hash ▸ held
  · intro b pending
    obtain ⟨flag, youngest, bound⟩ := barriers.load b (follows.pending pending)
    rw [same.loadBarrier, same.loadBarrierSN]
    exact ⟨flag, back youngest, bound⟩
  · intro b pending
    obtain ⟨flag, youngest, bound⟩ := barriers.store b (follows.pending pending)
    rw [same.storeBarrier, same.storeBarrierSN]
    exact ⟨flag, back youngest, bound⟩

section Join

variable {u' : MemDepUnit Pred} {inst : MemInst} {entry : MemDepEntry} {chosen : Option Nat}
  {ready canIssue : Bool} {how : How}

theorem Joins.pending (joins : Joins s.unit u' inst entry chosen ready) (inv : Inv s)
    (newer : s.newest < inst.seqNum) {kind : MemInst → Prop} {b : Nat}
    (pending : Pending s kind b) :
    Pending (s.joined u' inst.seqNum how chosen canIssue) kind b := by
  have other : b ≠ inst.seqNum := by
    have := inv.bounded b pending.held
    omega
  constructor
  · simpa [State.joined, other] using pending.barrier
  · show u'.memDepHash b = true
    rw [joins.hash, update_of_ne other, pending.held]
  · show kind (u'.entries b).inst
    rw [(joins.kept other).1]
    exact pending.kind

theorem Joins.pending_of_ne (joins : Joins s.unit u' inst entry chosen ready)
    {kind : MemInst → Prop} {b : Nat} (other : b ≠ inst.seqNum)
    (pending : Pending (s.joined u' inst.seqNum how chosen canIssue) kind b) :
    Pending s kind b := by
  constructor
  · simpa [State.joined, other] using pending.barrier
  · have held : u'.memDepHash b = true := pending.held
    rwa [joins.hash, update_of_ne other] at held
  · have kind : kind (u'.entries b).inst := pending.kind
    rwa [(joins.kept other).1] at kind

/-- Barriers hold back an instruction that joins, if it waits for one as young as each of them. -/
theorem Barriers.join (barriers : Barriers s) (inv : Inv s)
    (joins : Joins s.unit u' inst entry chosen ready)
    (joining : Joining s inst entry chosen ready canIssue how)
    (load : ∀ b, Pending (s.joined u' inst.seqNum how chosen canIssue) ForLoads b →
      u'.loadBarrier = true ∧
        Pending (s.joined u' inst.seqNum how chosen canIssue) ForLoads u'.loadBarrierSN ∧
          b ≤ u'.loadBarrierSN)
    (store : ∀ b, Pending (s.joined u' inst.seqNum how chosen canIssue) ForStores b →
      u'.storeBarrier = true ∧
        Pending (s.joined u' inst.seqNum how chosen canIssue) ForStores u'.storeBarrierSN ∧
          b ≤ u'.storeBarrierSN)
    (waits : how = .speculative → ∀ b, Pending s (fun barr => Waits barr inst) b →
      ∃ p, chosen = some p ∧ s.how p = some .barrier ∧ s.unit.memDepHash p = true ∧ b ≤ p) :
    Barriers (s.joined u' inst.seqNum how chosen canIssue) := by
  have old (i : Nat) (bound : i ≤ s.newest) : i ≠ inst.seqNum := by
    have := joining.newer
    omega
  have bounded (d : Nat) (other : d ≠ inst.seqNum)
      (access : (s.joined u' inst.seqNum how chosen canIssue).how d = some .speculative) :
      s.how d = some .speculative := by
    simpa [State.joined, other] using access
  -- What is blocked is the new instruction, or was blocked by the same barrier.
  have blocked (b d : Nat) (blocks : Blocks (s.joined u' inst.seqNum how chosen canIssue) b d) :
      (d = inst.seqNum ∧ how = .speculative ∧ Pending s (fun barr => Waits barr inst) b) ∨
        (d ≠ inst.seqNum ∧ Blocks s b d) := by
    by_cases new : d = inst.seqNum
    · subst new
      have access : how = .speculative := by simpa [State.joined] using blocks.access
      have before := joins.pending_of_ne (Nat.ne_of_lt blocks.older) blocks.pending
      rw [show (s.joined u' inst.seqNum how chosen canIssue).unit.entries inst.seqNum = entry from
        joins.entry, joining.own] at before
      exact .inl ⟨rfl, access, before⟩
    · have access := bounded d new blocks.access
      have bound := barriers.known d _ access
      have other : b ≠ inst.seqNum := by
        have := blocks.older
        have := joining.newer
        omega
      have before := joins.pending_of_ne other blocks.pending
      rw [show ((s.joined u' inst.seqNum how chosen canIssue).unit.entries d).inst =
        (s.unit.entries d).inst from (joins.kept new).1] at before
      exact .inr ⟨new, before, blocks.older, access⟩
  have found (b d : Nat) (blocks : Blocks (s.joined u' inst.seqNum how chosen canIssue) b d)
      (there : u'.memDepHash d = true) :
      ∃ p, (s.joined u' inst.seqNum how chosen canIssue).producer d = some p ∧
        (s.joined u' inst.seqNum how chosen canIssue).how p = some .barrier ∧
          u'.memDepHash p = true ∧ b ≤ p := by
    have kept (p : Nat) (barrier : s.how p = some .barrier) (held : s.unit.memDepHash p = true) :
        (s.joined u' inst.seqNum how chosen canIssue).how p = some .barrier ∧
          u'.memDepHash p = true := by
      have other := old p (inv.bounded p held)
      refine ⟨by simpa [State.joined, other] using barrier, ?_⟩
      rw [joins.hash, update_of_ne other, held]
    rcases blocked b d blocks with ⟨rfl, access, pending⟩ | ⟨other, before⟩
    · obtain ⟨p, chose, barrier, held, younger⟩ := waits access b pending
      exact ⟨p, by simp [State.joined, chose], (kept p barrier held).1, (kept p barrier held).2,
        younger⟩
    · have was : s.unit.memDepHash d = true := by
        rwa [joins.hash, update_of_ne other] at there
      obtain ⟨p, chose, barrier, held, younger⟩ := barriers.waits b d before was
      exact ⟨p, by simpa [State.joined, other] using chose, (kept p barrier held).1,
        (kept p barrier held).2, younger⟩
  refine ⟨load, store, found, fun b d blocks => ?_, fun b held => ?_, fun d how inserted => ?_⟩
  · by_cases there : u'.memDepHash d = true
    · obtain ⟨p, chose, _, held, _⟩ := found b d blocks there
      exact (inv.join joins joining).waiting blocks.access there chose held
    · rcases blocked b d blocks with ⟨rfl, _, _⟩ | ⟨other, before⟩
      · exact absurd (by simp [joins.hash]) there
      · obtain ⟨notReady, notIssued⟩ := barriers.held b d before
        refine ⟨fun member => notReady ?_, notIssued⟩
        have inside : d ∈ u'.readyInsts := member
        rw [joins.ready] at inside
        split at inside
        · rcases List.mem_append.mp inside with was | new
          · exact was
          · exact absurd (List.mem_singleton.mp new) other
        · exact inside
  · rcases joins.cases held with rfl | ⟨_, before⟩
    · exact Nat.lt_of_le_of_lt (Nat.zero_le _) joining.newer
    · exact barriers.positive b before
  · show d ≤ inst.seqNum
    by_cases new : d = inst.seqNum
    · exact Nat.le_of_eq new
    · have before : s.how d = some how := by simpa [State.joined, new] using inserted
      exact Nat.le_of_lt (Nat.lt_of_le_of_lt (barriers.known d how before) joining.newer)

theorem Barriers.join_same (barriers : Barriers s) (inv : Inv s)
    (joins : Joins s.unit u' inst entry chosen ready)
    (joining : Joining s inst entry chosen ready canIssue how) (other : how ≠ .barrier)
    (same : SameBarriers s.unit u')
    (waits : how = .speculative → ∀ b, Pending s (fun barr => Waits barr inst) b →
      ∃ p, chosen = some p ∧ s.how p = some .barrier ∧ s.unit.memDepHash p = true ∧ b ≤ p) :
    Barriers (s.joined u' inst.seqNum how chosen canIssue) := by
  have before {kind : MemInst → Prop} {b : Nat}
      (pending : Pending (s.joined u' inst.seqNum how chosen canIssue) kind b) :
      Pending s kind b := by
    refine joins.pending_of_ne ?_ pending
    rintro rfl
    exact other (by simpa [State.joined] using pending.barrier)
  refine barriers.join inv joins joining ?_ ?_ waits
  · intro b pending
    obtain ⟨flag, youngest, bound⟩ := barriers.load b (before pending)
    rw [same.loadBarrier, same.loadBarrierSN]
    exact ⟨flag, joins.pending inv joining.newer youngest, bound⟩
  · intro b pending
    obtain ⟨flag, youngest, bound⟩ := barriers.store b (before pending)
    rw [same.storeBarrier, same.storeBarrierSN]
    exact ⟨flag, joins.pending inv joining.newer youngest, bound⟩

theorem Barriers.producerOf (barriers : Barriers s) (inv : Inv s) (newer : s.newest < inst.seqNum)
    {b : Nat} (pending : Pending s (fun barr => Waits barr inst) b) :
    ∃ p, (s.unit.addEntry inst).producerOf inst = some p ∧ s.how p = some .barrier ∧
      s.unit.memDepHash p = true ∧ b ≤ p := by
  have found {kind : MemInst → Prop} {p : Nat} (youngest : Pending s kind p)
      (asked : (s.unit.addEntry inst).producingStore inst = p) :
      (s.unit.addEntry inst).producerOf inst = some p := by
    have positive := barriers.positive p youngest.held
    have other : p ≠ inst.seqNum := by
      have := inv.bounded p youngest.held
      omega
    have there : (s.unit.addEntry inst).memDepHash p = true := by
      simp [MemDepUnit.addEntry, other, youngest.held]
    unfold MemDepUnit.producerOf
    rw [asked]
    exact if_pos ⟨by omega, there⟩
  rcases pending.kind with ⟨load, mem⟩ | ⟨notLoad, store, either⟩
  · obtain ⟨flag, youngest, bound⟩ := barriers.load b ⟨pending.barrier, pending.held, mem⟩
    refine ⟨_, found youngest ?_, youngest.barrier, youngest.held, bound⟩
    simp [MemDepUnit.producingStore, MemDepUnit.addEntry, load, flag]
  · obtain ⟨flag, youngest, bound⟩ := barriers.store b ⟨pending.barrier, pending.held, either⟩
    refine ⟨_, found youngest ?_, youngest.barrier, youngest.held, bound⟩
    simp [MemDepUnit.producingStore, MemDepUnit.addEntry, notLoad, store, flag]

/-- The unit waits for a barrier that joins, which is the youngest of its kinds. -/
theorem Barriers.insertBarrier (barriers : Barriers s) (inv : Inv s)
    (newer : s.newest < inst.seqNum)
    (barrier : inst.isMemBarrier = true ∨ inst.isWriteBarrier = true) :
    Barriers (s.joined (s.unit.insertBarrier inst) inst.seqNum .barrier none false) := by
  obtain ⟨joins, joining⟩ := insertBarrier_joins newer barrier
  have fresh {kind : MemInst → Prop} (wanted : kind inst) : Pending
      (s.joined (s.unit.insertBarrier inst) inst.seqNum .barrier none false) kind inst.seqNum := by
    refine ⟨by simp [State.joined], ?_, ?_⟩
    · exact (congrFun joins.hash inst.seqNum).trans (update_self ..)
    · show kind ((s.unit.insertBarrier inst).entries inst.seqNum).inst
      rw [joins.entry]
      exact wanted
  have bound {kind : MemInst → Prop} {b : Nat} (pending : Pending
      (s.joined (s.unit.insertBarrier inst) inst.seqNum .barrier none false) kind b) :
      b ≤ inst.seqNum :=
    (inv.join joins joining).bounded b pending.held
  refine barriers.join inv joins joining ?_ ?_ (by simp)
  · intro b pending
    by_cases mem : inst.isMemBarrier = true
    · have flags : (s.unit.insertBarrier inst).loadBarrier = true ∧
          (s.unit.insertBarrier inst).loadBarrierSN = inst.seqNum := by
        simp [MemDepUnit.insertBarrier, MemDepUnit.addBarrier, MemDepUnit.addEntry, mem]
      rw [flags.1, flags.2]
      exact ⟨rfl, fresh mem, bound pending⟩
    · have flags : (s.unit.insertBarrier inst).loadBarrier = s.unit.loadBarrier ∧
          (s.unit.insertBarrier inst).loadBarrierSN = s.unit.loadBarrierSN := by
        simp [MemDepUnit.insertBarrier, MemDepUnit.addBarrier, MemDepUnit.addEntry, mem,
          barrier.resolve_left mem]
      have other : b ≠ inst.seqNum := by
        rintro rfl
        have kind : ForLoads ((s.unit.insertBarrier inst).entries inst.seqNum).inst := pending.kind
        rw [joins.entry] at kind
        exact mem kind
      obtain ⟨flag, youngest, bound⟩ := barriers.load b (joins.pending_of_ne other pending)
      rw [flags.1, flags.2]
      exact ⟨flag, joins.pending inv newer youngest, bound⟩
  · intro b pending
    have flags : (s.unit.insertBarrier inst).storeBarrier = true ∧
        (s.unit.insertBarrier inst).storeBarrierSN = inst.seqNum := by
      unfold MemDepUnit.insertBarrier MemDepUnit.addBarrier MemDepUnit.addEntry
      split
      · exact ⟨rfl, rfl⟩
      · rename_i notMem
        rw [if_pos (barrier.resolve_left notMem)]
        exact ⟨rfl, rfl⟩
    rw [flags.1, flags.2]
    exact ⟨rfl, fresh barrier, bound pending⟩

end Join

section Leave

variable {i : Nat}

omit [MemDepPred Pred] [LawfulMemDepPred Pred] in
theorem afterComplete_follows (loadBarrier storeBarrier : Bool)
    (dependents : ∀ d ∈ (s.unit.entries i).dependInsts, s.unit.runs d = true →
      d ≠ i ∧ s.unit.memDepHash d = true) :
    Follows s { s with
      unit := afterComplete s.unit i loadBarrier storeBarrier
      done := update s.done i true } where
  how := rfl
  producer := rfl
  newest := rfl
  inst j := by
    show ((afterComplete s.unit i loadBarrier storeBarrier).entries j).inst = _
    by_cases same : j = i
    · subst same
      simpa [afterComplete, afterWake, MemDepUnit.modify] using (woken_links s.unit _ j).1.inst
    · rw [afterComplete_entries same]
      exact (woken_links s.unit _ j).1.inst
  hash j held := by
    have held : update s.unit.memDepHash i false j = true := held
    by_cases same : j = i
    · simp [same] at held
    · simpa [same] using held
  ready d member _ := by
    rcases List.mem_append.mp member with before | new
    · exact .inl before
    · obtain ⟨dependent, runs⟩ := List.mem_filter.mp new
      obtain ⟨other, there⟩ := dependents d dependent runs
      right
      show update s.unit.memDepHash i false d = true
      rw [update_of_ne other, there]
  issued d executed := .inl executed

theorem oldest_of_head (inv : Inv s) (head : s.unit.instList.head? = some i) {b : Nat}
    (held : s.unit.memDepHash b = true) : i ≤ b := by
  have member := (inv.same b).mp held
  have sorted := inv.sorted
  cases list : s.unit.instList with
  | nil =>
    rw [list] at member
    cases member
  | cons first rest =>
    rw [list] at head member sorted
    obtain rfl := Option.some.inj head
    rcases List.mem_cons.mp member with same | later
    · exact Nat.le_of_eq same.symm
    · exact Nat.le_of_lt (List.rel_of_pairwise_cons sorted later)

/-- Barriers that complete in order leave the unit waiting for the others. -/
theorem Barriers.complete (barriers : Barriers s) (inv : Inv s) (completes : s.completes i)
    (inOrder : s.how i = some .barrier → s.unit.instList.head? = some i) :
    Barriers { s with
      unit := afterComplete s.unit i (loadWaits s.unit i) (storeWaits s.unit i)
      done := update s.done i true } := by
  have follows := afterComplete_follows (loadWaits s.unit i) (storeWaits s.unit i)
    fun d member runs => by
      have dependent := inv.dependents i completes.1 d member
      refine ⟨Nat.ne_of_gt dependent.older, dependent.held.resolve_right fun squashed => ?_⟩
      simp [MemDepUnit.runs, squashed] at runs
  -- What is younger than another pending barrier is not the one that completes.
  have later (b p : Nat) (barrier : s.how p = some .barrier) (held : s.unit.memDepHash b = true)
      (other : b ≠ i) (younger : b ≤ p) : p ≠ i := by
    rintro rfl
    have := oldest_of_head inv (inOrder barrier) held
    omega
  have others {b : Nat} (held : update s.unit.memDepHash i false b = true) : b ≠ i := by
    rintro rfl
    simp at held
  have stays {kind : MemInst → Prop} {p : Nat} (pending : Pending s kind p) (other : p ≠ i) :
      Pending { s with
        unit := afterComplete s.unit i (loadWaits s.unit i) (storeWaits s.unit i)
        done := update s.done i true } kind p :=
    ⟨pending.barrier, (update_of_ne other ..).trans pending.held,
      (follows.inst p).symm ▸ pending.kind⟩
  refine barriers.follow (complete_inv inv completes) follows ?_ ?_ ?_
  · intro b pending
    have before := follows.pending pending
    obtain ⟨flag, youngest, bound⟩ := barriers.load b before
    have other := later b _ youngest.barrier before.held (others pending.held) bound
    refine ⟨?_, stays youngest other, bound⟩
    show loadWaits s.unit i = true
    have named := inv.named i completes.1
    unfold loadWaits MemDepUnit.forgetBarrier
    rw [named]
    split
    · exact flag
    · split
      · simp [flag, other]
      · split <;> exact flag
  · intro b pending
    have before := follows.pending pending
    obtain ⟨flag, youngest, bound⟩ := barriers.store b before
    have other := later b _ youngest.barrier before.held (others pending.held) bound
    refine ⟨?_, stays youngest other, bound⟩
    show storeWaits s.unit i = true
    have named := inv.named i completes.1
    unfold storeWaits MemDepUnit.forgetBarrier
    rw [named]
    split
    · exact flag
    · split
      · simp [flag, other]
      · split
        · simp [flag, other]
        · exact flag
  · intro b d p blocks _ _ barrier held younger
    have other := later b p barrier (follows.pending blocks.pending).held
      (others blocks.pending.held) younger
    exact (update_of_ne other ..).trans held

variable {squashed_num : Nat} {depPred' : Pred}

omit [MemDepPred Pred] [LawfulMemDepPred Pred] in
theorem survivors_follows :
    Follows s { s with unit := { survivors s.unit squashed_num with depPred := depPred' } } where
  how := rfl
  producer := rfl
  newest := rfl
  inst j := by
    show (if s.unit.memDepHash j = true ∧ squashed_num < j then
      { s.unit.entries j with squashed := true } else s.unit.entries j).inst = _
    split <;> rfl
  hash j held := (Bool.and_eq_true_iff.mp held).1
  ready d member _ := .inl member
  issued d executed := .inl executed

/-- A squash that takes all barriers of a kind or none leaves the unit waiting for the others. -/
theorem Barriers.squash (barriers : Barriers s)
    (inv : Inv { s with unit := { survivors s.unit squashed_num with depPred := depPred' } })
    (before : Inv s) (loads : TakesAll s ForLoads squashed_num)
    (stores : TakesAll s ForStores squashed_num) :
    Barriers { s with unit := { survivors s.unit squashed_num with depPred := depPred' } } := by
  have follows : Follows s
      { s with unit := { survivors s.unit squashed_num with depPred := depPred' } } :=
    survivors_follows
  have kept {p : Nat} (held : s.unit.memDepHash p = true) (older : p ≤ squashed_num) :
      (survivors s.unit squashed_num).memDepHash p = true := by
    simp [survivors, MemDepUnit.dropReplays, MemDepUnit.withoutYounger, held, older]
  have older {p : Nat} (held : (survivors s.unit squashed_num).memDepHash p = true) :
      p ≤ squashed_num :=
    of_decide_eq_true (Bool.and_eq_true_iff.mp held).2
  have stays {kind : MemInst → Prop} {p : Nat} (pending : Pending s kind p)
      (bound : p ≤ squashed_num) : Pending
        { s with unit := { survivors s.unit squashed_num with depPred := depPred' } } kind p :=
    ⟨pending.barrier, kept pending.held bound, (follows.inst p).symm ▸ pending.kind⟩
  refine barriers.follow inv follows ?_ ?_ ?_
  · intro b pending
    obtain ⟨flag, youngest, bound⟩ := barriers.load b (follows.pending pending)
    have remains := loads b _ (follows.pending pending) youngest (older pending.held)
    refine ⟨?_, stays youngest remains, bound⟩
    show (s.unit.loadBarrier && !(s.unit.memDepHash s.unit.loadBarrierSN &&
      decide (squashed_num < s.unit.loadBarrierSN))) = true
    simp [flag, remains]
  · intro b pending
    obtain ⟨flag, youngest, bound⟩ := barriers.store b (follows.pending pending)
    have remains := stores b _ (follows.pending pending) youngest (older pending.held)
    refine ⟨?_, stays youngest remains, bound⟩
    show (s.unit.storeBarrier && !(s.unit.memDepHash s.unit.storeBarrierSN &&
      decide (squashed_num < s.unit.storeBarrierSN))) = true
    simp [flag, remains]
  · intro b d p blocks there found barrier held younger
    have access := (follows.blocks blocks).access
    have known := follows.hash d there
    have waiting : s.done p = false := by
      cases ended : s.done p with
      | false => rfl
      | true =>
        have left := (before.gone p ended).1
        rw [held] at left
        cases left
    have member := (before.producers d p known access found waiting).2
    have less := (before.dependents p held d member).older
    exact kept held (by have := older there; omega)

end Leave

/-- Every operation that meets the conditions keeps what barriers are about. -/
theorem Barriers.step (barriers : Barriers s) (inv : Inv s) {op : Op}
    {t : Except MemDepFault (State Pred)} (inOrder : InOrder (.ok s) op)
    (unsplit : Unsplit (.ok s) op) (taken : MemDepRun.step (.ok s) op = some t) :
    Ends (fun _ => False) t Barriers := by
  have ends := inv.step taken
  -- Only what joins, completes or is squashed matters to barriers; all else keeps their part.
  cases op with
  | insert inst canIssue =>
    obtain ⟨allowed, result⟩ := Option.ite_none_right_eq_some.mp taken
    cases result
    obtain ⟨u', left, entry, ready, ran, same, joins, joining⟩ :=
      insert_joins inv allowed.1 allowed.2 canIssue
    rw [insert, ran]
    exact barriers.join_same inv joins joining (by simp) same
      fun _ b pending => barriers.producerOf inv allowed.1 pending
  | insertNonSpec inst =>
    obtain ⟨allowed, result⟩ := Option.ite_none_right_eq_some.mp taken
    cases result
    obtain ⟨u', ran, same, joins, joining⟩ := insertNonSpec_joins allowed.1 allowed.2
    rw [ran]
    exact barriers.join_same inv joins joining (by simp) same (by simp)
  | insertBarrier inst =>
    obtain ⟨allowed, result⟩ := Option.ite_none_right_eq_some.mp taken
    cases result
    exact barriers.insertBarrier inv allowed.1 allowed.2.2
  | regsReady i =>
    obtain ⟨allowed, result⟩ := Option.ite_none_right_eq_some.mp taken
    cases result
    rw [regsReady_eq inv allowed.1 allowed.2.1 allowed.2.2] at ends ⊢
    refine barriers.keep ends ⟨rfl, rfl, rfl, fun j => ?_, fun _ held => held, ?_,
      fun _ executed => .inl executed⟩ rfl ⟨rfl, rfl, rfl, rfl⟩
    · show (update s.unit.entries i _ j).inst = _
      by_cases same : j = i
      · simp [same]
      · simp [same]
    · intro d member _
      rcases List.mem_append.mp member with before | new
      · exact .inl before
      · split at new
        · exact .inr (List.mem_singleton.mp new ▸ allowed.1)
        · cases new
  | nonSpecInstReady i =>
    obtain ⟨allowed, result⟩ := Option.ite_none_right_eq_some.mp taken
    cases result
    rw [nonSpecInstReady_eq allowed.1 (inv.here i allowed.1)] at ends ⊢
    refine barriers.keep ends ⟨rfl, rfl, rfl, fun _ => rfl, fun _ held => held, ?_,
      fun _ executed => .inl executed⟩ rfl ⟨rfl, rfl, rfl, rfl⟩
    intro d member _
    rcases List.mem_append.mp member with before | new
    · exact .inl before
    · exact .inr (List.mem_singleton.mp new ▸ allowed.1)
  | issue i =>
    obtain ⟨member, result⟩ := Option.ite_none_right_eq_some.mp taken
    cases result
    refine barriers.keep ends ⟨rfl, rfl, rfl, fun _ => rfl, fun _ held => held,
      fun d left _ => .inl (List.mem_of_mem_erase left), fun d executed => ?_⟩ rfl
      ⟨rfl, rfl, rfl, rfl⟩
    by_cases same : d = i
    · exact .inr (same ▸ member)
    · exact .inl (by simpa [same] using executed)
  | drop i =>
    obtain ⟨gone, result⟩ := Option.ite_none_right_eq_some.mp taken
    cases result
    exact barriers.keep ends ⟨rfl, rfl, rfl, fun _ => rfl, fun _ held => held,
      fun d left _ => .inl (List.mem_of_mem_erase left), fun _ executed => .inl executed⟩ rfl
      ⟨rfl, rfl, rfl, rfl⟩
  | reschedule i =>
    obtain ⟨allowed, result⟩ := Option.ite_none_right_eq_some.mp taken
    cases result
    exact barriers.keep ends ⟨rfl, rfl, rfl, fun _ => rfl, fun _ held => held,
      fun d member _ => .inl member, fun _ executed => .inl executed⟩ rfl ⟨rfl, rfl, rfl, rfl⟩
  | replay =>
    obtain rfl := Option.some.inj taken
    rw [replay_eq inv] at ends ⊢
    refine barriers.keep ends ⟨rfl, rfl, rfl, fun _ => rfl, fun _ held => held, ?_,
      fun _ executed => .inl executed⟩ rfl ⟨rfl, rfl, rfl, rfl⟩
    intro d member _
    exact (List.mem_append.mp member).imp_right fun new => (inv.replayable d new).1
  | complete i =>
    obtain ⟨completes, result⟩ := Option.ite_none_right_eq_some.mp taken
    cases result
    rw [complete_eq inv completes.1]
    exact barriers.complete inv completes inOrder
  | squash squashed_num =>
    obtain rfl := Option.some.inj taken
    obtain ⟨depPred', within, names, ran⟩ := squash_eq inv squashed_num
    rw [ran]
    exact barriers.squash (inv.squash within names) inv unsplit.1 unsplit.2
  | violation store load =>
    obtain rfl := Option.some.inj taken
    exact barriers.keep ends ⟨rfl, rfl, rfl, fun _ => rfl, fun _ held => held,
      fun d member _ => .inl member, fun _ executed => .inl executed⟩ rfl ⟨rfl, rfl, rfl, rfl⟩

omit [LawfulMemDepPred Pred] in
theorem start_barriers (clear_period : Nat) : Barriers (start Pred clear_period) where
  load b pending := absurd pending.held (by simp [start])
  store b pending := absurd pending.held (by simp [start])
  waits b d blocks := absurd blocks.access (by simp [start])
  held b d blocks := absurd blocks.access (by simp [start])
  positive := by simp [start]
  known := by simp [start]

/-- What holds of a state that was reached without a failed assertion. -/
def Kept : Except MemDepFault (State Pred) → Prop
  | .error _ => False
  | .ok s => Inv s ∧ Barriers s

/--
In every run in which barriers complete in order and no squash takes some of the pending barriers
of a kind and leaves others, no access is moved to the ready list before the barriers it has to
wait for have completed.
-/
theorem barriers_hold (clear_period : Nat) (ops : List Op)
    (inOrder : Machine.Meets step InOrder (.ok (start Pred clear_period)) ops)
    (unsplit : Machine.Meets step Unsplit (.ok (start Pred clear_period)) ops) :
    Machine.Always step Held (.ok (start Pred clear_period)) ops := by
  refine Machine.always_of_meets (I := Kept) ?_ ?_
    ⟨start_inv clear_period, start_barriers clear_period⟩ (inOrder.and unsplit)
  · intro s kept
    cases s with
    | error fault => exact kept
    | ok s => exact kept.2.held
  · intro s op t kept allowed taken
    cases s with
    | error fault => exact kept.elim
    | ok s =>
      have inv := kept.1.step taken
      have barriers := kept.2.step kept.1 allowed.1 allowed.2 taken
      cases t with
      | error fault => exact inv
      | ok t => exact ⟨inv, barriers⟩

section Split

/-- A memory barrier. -/
def memBarrier (seqNum : Nat) : MemInst :=
  { seqNum, isMemBarrier := true }

/-- A load. -/
def load (seqNum : Nat) : MemInst :=
  { seqNum, isLoad := true }

/-- A squash between two memory barriers, after which a load is inserted. -/
def splitOps : List Op :=
  [.insertBarrier (memBarrier 1), .insertBarrier (memBarrier 2), .squash 1, .insert (load 3) true]

/-- The load that follows the squash is ready although the first barrier is still pending. -/
theorem load_passes_barrier : ¬∀ (clear_period : Nat) (ops : List Op),
    Machine.Meets step InOrder (.ok (start (StoreSet 1 1) clear_period)) ops →
      Machine.Always step Held (.ok (start (StoreSet 1 1) clear_period)) ops := by
  intro claim
  have inOrder : Machine.Meets step InOrder (.ok (start (StoreSet 1 1) 0)) splitOps :=
    Machine.meets_cons rfl trivial (Machine.meets_cons rfl trivial
      (Machine.meets_cons rfl trivial (Machine.meets_cons rfl trivial trivial)))
  have always := claim 0 splitOps inOrder
  have ran : Machine.run step (.ok (start (StoreSet 1 1) 0)) splitOps = some _ := rfl
  have held := (always.at_end ran) 1 3 ⟨⟨rfl, rfl, .inl ⟨rfl, rfl⟩⟩, by decide, rfl⟩
  exact held.1 (by decide)

/-- A run without a squash, in which the load waits until the barrier has completed. -/
theorem barriers_hold_unsquashed : Machine.Always step Held (.ok (start (StoreSet 1 1) 0))
    [.insertBarrier (memBarrier 1), .insert (load 2) true, .complete 1] :=
  barriers_hold 0 _
    (Machine.meets_cons rfl trivial (Machine.meets_cons rfl trivial
      (Machine.meets_cons rfl (fun _ => rfl) trivial)))
    (Machine.meets_cons rfl trivial (Machine.meets_cons rfl trivial
      (Machine.meets_cons rfl trivial trivial)))

end Split

end MemDepRun

end GemDroid
