import GemDroid.Lib.Run
import GemDroid.Ruby.CacheSlots
import GemDroid.Ruby.Sequencer

/-! A store-conditional succeeds exactly when its block has stayed since the load-linked. -/

namespace GemDroid

open Function (update update_apply update_eq_self update_of_ne update_self)

/-- A load, a store, a load-linked or a store-conditional. -/
def SeqPacket.isPlain (pkt : SeqPacket) : Bool :=
  pkt.isLLSC || (!pkt.isLocked && !pkt.storeCheck && (pkt.isRead || pkt.isWrite))

namespace SequencerRun

open CacheMemory

/-- A request that was completed, with the blocks of the cache before and after. -/
structure Completion where
  line : Nat
  offset : Nat
  request : SequencerRequest
  answer : SeqPacket
  /-- The reservation of the last load-linked was still there. -/
  kept : Bool
  before : Nat → Option DataBlock
  after : Nat → Option DataBlock

/-- The request was a store-conditional that the processor is told has failed. -/
def Completion.failed (c : Completion) : Bool :=
  c.request.type == .storeConditional && c.answer.extraData != 1

/-- What the request should make of its block. -/
def Completion.wrote (c : Completion) (block : DataBlock) : DataBlock :=
  if c.failed then block
  else c.request.pkt.data.elim block fun bytes => block.setData bytes c.offset c.request.pkt.size

/--
A store-conditional succeeded exactly when the reservation was there; and a store or a
store-conditional changed its own bytes and no others, or none if it failed.
-/
structure Completion.Sound (c : Completion) : Prop where
  succeeds : c.request.type = .storeConditional → (c.answer.extraData = 1 ↔ c.kept = true)
  writes : c.request.type = .st ∨ c.request.type = .storeConditional →
    ∀ b, c.after b = if b = c.line then (c.before b).map c.wrote else c.before b

/-- The sequencer, its reservations, and what it has completed. -/
structure State where
  seq : Sequencer
  /-- The block has stayed, valid and not written, since its last load-linked. -/
  kept : Nat → Bool := fun _ => false
  completed : List Completion := []

/-- What the processor and the controller do. -/
inductive Op where
  | makeRequest (pkt : SeqPacket)
  | writeCallback (address : Nat)
  | readCallback (address : Nat)
  | invalidateSC (address : Nat)
  | changePermission (address : Nat) (new_perm : AccessPermission)
  | writeDataToCache (address : Nat) (data : DataBlock)
  | allocate (address : Nat) (data : DataBlock)
  | deallocate (address : Nat)

/-- The data of the blocks. -/
def blocks (seq : Sequencer) (a : Nat) : Option DataBlock :=
  (seq.dataCache.lookup a).map (·.dataBlk)

/-- The state after a request was completed. -/
def State.complete (s : State) (address : Nat) (request : SequencerRequest)
    (result : SeqPacket × Sequencer) (kept : Bool) : State where
  seq := result.2
  kept := update s.kept address kept
  completed := s.completed ++ [{
    line := address
    offset := s.seq.getOffset request.pkt.addr
    request
    answer := result.1
    kept := s.kept address
    before := blocks s.seq
    after := blocks result.2 }]

/-- The data that a system which is warming up needs is there. -/
def State.canHit (s : State) (request : SequencerRequest) : Bool :=
  !s.seq.warmup_enabled || request.pkt.data.isSome

/-- A step, unless it would fail an assertion. -/
def step (s : State) : Op → Option State
  | .makeRequest pkt =>
    if pkt.isPlain = true ∧
        s.seq.getOffset pkt.addr + pkt.size ≤ 2 ^ s.seq.blockSizeBits then
      (s.seq.makeRequest pkt).map fun made => { s with seq := made.2 }
    else none
  | .writeCallback address =>
    (s.seq.writeRequestTable address).bind fun request =>
      (s.seq.dataCache.lookup address).bind fun entry =>
        if s.canHit request then
          some (s.complete address request
            (s.seq.writeCallback address request entry.dataBlk)
            (request.type == .loadLinked && !entry.permission.lost))
        else none
  | .readCallback address =>
    (s.seq.readRequestTable address).bind fun request =>
      (s.seq.dataCache.lookup address).bind fun entry =>
        if s.canHit request then
          some (s.complete address request
            (s.seq.readCallback address request entry.dataBlk) (s.kept address))
        else none
  | .invalidateSC address =>
    if s.seq.dataCache.isTagPresent address then
      some { s with seq := s.seq.invalidateSC address }
    else none
  | .changePermission address new_perm =>
    if s.seq.dataCache.isTagPresent address then
      some { s with
        seq := { s.seq with
          dataCache := s.seq.dataCache.modify address (CacheEntry.changePermission new_perm) }
        kept := update s.kept address (s.kept address && !new_perm.lost) }
    else none
  | .writeDataToCache address data =>
    if s.seq.dataCache.isTagPresent address then
      some { s with seq := s.seq.storeBlock address data }
    else none
  | .allocate address data =>
    if s.seq.lineAddress address = address ∧ s.seq.dataCache.isTagPresent address = false ∧
        s.seq.dataCache.cacheAvail address = true then
      (s.seq.dataCache.allocate address data).map fun dataCache => { s with
        seq := { s.seq with dataCache }
        kept := update s.kept address false }
    else none
  | .deallocate address =>
    if s.seq.dataCache.isTagPresent address then
      some { s with
        seq := { s.seq with dataCache := s.seq.dataCache.deallocate address }
        kept := update s.kept address false }
    else none

/-- Everything that was completed is as it should be. -/
def Good (s : State) : Prop :=
  ∀ c ∈ s.completed, c.Sound

/-- A store-conditional that fails has no bytes to write that are not there already. -/
def Harmless (s : State) (address : Nat) (request : SequencerRequest) : Prop :=
  request.type = .storeConditional → s.seq.dataCache.isLocked address s.seq.version = false →
    ∀ bytes, request.pkt.data = some bytes → ∀ block, blocks s.seq address = some block →
      ∀ k, k < request.pkt.size → bytes k = block (s.seq.getOffset request.pkt.addr + k)

/--
The steps that do nothing wrong: no store-conditional that fails brings other bytes, a
load-linked is completed with permission, a controller tells of a lost block only when the lock is
gone, and no slot is taken that the index still names for another block.
-/
def Allowed (s : State) : Op → Prop
  | .writeCallback address => ∀ request, s.seq.writeRequestTable address = some request →
    Harmless s address request ∧ (request.type = .loadLinked →
      ∀ entry, s.seq.dataCache.lookup address = some entry → entry.permission.lost = false)
  | .invalidateSC address => ∀ request, s.seq.writeRequestTable address = some request →
    request.type = .storeConditional →
      s.seq.dataCache.isLocked address s.seq.version = false
  | .allocate address _ => s.seq.dataCache.Clear address
  | _ => True

/-- The lock of a block is the reservation. -/
structure Inv (s : State) : Prop where
  linked : s.seq.dataCache.Linked
  lock : ∀ a entry, s.seq.dataCache.lookup a = some entry →
    (entry.locked = some s.seq.version ↔ s.kept a = true)
  absent : ∀ a, s.seq.dataCache.lookup a = none → s.kept a = false
  reads : ∀ a request, s.seq.readRequestTable a = some request → request.type.isWriteType = false
  good : Good s

variable {s t : State} {a : Nat} {entry : CacheEntry} {request : SequencerRequest}

theorem present_iff (inv : Inv s) :
    s.seq.dataCache.isTagPresent a = true ↔ ∃ entry, s.seq.dataCache.lookup a = some entry := by
  rw [isTagPresent_eq inv.linked, Option.isSome_iff_exists]

/-- The invariant survives a change of one block that keeps its lock and its reservation alike. -/
theorem Inv.change (inv : Inv s) {seq : Sequencer} {kept : Bool} {completed : List Completion}
    (changed : Changed s.seq.dataCache seq.dataCache a entry)
      (version : seq.version = s.seq.version)
    (lock : entry.permission ≠ .notPresent → (entry.locked = some s.seq.version ↔ kept = true))
    (gone : entry.permission = .notPresent → kept = false)
    (reads : ∀ b request, seq.readRequestTable b = some request →
      s.seq.readRequestTable b = some request)
    (good : ∀ c ∈ completed, c.Sound) :
    Inv { seq, kept := update s.kept a kept, completed } where
  linked := changed.linked
  lock b entry' found := by
    show _ ↔ update s.kept a kept b = true
    have found : seq.dataCache.lookup b = some entry' := found
    rw [version]
    by_cases same : b = a
    · rw [same, changed.self] at found
      rw [same, update_self]
      split at found
      · cases found
      · rename_i present
        obtain rfl := Option.some.inj found
        exact lock present
    · rw [changed.other b same] at found
      rw [update_of_ne same]
      exact inv.lock b entry' found
  absent b missing := by
    show update s.kept a kept b = false
    have missing : seq.dataCache.lookup b = none := missing
    by_cases same : b = a
    · rw [same, changed.self] at missing
      rw [same, update_self]
      split at missing
      · rename_i left
        exact gone left
      · cases missing
    · rw [changed.other b same] at missing
      rw [update_of_ne same]
      exact inv.absent b missing
  reads b request outstanding := inv.reads b request (reads b request outstanding)
  good := good

/-- What the handling of the lock does to the cache. -/
structure Handled (seq : Sequencer) (a : Nat) (request : SequencerRequest) (entry : CacheEntry)
    (result : Bool × SequencerRequest × Sequencer) : Prop where
  cache : ∃ locked, Changed seq.dataCache result.2.2.dataCache a { entry with locked } ∧
    (locked = some seq.version ↔ request.type = .loadLinked)
  rest : result.2.2 = { seq with dataCache := result.2.2.dataCache }
  type : result.2.1.type = request.type
  pkt : ∃ extraData, result.2.1.pkt = { request.pkt with extraData }
  success : request.type = .storeConditional →
    (result.2.1.pkt.extraData = 1 ↔ entry.locked = some seq.version)

theorem handleLlsc_handled {seq : Sequencer} (linked : seq.dataCache.Linked)
    (found : seq.dataCache.lookup a = some entry) :
    Handled seq a request entry (seq.handleLlsc a request) := by
  have isLocked : seq.dataCache.isLocked a seq.version =
      decide (entry.locked = some seq.version) := by
    simp [CacheMemory.isLocked, found]
  have cleared : Changed seq.dataCache (seq.dataCache.clearLocked a) a
      { entry with locked := none } := changed_modify linked found rfl
  unfold Sequencer.handleLlsc
  by_cases conditional : request.type = .storeConditional
  · rw [if_pos conditional]
    refine ⟨⟨none, cleared, by simp [conditional]⟩, rfl, rfl, ⟨_, rfl⟩, fun _ => ?_⟩
    show (if seq.dataCache.isLocked a seq.version = true then 1 else 0) = 1 ↔ _
    rw [isLocked]
    by_cases held : entry.locked = some seq.version <;> simp [held]
  · rw [if_neg conditional]
    by_cases linking : request.type = .loadLinked
    · rw [if_pos linking]
      exact ⟨⟨some seq.version, changed_modify linked found rfl, by simp [linking]⟩, rfl, rfl,
        ⟨_, rfl⟩, fun this => absurd this conditional⟩
    · rw [if_neg linking]
      split
      · exact ⟨⟨none, cleared, by simp [linking]⟩, rfl, rfl, ⟨_, rfl⟩,
          fun this => absurd this conditional⟩
      · -- The lock was not held, so that there is nothing to clear.
        rename_i free
        have present := (isTagPresent_eq (a := a) linked).trans (by rw [found])
        rw [present, isLocked] at free
        refine ⟨⟨entry.locked, changed_refl linked found, ?_⟩, rfl, rfl, ⟨_, rfl⟩,
          fun this => absurd this conditional⟩
        simpa [linking] using free

theorem hitCallback_extraData (seq : Sequencer) (srequest : SequencerRequest) (data : DataBlock)
    (success : Bool) :
    (seq.hitCallback srequest data success).1.extraData = srequest.pkt.extraData := by
  unfold Sequencer.hitCallback
  dsimp only
  cases srequest.pkt.data with
  | none => rfl
  | some bytes =>
    dsimp only
    split
    · rfl
    · split <;> rfl

theorem hitCallback_data (seq : Sequencer) (srequest : SequencerRequest) (data : DataBlock)
    (success : Bool) (copiesIn : srequest.type.copiesOut = false) :
    (seq.hitCallback srequest data success).2 = srequest.pkt.data.elim data fun bytes =>
      data.setData bytes (seq.getOffset srequest.pkt.addr) srequest.pkt.size := by
  unfold Sequencer.hitCallback
  dsimp only
  cases srequest.pkt.data with
  | none => rfl
  | some bytes =>
    dsimp only [Option.elim]
    rw [copiesIn]
    split <;> rfl

theorem setData_same {block : DataBlock} {bytes : Nat → UInt8} {offset len : Nat}
    (same : ∀ k, k < len → bytes k = block (offset + k)) :
    block.setData bytes offset len = block := by
  funext k
  unfold DataBlock.setData
  split
  · rename_i inside
    rw [same (k - offset) (by omega), Nat.add_sub_cancel' inside.1]
  · rfl

/-- The invariant survives that a request of the table of writes is completed. -/
theorem writeCallback_inv (inv : Inv s)
    (outstanding : s.seq.writeRequestTable a = some request)
    (found : s.seq.dataCache.lookup a = some entry)
    (allowed : Allowed s (.writeCallback a)) :
    Inv (s.complete a request (s.seq.writeCallback a request entry.dataBlk)
      (request.type == .loadLinked && !entry.permission.lost)) := by
  obtain ⟨harmless, permitted⟩ := allowed request outstanding
  have permitted (linking : request.type = .loadLinked) := permitted linking entry found
  -- The request leaves the table first; then the lock is dealt with, and last the block written.
  obtain ⟨seq1, seq1_eq⟩ : ∃ seq1, seq1 = { s.seq with
      writeRequestTable := update s.seq.writeRequestTable a none
      outstanding_count := s.seq.outstanding_count - 1 } := ⟨_, rfl⟩
  have cache1 : seq1.dataCache = s.seq.dataCache := by rw [seq1_eq]
  have version1 : seq1.version = s.seq.version := by rw [seq1_eq]
  have handled : Handled seq1 a request entry (seq1.handleLlsc a request) :=
    handleLlsc_handled (cache1 ▸ inv.linked) (cache1 ▸ found)
  have result : s.seq.writeCallback a request entry.dataBlk =
      (((seq1.handleLlsc a request).2.2.hitCallback (seq1.handleLlsc a request).2.1 entry.dataBlk
        (seq1.handleLlsc a request).1).1,
      (seq1.handleLlsc a request).2.2.storeBlock a
        ((seq1.handleLlsc a request).2.2.hitCallback (seq1.handleLlsc a request).2.1 entry.dataBlk
          (seq1.handleLlsc a request).1).2) := by
    rw [seq1_eq]
    rfl
  obtain ⟨locked, changed, lock⟩ := handled.cache
  rw [version1] at lock
  -- The block is found again, since only its lock has changed.
  have present : entry.permission ≠ .notPresent := by
    obtain ⟨_, _, _, present⟩ := lookup_eq_some.mp found
    exact present
  have there : (seq1.handleLlsc a request).2.2.dataCache.lookup a = some { entry with locked } := by
    rw [changed.self]
    exact if_neg present
  rw [cache1] at changed
  generalize seq1.handleLlsc a request = outcome at handled result changed there
  obtain ⟨data, data_eq⟩ : ∃ data, data =
      (outcome.2.2.hitCallback outcome.2.1 entry.dataBlk outcome.1).2 := ⟨_, rfl⟩
  have final : Changed s.seq.dataCache (outcome.2.2.storeBlock a data).dataCache a
      { entry with locked, dataBlk := data } :=
    changed.trans (changed_modify changed.linked there rfl)
  have answer : (outcome.2.2.hitCallback outcome.2.1 entry.dataBlk outcome.1).1.extraData =
      outcome.2.1.pkt.extraData := hitCallback_extraData ..
  rw [result, ← data_eq]
  refine inv.change final ?_ (fun _ => ?_) (fun this => absurd this present)
    (fun b other waiting => ?_) ?_
  · show outcome.2.2.version = _
    rw [handled.rest]
    exact version1
  · rw [lock]
    by_cases linking : request.type = .loadLinked
    · simp [linking, permitted linking]
    · simp [linking]
  · have waiting : outcome.2.2.readRequestTable b = some other := waiting
    rw [handled.rest, seq1_eq] at waiting
    exact waiting
  · intro c member
    rcases List.mem_append.mp member with old | new
    · exact inv.good c old
    · obtain rfl := List.mem_singleton.mp new
      have succeeds (conditional : request.type = .storeConditional) :
          outcome.2.1.pkt.extraData = 1 ↔ s.kept a = true := by
        rw [handled.success conditional, version1]
        exact inv.lock a entry found
      refine ⟨fun conditional => ?_, fun writes b => ?_⟩
      · show (outcome.2.2.hitCallback _ _ _).1.extraData = 1 ↔ s.kept a = true
        rw [answer]
        exact succeeds conditional
      · have copiesIn : outcome.2.1.type.copiesOut = false := by
          rw [handled.type]
          rcases writes with store | conditional
          · rw [show request.type = .st from store]
            rfl
          · rw [show request.type = .storeConditional from conditional]
            rfl
        have offset : outcome.2.2.getOffset request.pkt.addr = s.seq.getOffset
          request.pkt.addr := by
          rw [handled.rest, seq1_eq]
          rfl
        obtain ⟨extraData, pkt⟩ := handled.pkt
        have written : data = request.pkt.data.elim entry.dataBlk fun bytes =>
            entry.dataBlk.setData bytes (s.seq.getOffset request.pkt.addr) request.pkt.size := by
          rw [data_eq, hitCallback_data _ _ _ _ copiesIn, pkt]
          show request.pkt.data.elim _ _ = _
          rw [offset]
        show (_ : Option CacheEntry).map _ = if b = a then ((_ : Option CacheEntry).map _).map _
          else (_ : Option CacheEntry).map _
        by_cases same : b = a
        · rw [if_pos same, same, final.self, if_neg present, found]
          refine congrArg some ?_
          show data = if (request.type == .storeConditional &&
            (outcome.2.2.hitCallback _ _ _).1.extraData != 1) = true then entry.dataBlk else _
          rw [answer]
          split
          · -- What fails finds the lock open, and then its bytes are in the block already.
            rename_i failed
            simp only [Bool.and_eq_true, beq_iff_eq, bne_iff_ne] at failed
            have free : s.seq.dataCache.isLocked a s.seq.version = false := by
              have unlocked : ¬entry.locked = some s.seq.version := by
                rw [inv.lock a entry found, ← succeeds failed.1]
                exact failed.2
              simp [CacheMemory.isLocked, found, unlocked]
            rw [written]
            cases bytes_eq : request.pkt.data with
            | none => rfl
            | some bytes =>
              exact setData_same (harmless failed.1 free bytes bytes_eq entry.dataBlk
                (by rw [blocks, found]; rfl))
          · exact written
        · rw [if_neg same, final.other b same]

theorem readCallback_inv (inv : Inv s)
    (outstanding : s.seq.readRequestTable a = some request)
    (found : s.seq.dataCache.lookup a = some entry) :
    Inv (s.complete a request (s.seq.readCallback a request entry.dataBlk) (s.kept a)) := by
  have present : entry.permission ≠ .notPresent := by
    obtain ⟨_, _, _, present⟩ := lookup_eq_some.mp found
    exact present
  refine inv.change (changed_modify inv.linked found rfl) rfl (fun _ => inv.lock a entry found)
    (fun this => absurd this present) (fun b other waiting => ?_) fun c member => ?_
  · have waiting : update s.seq.readRequestTable a none b = some other := waiting
    rw [update_apply] at waiting
    split at waiting
    · cases waiting
    · exact waiting
  · rcases List.mem_append.mp member with old | new
    · exact inv.good c old
    · obtain rfl := List.mem_singleton.mp new
      have reads := inv.reads a request outstanding
      refine ⟨fun conditional => ?_, fun writes => ?_⟩
      · rw [show request.type = .storeConditional from conditional] at reads
        cases reads
      · rcases writes with store | conditional
        · rw [show request.type = .st from store] at reads
          cases reads
        · rw [show request.type = .storeConditional from conditional] at reads
          cases reads

theorem makeRequest_inv (inv : Inv s) {pkt : SeqPacket} {made : RequestStatus × Sequencer}
    (result : s.seq.makeRequest pkt = some made) : Inv { s with seq := made.2 } := by
  unfold Sequencer.makeRequest at result
  split at result
  · obtain rfl := Option.some.inj result
    exact inv
  · obtain ⟨primary_type, _, result⟩ := Option.map_eq_some_iff.mp result
    subst result
    cases inserted : s.seq.insertRequest pkt primary_type with
    | none => exact inv
    | some seq =>
      unfold Sequencer.insertRequest at inserted
      dsimp only at inserted ⊢
      split at inserted
      · cases inserted
      · split at inserted
        · obtain rfl := Option.some.inj inserted
          exact ⟨inv.linked, inv.lock, inv.absent, inv.reads, inv.good⟩
        · rename_i reading
          obtain rfl := Option.some.inj inserted
          refine ⟨inv.linked, inv.lock, inv.absent, fun b request outstanding => ?_, inv.good⟩
          have outstanding : update s.seq.readRequestTable _ _ b = some request :=
            outstanding
          rw [update_apply] at outstanding
          split at outstanding
          · obtain rfl := Option.some.inj outstanding
            exact Bool.eq_false_iff.mpr reading
          · exact inv.reads b request outstanding

theorem Inv.touch (inv : Inv s) (found : s.seq.dataCache.lookup a = some entry)
    {change : CacheEntry → CacheEntry} (address : (change entry).address = entry.address)
    (permission : (change entry).permission = entry.permission)
    (lock : (change entry).locked = some s.seq.version ↔ entry.locked = some s.seq.version) :
    Inv { s with seq := { s.seq with dataCache := s.seq.dataCache.modify a change } } := by
  have present : entry.permission ≠ .notPresent := by
    obtain ⟨_, _, _, present⟩ := lookup_eq_some.mp found
    exact present
  have changed : Inv { s with
      seq := { s.seq with dataCache := s.seq.dataCache.modify a change }
      kept := update s.kept a (s.kept a) } :=
    inv.change (changed_modify inv.linked found address) rfl
      (fun _ => lock.trans (inv.lock a entry found))
      (fun this => absurd (permission.symm.trans this) present) (fun _ _ waiting => waiting)
      inv.good
  rw [update_eq_self] at changed
  exact changed

theorem invalidateSC_inv (inv : Inv s) (found : s.seq.dataCache.lookup a = some entry)
    (allowed : Allowed s (.invalidateSC a)) : Inv { s with seq := s.seq.invalidateSC a } := by
  unfold Sequencer.invalidateSC
  cases outstanding : s.seq.writeRequestTable a with
  | none => exact inv
  | some request =>
    dsimp only
    split
    · rename_i conditional
      refine inv.touch found rfl rfl ?_
      have free := allowed request outstanding conditional
      simpa [CacheMemory.isLocked, found] using free
    · exact inv

/-- Every allowed step keeps the invariant. -/
theorem step_inv (inv : Inv s) {op : Op} (allowed : Allowed s op) (taken : step s op = some t) :
    Inv t := by
  cases op with
  | makeRequest pkt =>
    obtain ⟨_, result⟩ := Option.ite_none_right_eq_some.mp taken
    obtain ⟨made, answered, final⟩ := Option.map_eq_some_iff.mp result
    subst final
    exact makeRequest_inv inv answered
  | writeCallback address =>
    obtain ⟨request, outstanding, rest⟩ := Option.bind_eq_some_iff.mp taken
    obtain ⟨entry, found, rest⟩ := Option.bind_eq_some_iff.mp rest
    obtain ⟨_, result⟩ := Option.ite_none_right_eq_some.mp rest
    obtain rfl := Option.some.inj result
    exact writeCallback_inv inv outstanding found allowed
  | readCallback address =>
    obtain ⟨request, outstanding, rest⟩ := Option.bind_eq_some_iff.mp taken
    obtain ⟨entry, found, rest⟩ := Option.bind_eq_some_iff.mp rest
    obtain ⟨_, result⟩ := Option.ite_none_right_eq_some.mp rest
    obtain rfl := Option.some.inj result
    exact readCallback_inv inv outstanding found
  | invalidateSC address =>
    obtain ⟨present, result⟩ := Option.ite_none_right_eq_some.mp taken
    obtain rfl := Option.some.inj result
    obtain ⟨entry, found⟩ := (present_iff inv).mp present
    exact invalidateSC_inv inv found allowed
  | changePermission address new_perm =>
    obtain ⟨present, result⟩ := Option.ite_none_right_eq_some.mp taken
    obtain rfl := Option.some.inj result
    obtain ⟨entry, found⟩ := (present_iff inv).mp present
    refine inv.change (changed_modify inv.linked found rfl) rfl (fun _ => ?_) (fun gone => ?_)
      (fun _ _ waiting => waiting) inv.good
    · show (if new_perm.lost = true then none else entry.locked) = _ ↔ _
      cases lost : new_perm.lost with
      | true => simp
      | false =>
        rw [Bool.not_false, Bool.and_true]
        exact inv.lock address entry found
    · have gone : new_perm = .notPresent := gone
      rw [gone]
      simp [AccessPermission.lost]
  | writeDataToCache address data =>
    obtain ⟨present, result⟩ := Option.ite_none_right_eq_some.mp taken
    obtain rfl := Option.some.inj result
    obtain ⟨entry, found⟩ := (present_iff inv).mp present
    exact inv.touch found rfl rfl Iff.rfl
  | allocate address data =>
    obtain ⟨_, result⟩ := Option.ite_none_right_eq_some.mp taken
    obtain ⟨dataCache, allocated, final⟩ := Option.map_eq_some_iff.mp result
    subst final
    exact inv.change (changed_allocate inv.linked allowed allocated) rfl (by simp) (fun _ => rfl)
      (fun _ _ waiting => waiting) inv.good
  | deallocate address =>
    obtain ⟨present, result⟩ := Option.ite_none_right_eq_some.mp taken
    obtain rfl := Option.some.inj result
    obtain ⟨entry, found⟩ := (present_iff inv).mp present
    have gone := changed_deallocate inv.linked found
    exact inv.change gone rfl (fun this => absurd rfl this) (fun _ => rfl)
      (fun _ _ waiting => waiting) inv.good

/-- A sequencer without requests, before an empty cache. -/
def start (version blockSizeBits max_outstanding_requests start_index_bit cache_num_set_bits
    cache_assoc : Nat) (warmup_enabled : Bool) : State where
  seq := {
    version, blockSizeBits, max_outstanding_requests, warmup_enabled
    dataCache := { start_index_bit, cache_num_set_bits, cache_assoc } }

theorem start_inv (version blockSizeBits max_outstanding_requests start_index_bit
    cache_num_set_bits cache_assoc : Nat) (warmup_enabled : Bool) :
    Inv (start version blockSizeBits max_outstanding_requests start_index_bit cache_num_set_bits
      cache_assoc warmup_enabled) where
  linked := by simp [start, Linked]
  lock := by simp [start, lookup_eq_some]
  absent := by simp [start]
  reads := by simp [start]
  good := by simp [start, Good]

/-- In every run of allowed steps every store-conditional and every store does what it should. -/
theorem llsc_sound (version blockSizeBits max_outstanding_requests start_index_bit
    cache_num_set_bits cache_assoc : Nat) (warmup_enabled : Bool) (ops : List Op)
    (allowed : Machine.Meets step Allowed (start version blockSizeBits max_outstanding_requests
      start_index_bit cache_num_set_bits cache_assoc warmup_enabled) ops) :
    Machine.Always step Good (start version blockSizeBits max_outstanding_requests
      start_index_bit cache_num_set_bits cache_assoc warmup_enabled) ops :=
  Machine.always_of_meets (fun _ inv => Inv.good inv)
    (fun _ _ _ inv allowed taken => step_inv inv allowed taken) (start_inv ..) allowed

/-- A load-linked or a store-conditional of the first byte. -/
def linkedPacket (isWrite : Bool) : SeqPacket where
  addr := 0
  size := 1
  data := some fun _ => 7
  isRead := !isWrite
  isWrite
  isLLSC := true

/-- A store-conditional that follows its load-linked at once. -/
theorem llsc_sound_pair : Machine.Always step Good (start 0 1 1 1 1 1 false)
    [.allocate 0 fun _ => 0, .changePermission 0 .readWrite, .makeRequest (linkedPacket false),
      .writeCallback 0, .makeRequest (linkedPacket true), .writeCallback 0] := by
  refine llsc_sound 0 1 1 1 1 1 false _ ?_
  refine Machine.meets_cons rfl (fun loc slot entry found => ?_) ?_
  · cases found
  refine Machine.meets_cons rfl trivial (Machine.meets_cons rfl trivial ?_)
  refine Machine.meets_cons rfl (fun request outstanding => ⟨?_, ?_⟩) ?_
  · intro conditional
    obtain rfl := Option.some.inj outstanding
    cases conditional
  · intro _ entry found
    obtain rfl := Option.some.inj found
    rfl
  refine Machine.meets_cons rfl trivial (Machine.meets_cons rfl
    (fun request outstanding => ⟨?_, ?_⟩) trivial)
  · intro _ free
    cases free
  · intro linking
    obtain rfl := Option.some.inj outstanding
    cases linking

/-- A store-conditional without a reservation fails, and writes its byte all the same. -/
theorem failed_conditional_writes : ¬Machine.Always step Good (start 0 1 1 1 1 1 false)
    [.allocate 0 fun _ => 0, .changePermission 0 .readWrite, .makeRequest (linkedPacket true),
      .writeCallback 0] := by
  intro always
  have good := always.at_end rfl
  have sound := good _ (List.mem_singleton_self _)
  have bytes := congrArg (Option.map fun block => block 0) (sound.writes (.inr rfl) 0)
  revert bytes
  decide

end SequencerRun

end GemDroid
