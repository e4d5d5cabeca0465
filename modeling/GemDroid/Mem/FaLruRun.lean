import GemDroid.Lib.Outcome
import GemDroid.Lib.Run
import GemDroid.Mem.FaLru

/-! What the hash table of the fully associative tag store finds over whole runs. -/

namespace GemDroid

open Function (update update_apply update_idem update_of_ne update_self)

open Outcome

namespace FaLru

variable {config : FaLruConfig} {tags after : FaLru} {addr : Addr} {i : Nat}

/-- Two tag stores differ at most in the order of their blocks and in the smaller caches. -/
structure SameBlocks (tags after : FaLru) : Prop where
  tagHash : after.tagHash = tags.tagHash
  blks : ∀ k, (after.blks k).toCacheBlk = (tags.blks k).toCacheBlk

theorem SameBlocks.refl (tags : FaLru) : SameBlocks tags tags :=
  ⟨rfl, fun _ => rfl⟩

theorem SameBlocks.trans {middle : FaLru} (first : SameBlocks tags middle)
    (second : SameBlocks middle after) : SameBlocks tags after :=
  ⟨second.tagHash.trans first.tagHash, fun k => (second.blks k).trans (first.blks k)⟩

theorem setBlk_blks (i : Nat) (blk : FALRUBlk) (k : Nat) :
    (tags.setBlk i blk).blks k = if k = i then blk else tags.blks k := by
  simp only [setBlk, update_apply]

theorem setBlk_setBlk (i : Nat) (first second : FALRUBlk) :
    (tags.setBlk i first).setBlk i second = tags.setBlk i second := by
  simp only [setBlk, update_idem]

theorem sameBlocks_of_setBlk {inCache : Nat → Bool} (hash : after.tagHash = tags.tagHash)
    (blks : after.blks = (tags.setBlk i { tags.blks i with inCache := inCache }).blks) :
    SameBlocks tags after := by
  refine ⟨hash, fun k => ?_⟩
  rw [blks, setBlk_blks]
  split_ifs with same
  · rw [same]
  · rfl

theorem moveBoundary_ends (i : Nat) (outside : Bool) (j : Nat) (tags : FaLru) :
    Ends (· = .nullPointer) (moveBoundary i outside j tags) (SameBlocks tags) := by
  simp only [moveBoundary]
  split_ifs
  · cases tags.cacheBoundaries j with
    | none => exact rfl
    | some last => exact sameBlocks_of_setBlk rfl rfl
  · exact ⟨rfl, fun _ => rfl⟩
  · exact .refl tags

theorem moveToHead_ends (config : FaLruConfig) (i : Nat) (tags : FaLru) :
    Ends (· = .nullPointer) (moveToHead config i tags) (SameBlocks tags) := by
  rw [moveToHead, ends_bind]
  refine (ends_foldlM (I := SameBlocks tags) (fun middle j same => ?_) _ (.refl tags)).mono ?_
  · exact (moveBoundary_ends i _ j middle).mono fun after next => same.trans next
  · exact fun middle same => same.trans (sameBlocks_of_setBlk rfl rfl)

theorem findVictim_eq (found : tags.findVictim config addr = .ok (after, i)) :
    after.tagHash = update (update tags.tagHash (tags.blks i).tag none)
        (config.blkAlign addr) (some i) ∧
      ∀ k, (after.blks k).toCacheBlk = (tags.blks k).toCacheBlk := by
  simp only [findVictim] at found
  cases last : tags.order.getLast? with
  | none => simp [last] at found
  | some i' =>
    simp only [last] at found
    split_ifs at found
    cases moved : moveToHead config i' tags with
    | error e => simp [moved, bind, Except.bind] at found
    | ok middle =>
      have same : SameBlocks tags middle := (moveToHead_ends config i' tags).of_ok moved
      simp only [moved, bind, Except.bind, pure, Except.pure, Except.ok.injEq, Prod.mk.injEq]
        at found
      obtain ⟨rfl, rfl⟩ := found
      exact ⟨by rw [same.tagHash, same.blks i'], same.blks⟩

theorem accessBlock_ends {found : Option Nat} (looked : findBlock config addr tags = .ok found) :
    Ends (· = .nullPointer) (accessBlock config addr tags) fun result =>
      SameBlocks tags result.1 ∧ result.2 = found := by
  rw [accessBlock, looked]
  cases found with
  | none => exact ⟨.refl tags, rfl⟩
  | some i =>
    show Ends _ (if tags.order.head? = some i then _ else _) _
    split_ifs
    · exact ⟨.refl tags, rfl⟩
    · rw [ends_bind]
      exact (moveToHead_ends config i tags).mono fun after same => ⟨same, rfl⟩

end FaLru

namespace FaCache

variable {config : FaLruConfig} {findMatch : Addr → Bool → Option Mshr} {addr : Addr}
  {tags after : FaLru} {place : Option Nat}

/--
An allocation gives its victim to the address in the hash table, even if it is refused.

It is refused only for a victim that is valid, and leaves tags and validity of all blocks.
-/
theorem allocateBlock_eq
    (allocated : allocateBlock config findMatch addr tags = .ok (after, place)) :
    ∃ i, after.tagHash = update (update tags.tagHash (tags.blks i).tag none)
        (config.blkAlign addr) (some i) ∧
      (∀ k, (after.blks k).tag = (tags.blks k).tag ∧
        (after.blks k).isValid = (tags.blks k).isValid) ∧
      (place = some i ∨ place = none ∧ (tags.blks i).isValid = true) := by
  simp only [allocateBlock] at allocated
  cases found : tags.findVictim config addr with
  | error e => simp [found, bind, Except.bind] at allocated
  | ok result =>
    obtain ⟨middle, i⟩ := result
    obtain ⟨hash, blks⟩ := FaLru.findVictim_eq found
    have same : ∀ k, (middle.blks k).tag = (tags.blks k).tag ∧
        (middle.blks k).isValid = (tags.blks k).isValid := by
      intro k
      rw [blks k]
      exact ⟨rfl, rfl⟩
    simp only [found, bind, Except.bind] at allocated
    refine ⟨i, ?_⟩
    by_cases valid : (middle.blks i).isValid = true
    · rw [if_pos valid] at allocated
      cases matched : findMatch (middle.blks i).tag (middle.blks i).isSecure with
      | some repl_mshr =>
        simp only [matched] at allocated
        split_ifs at allocated
        cases allocated
        exact ⟨hash, same, .inr ⟨rfl, by rw [← (same i).2, valid]⟩⟩
      | none =>
        simp only [matched] at allocated
        split_ifs at allocated
        · cases allocated
          refine ⟨hash, fun k => ?_, .inl rfl⟩
          rw [FaLru.setBlk_blks]
          split_ifs with own
          · subst own
            exact same k
          · exact same k
        · cases allocated
          exact ⟨hash, same, .inl rfl⟩
    · rw [if_neg valid] at allocated
      cases allocated
      exact ⟨hash, same, .inl rfl⟩

/-- What an allocation leaves: the victim is valid and stands for the address in the hash table. -/
structure Allocated (config : FaLruConfig) (addr : Addr) (tags after : FaLru)
    (place : Option Nat) (i : Nat) : Prop where
  hash : after.tagHash = update (update tags.tagHash (tags.blks i).tag none)
    (config.blkAlign addr) (some i)
  tag : ∀ k, (after.blks k).tag = (tags.blks k).tag
  others : ∀ k, k ≠ i → (after.blks k).isValid = (tags.blks k).isValid
  own : (after.blks i).isValid = true
  outcome : place = some i ∨ place = none ∧ (tags.blks i).isValid = true

theorem allocated_setBlk {i : Nat} {blk : FALRUBlk} {middle : FaLru}
    (hash : middle.tagHash = update (update tags.tagHash (tags.blks i).tag none)
      (config.blkAlign addr) (some i))
    (same : ∀ k, (middle.blks k).tag = (tags.blks k).tag ∧
      (middle.blks k).isValid = (tags.blks k).isValid)
    (tag : blk.tag = (tags.blks i).tag) (valid : blk.isValid = true) :
    Allocated config addr tags (middle.setBlk i blk) (some i) i := by
  refine ⟨hash, fun k => ?_, fun k other => ?_, ?_, .inl rfl⟩
  · rw [FaLru.setBlk_blks]
    split_ifs with own
    · rw [own, tag]
    · exact (same k).1
  · rw [FaLru.setBlk_blks, if_neg other]
    exact (same k).2
  · rw [FaLru.setBlk_blks, if_pos rfl]
    exact valid

theorem allocated_refused {i : Nat} {middle : FaLru}
    (hash : middle.tagHash = update (update tags.tagHash (tags.blks i).tag none)
      (config.blkAlign addr) (some i))
    (same : ∀ k, (middle.blks k).tag = (tags.blks k).tag ∧
      (middle.blks k).isValid = (tags.blks k).isValid)
    (valid : (tags.blks i).isValid = true) :
    Allocated config addr tags middle none i :=
  ⟨hash, fun k => (same k).1, fun k _ => (same k).2, by rw [(same i).2, valid], .inr ⟨rfl, valid⟩⟩

theorem handleFill_none {pkt : Packet} {c d : FaCache}
    (taken : handleFill config findMatch pkt none c = .ok d) :
    ∃ place middle i, allocateBlock config findMatch pkt.addr c.tags = .ok (middle, place) ∧
      Allocated config pkt.addr c.tags d.tags place i := by
  simp only [handleFill] at taken
  by_cases hasData : (!pkt.cmd.hasData) = true
  · simp [hasData] at taken
  rw [if_neg hasData] at taken
  cases allocated : allocateBlock config findMatch pkt.addr c.tags with
  | error e => simp [allocated, bind, Except.bind] at taken
  | ok result =>
    obtain ⟨middle, place⟩ := result
    obtain ⟨i, hash, same, outcome⟩ := allocateBlock_eq allocated
    refine ⟨place, middle, i, rfl, ?_⟩
    simp only [allocated, bind, Except.bind] at taken
    obtain rfl | ⟨rfl, valid⟩ := outcome
    · change (if (middle.blks i).isValid = true then _ else _) = _ at taken
      split_ifs at taken
      cases taken
      exact allocated_setBlk hash same (same i).1 rfl
    · simp only at taken
      split_ifs at taken
      cases taken
      exact allocated_refused hash same valid

theorem takeWriteback_none {pkt : Packet} {c d : FaCache} {done : Bool}
    (taken : takeWriteback config findMatch pkt none c = .ok (d, done)) :
    ∃ place middle i, allocateBlock config findMatch pkt.addr c.tags = .ok (middle, place) ∧
      Allocated config pkt.addr c.tags d.tags place i := by
  simp only [takeWriteback] at taken
  by_cases partly : config.blkSize ≠ pkt.size
  · simp [partly] at taken
  rw [if_neg partly] at taken
  cases allocated : allocateBlock config findMatch pkt.addr c.tags with
  | error e => simp [allocated, bind, Except.bind] at taken
  | ok result =>
    obtain ⟨middle, place⟩ := result
    obtain ⟨i, hash, same, outcome⟩ := allocateBlock_eq allocated
    refine ⟨place, middle, i, rfl, ?_⟩
    simp only [allocated, bind, Except.bind] at taken
    obtain rfl | ⟨rfl, valid⟩ := outcome
    · simp only [FaLru.insertBlock, FaLru.setBlk_setBlk] at taken
      split_ifs at taken
      cases taken
      apply allocated_setBlk hash same
      · simp only [FaLru.setBlk_blks, if_pos]
        exact (same i).1
      · simp only [FaLru.setBlk_blks, if_pos]
        rfl
    · cases taken
      exact allocated_refused hash same valid

end FaCache

/-- What a hit may make of its block: any change that keeps tag and validity. -/
structure BlkUse where
  change : CacheBlk → CacheBlk
  tag : ∀ blk, (change blk).tag = blk.tag
  valid : ∀ blk, (change blk).isValid = blk.isValid

/-- What a cache does with its tag store. -/
inductive FaCacheOp
  /-- A request looks its block up, and uses it if it is there. -/
  | access (addr : Addr) (use : BlkUse)
  /-- A response fills a block; the cache knows which requests are outstanding. -/
  | fill (findMatch : Addr → Bool → Option Mshr) (pkt : Packet)
  /-- A cache above gives up a block. -/
  | writeback (findMatch : Addr → Bool → Option Mshr) (pkt : Packet)
  /-- A snoop, a flush or an upgrade drops a block. -/
  | invalidate (addr : Addr)

/-- A cache, and for each block the address it was filled for since it was dropped last. -/
structure FilledCache extends FaCache where
  filled : Nat → Option Addr

namespace FilledCache

variable (config : FaLruConfig)

/-- A cache without blocks. -/
def start (raw : Nat → Nat → UInt8) : FilledCache :=
  { tags := FaLru.start config raw
    tempBlock := { tag := 0, status := .zero, data := fun _ => 0, lockList := [] }
    filled := fun _ => none }

/-- The block that a miss takes, if it gets one. -/
def place (findMatch : Addr → Bool → Option Mshr) (addr : Addr) (found : Option Nat)
    (tags : FaLru) : Option Nat :=
  match found, FaCache.allocateBlock config findMatch addr tags with
  | none, .ok (_, some i) => some i
  | _, _ => none

/-- Remember what a block was filled for. -/
def fillFor (place : Option Nat) (addr : Addr) (filled : Nat → Option Addr) : Nat → Option Addr :=
  match place with
  | some i => update filled i (some (config.blkAlign addr))
  | none => filled

/-- Take one operation; one that fails an assertion ends the run. -/
def step (s : FilledCache) (op : FaCacheOp) : Option FilledCache :=
  match op with
  | .access addr use =>
    match s.tags.accessBlock config addr with
    | .ok (tags, some i) =>
      some { s with tags := tags.setBlk i { tags.blks i with
        toCacheBlk := use.change (tags.blks i).toCacheBlk } }
    | .ok (tags, none) => some { s with tags }
    | .error _ => none
  | .fill findMatch pkt =>
    match s.tags.findBlock config pkt.addr with
    | .ok found =>
      match s.toFaCache.handleFill config findMatch pkt found with
      | .ok c => some ⟨c, fillFor config (place config findMatch pkt.addr found s.tags) pkt.addr
          s.filled⟩
      | .error _ => none
    | .error _ => none
  | .writeback findMatch pkt =>
    match s.tags.accessBlock config pkt.addr with
    | .ok (tags, found) =>
      match FaCache.takeWriteback config findMatch pkt found { s.toFaCache with tags } with
      | .ok (c, _) => some ⟨c, fillFor config (place config findMatch pkt.addr found tags) pkt.addr
          s.filled⟩
      | .error _ => none
    | .error _ => none
  | .invalidate addr =>
    match s.tags.findBlock config addr with
    | .ok (some i) => some { s with
        tags := s.tags.invalidate i
        filled := update s.filled i none }
    | .ok none => some s
    | .error _ => none

/-- A block is only ever allocated for the address zero, the tag that all blocks start with. -/
def AllocatesZero (s : FilledCache) : FaCacheOp → Prop
  | .fill _ pkt | .writeback _ pkt =>
    s.tags.findBlock config pkt.addr = .ok none → config.blkAlign pkt.addr = 0#64
  | _ => True

/-- Nothing but the block of address zero is in the cache. -/
structure OnlyZero (s : FilledCache) : Prop where
  tags : ∀ k, (s.tags.blks k).tag = 0#64
  hash : ∀ a, a ≠ 0#64 → s.tags.tagHash a = none
  valid : ∀ k, (s.tags.blks k).isValid = true → s.tags.tagHash 0#64 = some k
  filled : ∀ k, s.filled k = if (s.tags.blks k).isValid then some 0#64 else none

variable {config} {s t : FilledCache}

/-- The block of address zero is found if it is there, and nothing else is. -/
theorem OnlyZero.findBlock (config : FaLruConfig) (zero : OnlyZero s) (addr : Addr) :
    ∃ found, s.tags.findBlock config addr = .ok found ∧
      ∀ i, found = some i ↔ s.filled i = some (config.blkAlign addr) := by
  by_cases other : config.blkAlign addr = 0#64
  · cases known : s.tags.tagHash 0#64 with
    | none =>
      refine ⟨none, by simp [FaLru.findBlock, other, known], fun i => ?_⟩
      have invalid : (s.tags.blks i).isValid = false := by
        rw [← Bool.not_eq_true]
        intro valid
        simpa [known] using zero.valid i valid
      simp [zero.filled i, invalid]
    | some k =>
      cases valid : (s.tags.blks k).isValid with
      | true =>
        refine ⟨some k, by simp [FaLru.findBlock, other, known, valid, zero.tags k], fun i => ?_⟩
        rw [zero.filled i, other]
        constructor
        · intro same
          cases same
          simp [valid]
        · intro held
          have validToo : (s.tags.blks i).isValid = true := by
            by_contra invalid
            simp [invalid] at held
          rw [← known, zero.valid i validToo]
      | false =>
        refine ⟨none, by simp [FaLru.findBlock, other, known, valid], fun i => ?_⟩
        have invalid : (s.tags.blks i).isValid = false := by
          rw [← Bool.not_eq_true]
          intro validToo
          have same := zero.valid i validToo
          rw [known, Option.some.injEq] at same
          rw [← same, valid] at validToo
          simp at validToo
        simp [zero.filled i, invalid]
  · refine ⟨none, by simp [FaLru.findBlock, zero.hash _ other], fun i => ?_⟩
    rw [zero.filled i]
    split_ifs
    · simp [Ne.symm other]
    · simp

/-- A step that leaves tags, validity and the hash table. -/
structure Quiet (s t : FilledCache) : Prop where
  hash : t.tags.tagHash = s.tags.tagHash
  same : ∀ k, (t.tags.blks k).tag = (s.tags.blks k).tag ∧
    (t.tags.blks k).isValid = (s.tags.blks k).isValid
  filled : t.filled = s.filled

theorem OnlyZero.quiet (zero : OnlyZero s) (quiet : Quiet s t) : OnlyZero t := by
  refine ⟨fun k => ?_, fun a other => ?_, fun k valid => ?_, fun k => ?_⟩
  · rw [(quiet.same k).1, zero.tags k]
  · rw [quiet.hash, zero.hash a other]
  · rw [(quiet.same k).2] at valid
    rw [quiet.hash, zero.valid k valid]
  · rw [quiet.filled, zero.filled k, (quiet.same k).2]

theorem setBlk_same {tags : FaLru} {i : Nat} (blk : FALRUBlk)
    (tag : blk.tag = (tags.blks i).tag) (valid : blk.isValid = (tags.blks i).isValid) (k : Nat) :
    ((tags.setBlk i blk).blks k).tag = (tags.blks k).tag ∧
      ((tags.setBlk i blk).blks k).isValid = (tags.blks k).isValid := by
  rw [FaLru.setBlk_blks]
  split_ifs with own
  · rw [own]
    exact ⟨tag, valid⟩
  · exact ⟨rfl, rfl⟩

theorem valid_of_findBlock {tags : FaLru} {addr : Addr} {i : Nat}
    (found : tags.findBlock config addr = .ok (some i)) : (tags.blks i).isValid = true := by
  simp only [FaLru.findBlock] at found
  split at found
  · split_ifs at found with valid
    · cases found
      exact valid
    · simp at found
  · simp at found

theorem OnlyZero.invalid_of_missed (zero : OnlyZero s) {addr : Addr}
    (isZero : config.blkAlign addr = 0#64) (missed : s.tags.findBlock config addr = .ok none)
    (k : Nat) : (s.tags.blks k).isValid = false := by
  rw [← Bool.not_eq_true]
  intro valid
  have known := zero.valid k valid
  simp [FaLru.findBlock, isZero, known, valid, zero.tags k] at missed

/-- A block allocated for address zero becomes the only one. -/
theorem OnlyZero.allocated (zero : OnlyZero s) {findMatch : Addr → Bool → Option Mshr}
    {addr : Addr} {middle : FaLru} {given : Option Nat} {i : Nat}
    (isZero : config.blkAlign addr = 0#64) (missed : s.tags.findBlock config addr = .ok none)
    (taken : FaCache.allocateBlock config findMatch addr s.tags = .ok (middle, given))
    (result : FaCache.Allocated config addr s.tags t.tags given i)
    (filled : t.filled = fillFor config (place config findMatch addr none s.tags) addr s.filled) :
    OnlyZero t := by
  have invalid := zero.invalid_of_missed isZero missed
  -- The victim is not valid, so it is not refused.
  have used : given = some i := by
    apply result.outcome.resolve_right
    rintro ⟨-, valid⟩
    rw [invalid i] at valid
    simp at valid
  subst used
  have tagHash : t.tags.tagHash = update s.tags.tagHash 0#64 (some i) := by
    rw [result.hash, isZero, zero.tags i, update_idem]
  have onlyOwn : ∀ k, (t.tags.blks k).isValid = true → k = i := by
    intro k valid
    by_contra other
    rw [result.others k other, invalid k] at valid
    simp at valid
  have placed : place config findMatch addr none s.tags = some i := by simp [place, taken]
  refine ⟨fun k => ?_, fun a other => ?_, fun k valid => ?_, fun k => ?_⟩
  · rw [result.tag k, zero.tags k]
  · rw [tagHash, update_of_ne other, zero.hash a other]
  · rw [tagHash, update_self, onlyOwn k valid]
  · rw [filled, placed]
    simp only [fillFor, isZero]
    by_cases own : k = i
    · rw [own, update_self, result.own, if_pos rfl]
    · rw [update_of_ne own, zero.filled k, result.others k own]

theorem OnlyZero.dropped (zero : OnlyZero s) (i : Nat) :
    OnlyZero { s with
      tags := s.tags.invalidate i
      filled := update s.filled i none } := by
  refine ⟨fun k => ?_, zero.hash, fun k valid => ?_, fun k => ?_⟩
  · simp only [FaLru.invalidate, FaLru.setBlk_blks]
    split_ifs with own
    · exact zero.tags i
    · exact zero.tags k
  · simp only [FaLru.invalidate, FaLru.setBlk_blks] at valid
    split_ifs at valid with own
    · simp [CacheBlk.invalidate, CacheBlk.isValid, BlkStatus.zero] at valid
    · exact zero.valid k valid
  · simp only [FaLru.invalidate, FaLru.setBlk_blks]
    by_cases own : k = i
    · rw [own, update_self, if_pos rfl]
      rfl
    · rw [update_of_ne own, if_neg own, zero.filled k]

theorem quiet_of_fill {findMatch : Addr → Bool → Option Mshr} {pkt : Packet} {i : Nat}
    {c : FaCache} (valid : (s.tags.blks i).isValid = true)
    (taken : s.toFaCache.handleFill config findMatch pkt (some i) = .ok c) :
    Quiet s ⟨c, s.filled⟩ := by
  simp only [FaCache.handleFill] at taken
  split_ifs at taken
  cases taken
  refine ⟨rfl, setBlk_same _ ?_ ?_, rfl⟩
  · rfl
  · rw [valid]
    rfl

theorem quiet_of_writeback {findMatch : Addr → Bool → Option Mshr} {pkt : Packet} {i : Nat}
    {tags : FaLru} {c : FaCache} {done : Bool} (same : FaLru.SameBlocks s.tags tags)
    (taken : FaCache.takeWriteback config findMatch pkt (some i) { s.toFaCache with tags } =
      .ok (c, done)) :
    Quiet s ⟨c, s.filled⟩ := by
  simp only [FaCache.takeWriteback, bind, Except.bind] at taken
  split_ifs at taken
  cases taken
  refine ⟨same.tagHash, fun k => ?_, rfl⟩
  have kept := setBlk_same { tags.blks i with
    data := pkt.data
    status := { (tags.blks i).status with
      dirty := true
      writable := (tags.blks i).status.writable || pkt.supplyExclusive } } rfl rfl k
  rw [same.blks k] at kept
  exact kept

/-- A step drops a block, allocates one, or leaves tags, validity and the hash table. -/
theorem step_cases {op : FaCacheOp} (taken : step config s op = some t) :
    (AllocatesZero config s op ∧ Quiet s t) ∨
    (AllocatesZero config s op ∧ ∃ i, t = { s with
      tags := s.tags.invalidate i
      filled := update s.filled i none }) ∨
    ∃ findMatch addr middle given i, s.tags.findBlock config addr = .ok none ∧
      FaCache.allocateBlock config findMatch addr s.tags = .ok (middle, given) ∧
      FaCache.Allocated config addr s.tags t.tags given i ∧
      t.filled = fillFor config (place config findMatch addr none s.tags) addr s.filled ∧
      (AllocatesZero config s op ↔ config.blkAlign addr = 0#64) := by
  cases op with
  | access addr use =>
    refine .inl ⟨trivial, ?_⟩
    simp only [step] at taken
    cases looked : s.tags.findBlock config addr with
    | error e => simp [FaLru.accessBlock, looked, bind, Except.bind] at taken
    | ok found =>
      cases accessed : s.tags.accessBlock config addr with
      | error e => simp [accessed] at taken
      | ok result =>
        obtain ⟨tags, held⟩ := result
        obtain ⟨same, -⟩ := (FaLru.accessBlock_ends looked).of_ok accessed
        simp only [accessed] at taken
        cases held with
        | none =>
          cases taken
          refine ⟨same.tagHash, fun k => ?_, rfl⟩
          rw [same.blks k]
          exact ⟨rfl, rfl⟩
        | some i =>
          cases taken
          refine ⟨same.tagHash, fun k => ?_, rfl⟩
          have kept := setBlk_same { tags.blks i with
            toCacheBlk := use.change (tags.blks i).toCacheBlk } (use.tag _) (use.valid _) k
          rw [same.blks k] at kept
          exact kept
  | fill findMatch pkt =>
    simp only [step] at taken
    cases looked : s.tags.findBlock config pkt.addr with
    | error e => simp [looked] at taken
    | ok found =>
      simp only [looked] at taken
      cases filled : s.toFaCache.handleFill config findMatch pkt found with
      | error e => simp [filled] at taken
      | ok c =>
        simp only [filled] at taken
        cases taken
        cases found with
        | some i =>
          refine .inl ⟨?_, quiet_of_fill (valid_of_findBlock looked) filled⟩
          simp [AllocatesZero, looked]
        | none =>
          obtain ⟨given, middle, i, allocated, result⟩ := FaCache.handleFill_none filled
          refine .inr (.inr ⟨findMatch, pkt.addr, middle, given, i, looked, allocated, result,
            rfl, ?_⟩)
          simp [AllocatesZero, looked]
  | writeback findMatch pkt =>
    simp only [step] at taken
    cases looked : s.tags.findBlock config pkt.addr with
    | error e => simp [FaLru.accessBlock, looked, bind, Except.bind] at taken
    | ok found =>
      cases accessed : s.tags.accessBlock config pkt.addr with
      | error e => simp [accessed] at taken
      | ok result =>
        obtain ⟨tags, held⟩ := result
        obtain ⟨same, rfl⟩ := (FaLru.accessBlock_ends looked).of_ok accessed
        simp only [accessed] at taken
        cases written : FaCache.takeWriteback config findMatch pkt held
            { s.toFaCache with tags } with
        | error e => simp [written] at taken
        | ok result =>
          obtain ⟨c, done⟩ := result
          simp only [written] at taken
          cases taken
          cases held with
          | some i =>
            refine .inl ⟨?_, quiet_of_writeback same written⟩
            simp [AllocatesZero, looked]
          | none =>
            -- A miss leaves the tag store as it was.
            have unchanged : tags = s.tags := by
              rw [FaLru.accessBlock, looked] at accessed
              cases accessed
              rfl
            subst unchanged
            obtain ⟨given, middle, i, allocated, result⟩ := FaCache.takeWriteback_none written
            refine .inr (.inr ⟨findMatch, pkt.addr, middle, given, i, looked, allocated, result,
              rfl, ?_⟩)
            simp [AllocatesZero, looked]
  | invalidate addr =>
    simp only [step] at taken
    cases looked : s.tags.findBlock config addr with
    | error e => simp [looked] at taken
    | ok found =>
      simp only [looked] at taken
      cases found with
      | none =>
        cases taken
        exact .inl ⟨trivial, rfl, fun _ => ⟨rfl, rfl⟩, rfl⟩
      | some i =>
        cases taken
        exact .inr (.inl ⟨trivial, i, rfl⟩)

theorem OnlyZero.step {op : FaCacheOp} (zero : OnlyZero s) (allowed : AllocatesZero config s op)
    (taken : step config s op = some t) : OnlyZero t := by
  obtain ⟨-, quiet⟩ | ⟨-, i, rfl⟩ | ⟨findMatch, addr, middle, given, i, missed, allocated, result,
    filled, exactly⟩ := step_cases taken
  · exact zero.quiet quiet
  · exact zero.dropped i
  · exact zero.allocated (exactly.mp allowed) missed allocated result filled

end FilledCache

end GemDroid
