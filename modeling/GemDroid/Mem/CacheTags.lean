import GemDroid.Lib.Outcome
import GemDroid.Mem.Cache
import GemDroid.Mem.LruRun

/-! The copies that a cache holds, and what its functions make of them. -/

namespace GemDroid

open Function (update update_eq_self update_of_ne update_self)

open Outcome

namespace Cache

variable {config : CacheConfig} {c d : Cache} {ptr : BlkPtr} {addr : Addr} {isSecure : Bool}

/-- What the blocks of a cache keep between its functions. -/
structure WF (config : CacheConfig) (c : Cache) : Prop where
  tags : c.tags.WF config.toLruConfig
  /-- A block that is not valid has no status. -/
  zero : ∀ p, (c.tags.blks p).isValid = false → (c.tags.blks p).status = .zero
  /-- A valid block holds the tag of an address of its set. -/
  home : ∀ p, (c.tags.blks p).isValid = true →
    ∃ a, config.extractTag a = (c.tags.blks p).tag ∧ config.extractSet a = p.set

theorem start_wf (config : CacheConfig) (raw : BlkPtr → Nat → UInt8) :
    WF config (start config raw) where
  tags := Lru.start_wf _ _
  zero := fun _ _ => rfl
  home := fun _ valid => absurd valid Bool.false_ne_true

/-- The copy of the block around an address in a security state. -/
def copy (config : CacheConfig) (c : Cache) (addr : Addr) (isSecure : Bool) : Option CacheBlk :=
  (c.tags.findBlock config.toLruConfig addr isSecure).map c.tags.blks

/-- Whether a block in a place is a copy of the block around an address. -/
def HoldsAt (config : CacheConfig) (ptr : BlkPtr) (blk : CacheBlk) (addr : Addr)
    (isSecure : Bool) : Prop :=
  config.extractSet addr = ptr.set ∧ Lru.holds (config.extractTag addr) isSecure blk = true

theorem findBlock_eq_some_iff (wf : WF config c) :
    c.tags.findBlock config.toLruConfig addr isSecure = some ptr ↔
      ptr.way < config.assoc ∧ HoldsAt config ptr (c.tags.blks ptr) addr isSecure := by
  rw [wf.tags.findBlock_eq_some_iff, LruConfig.mem_ways]
  constructor
  · rintro ⟨⟨set, way⟩, holds⟩
    exact ⟨way, set.symm, holds⟩
  · rintro ⟨way, set, holds⟩
    exact ⟨⟨set.symm, way⟩, holds⟩

theorem copy_eq_some_iff (wf : WF config c) {blk : CacheBlk} :
    copy config c addr isSecure = some blk ↔
      ∃ ptr, ptr.way < config.assoc ∧ HoldsAt config ptr (c.tags.blks ptr) addr isSecure ∧
        c.tags.blks ptr = blk := by
  rw [copy, Option.map_eq_some_iff]
  exact exists_congr fun ptr => by rw [findBlock_eq_some_iff wf, and_assoc]

theorem copy_eq_none_iff (wf : WF config c) :
    copy config c addr isSecure = none ↔
      ∀ ptr, ptr.way < config.assoc → ¬ HoldsAt config ptr (c.tags.blks ptr) addr isSecure := by
  rw [copy, Option.map_eq_none_iff, Option.eq_none_iff_forall_ne_some]
  refine forall_congr' fun ptr => ?_
  rw [ne_eq, findBlock_eq_some_iff wf, not_and]

theorem copy_congr {other : Addr} (same : config.blkAlign addr = config.blkAlign other) :
    copy config c addr isSecure = copy config c other isSecure := by
  obtain ⟨tag, set⟩ := (LruConfig.blkAlign_eq_iff addr other).mp same
  simp only [copy, Lru.findBlock, tag, set]

/-- What the copies are once one block has been rewritten. -/
theorem copy_update (wf : WF config c) (wfd : WF config d) {blk : CacheBlk}
    (rewritten : d.tags.blks = update c.tags.blks ptr blk)
    (way : ptr.way < config.assoc) (addr : Addr) (isSecure : Bool) :
    (HoldsAt config ptr blk addr isSecure → copy config d addr isSecure = some blk) ∧
      (¬ HoldsAt config ptr blk addr isSecure →
        (HoldsAt config ptr (c.tags.blks ptr) addr isSecure →
          copy config d addr isSecure = none) ∧
        (¬ HoldsAt config ptr (c.tags.blks ptr) addr isSecure →
          copy config d addr isSecure = copy config c addr isSecure)) := by
  have here : d.tags.blks ptr = blk := by rw [rewritten, update_self]
  have there : ∀ p, p ≠ ptr → d.tags.blks p = c.tags.blks p :=
    fun p other => by rw [rewritten, update_of_ne other]
  refine ⟨fun holds => ?_, fun unheld => ⟨fun held => ?_, fun never => ?_⟩⟩
  · exact (copy_eq_some_iff wfd).mpr ⟨ptr, way, here ▸ holds, here⟩
  · -- The block was the copy, and no other block can be one.
    refine (copy_eq_none_iff wfd).mpr fun p inside also => ?_
    by_cases same : p = ptr
    · rw [same, here] at also
      exact unheld also
    · rw [there p same] at also
      have first := (findBlock_eq_some_iff wf).mpr ⟨inside, also⟩
      have second := (findBlock_eq_some_iff wf).mpr ⟨way, held⟩
      exact same (Option.some.inj (first.symm.trans second))
  · cases copied : copy config c addr isSecure with
    | some old =>
      obtain ⟨p, inside, holds, rfl⟩ := (copy_eq_some_iff wf).mp copied
      have other : p ≠ ptr := by
        rintro rfl
        exact never holds
      exact (copy_eq_some_iff wfd).mpr ⟨p, inside, there p other ▸ holds, there p other⟩
    | none =>
      refine (copy_eq_none_iff wfd).mpr fun p inside also => ?_
      by_cases same : p = ptr
      · rw [same, here] at also
        exact unheld also
      · rw [there p same] at also
        exact (copy_eq_none_iff wf).mp copied p inside also

theorem WF.reorder (wf : WF config c) (tags : d.tags.WF config.toLruConfig)
    (same : d.tags.blks = c.tags.blks) : WF config d where
  tags := tags
  zero := fun p => by
    rw [same]
    exact wf.zero p
  home := fun p => by
    rw [same]
    exact wf.home p

theorem copy_reorder (wf : WF config c) (wfd : WF config d) (same : d.tags.blks = c.tags.blks)
    (addr : Addr) (isSecure : Bool) :
    copy config d addr isSecure = copy config c addr isSecure := by
  cases copied : copy config c addr isSecure with
  | some old =>
    obtain ⟨p, inside, holds, rfl⟩ := (copy_eq_some_iff wf).mp copied
    exact (copy_eq_some_iff wfd).mpr ⟨p, inside, same ▸ holds, by rw [same]⟩
  | none =>
    refine (copy_eq_none_iff wfd).mpr fun p inside also => ?_
    rw [same] at also
    exact (copy_eq_none_iff wf).mp copied p inside also

theorem WF.clearLocks (wf : WF config c) : WF config { c with tags := c.tags.clearLocks } :=
  ⟨⟨wf.tags.perm, wf.tags.unique, wf.tags.blank⟩, wf.zero, wf.home⟩

theorem accessBlock_ok (wf : WF config c) (addr : Addr) (isSecure : Bool) :
    ∃ tags, c.tags.accessBlock config.toLruConfig addr isSecure =
        .ok (tags, c.tags.findBlock config.toLruConfig addr isSecure) ∧
      tags.blks = c.tags.blks ∧ WF config { c with tags := tags } := by
  cases found : c.tags.findBlock config.toLruConfig addr isSecure with
  | none =>
    exact ⟨c.tags, Lru.accessBlock_miss found, rfl, wf⟩
  | some ptr =>
    refine ⟨_, wf.tags.accessBlock_hit found, rfl, ?_⟩
    have inside : ptr ∈ c.tags.sets (config.extractSet addr) :=
      (wf.tags.perm _).mem_iff.mpr (wf.tags.findBlock_eq_some_iff.mp found).1
    exact wf.reorder (d := { c with tags := _ })
      (wf.tags.setOrder (List.perm_cons_erase inside).symm) rfl

theorem WF.setBlk (wf : WF config c) {blk : CacheBlk} (tag : blk.tag = (c.tags.blks ptr).tag)
    (valid : (c.tags.blks ptr).isValid = true) (still : blk.isValid = true)
    (secure : blk.isSecure = (c.tags.blks ptr).isSecure) :
    WF config (c.setBlk (.stored ptr) blk) := by
  have blks : (c.setBlk (.stored ptr) blk).tags.blks = update c.tags.blks ptr blk := rfl
  refine ⟨wf.tags.setBlk_same tag (still.trans valid.symm) secure, fun p invalid => ?_,
    fun p good => ?_⟩
  · rw [blks] at invalid ⊢
    by_cases same : p = ptr
    · subst same
      rw [update_self, still] at invalid
      exact absurd invalid Bool.noConfusion
    · rw [update_of_ne same] at invalid ⊢
      exact wf.zero p invalid
  · rw [blks] at good ⊢
    by_cases same : p = ptr
    · subst same
      rw [update_self, tag]
      exact wf.home p valid
    · rw [update_of_ne same] at good ⊢
      exact wf.home p good

theorem WF.invalidate (wf : WF config c) (valid : (c.tags.blks ptr).isValid = true)
    (way : ptr.way < config.assoc) :
    ∃ d, c.invalidate (.stored ptr) = .ok d ∧ WF config d ∧ d.tempBlock = c.tempBlock ∧
      d.tags.blks = update c.tags.blks ptr (c.tags.blks ptr).invalidate := by
  have inside : ptr ∈ c.tags.sets ptr.set := wf.tags.mem_sets.mpr ⟨rfl, way⟩
  have perm : ((c.tags.sets ptr.set).erase ptr ++ [ptr]).Perm (c.tags.sets ptr.set) :=
    (List.perm_append_singleton ptr _).trans (List.perm_cons_erase inside).symm
  have ordered := wf.tags.setOrder perm
  let order := (c.tags.sets ptr.set).erase ptr ++ [ptr]
  refine ⟨{ c with
    tags := (c.tags.setOrder ptr.set order).setBlk ptr (c.tags.blks ptr).invalidate },
    ?_, ?_, rfl, rfl⟩
  · simp only [Cache.invalidate, wf.tags.invalidate_ok valid way]
    rfl
  refine ⟨ordered.setBlk_clear rfl rfl, fun p invalid => ?_, fun p good => ?_⟩
  · by_cases same : p = ptr
    · subst same
      simp [Lru.setBlk, CacheBlk.invalidate]
    · simp only [Lru.setBlk, update_of_ne same] at invalid ⊢
      exact wf.zero p invalid
  · by_cases same : p = ptr
    · subst same
      simp [Lru.setBlk] at good
    · simp only [Lru.setBlk, update_of_ne same] at good ⊢
      exact wf.home p good

/-- A rewritten block is still the copy of the same address. -/
def Kept (blk after : CacheBlk) : Prop :=
  after.tag = blk.tag ∧ after.isValid = blk.isValid ∧ after.isSecure = blk.isSecure

theorem cmpAndSwap_keeps (pkt : Packet) (blk : CacheBlk) :
    Ends Any (cmpAndSwap config pkt blk) fun result => Kept blk result.2 := by
  unfold cmpAndSwap
  dsimp only
  split
  · trivial
  · split
    · trivial
    · rw [ends_ok]
      split <;> exact ⟨rfl, rfl, rfl⟩

theorem checkWrite_keeps (pkt : Packet) (blk : CacheBlk) : Kept blk (blk.checkWrite pkt).1 := by
  unfold CacheBlk.checkWrite
  split <;> exact ⟨rfl, rfl, rfl⟩

theorem satisfy_keeps (deferred_response pending_downgrade : Bool) (pkt : Packet)
    (blk : CacheBlk) :
    Ends Any (satisfy config deferred_response pending_downgrade pkt blk) fun result =>
      Kept blk result.2.1 := by
  unfold satisfy
  split
  · simp only [ends_bind, ends_pure]
    exact (cmpAndSwap_keeps pkt blk).mono fun _ kept => kept
  · split
    · have kept := checkWrite_keeps pkt blk
      generalize blk.checkWrite pkt = result at kept ⊢
      obtain ⟨after, answer, allowed⟩ := result
      dsimp only
      split <;> exact kept
    · split
      · dsimp only
        unfold supplyBlock
        repeat' split
        all_goals exact ⟨rfl, rfl, rfl⟩
      · split
        · exact ⟨rfl, rfl, rfl⟩
        · trivial

/-- A request that can be satisfied from a valid block is. -/
theorem WF.satisfyCpuSideRequest (wf : WF config c) (valid : (c.tags.blks ptr).isValid = true)
    (way : ptr.way < config.assoc) {deferred_response pending_downgrade gone : Bool}
    {pkt answer : Packet} {blk : CacheBlk}
    (inside : pkt.getOffset config.blkSize + pkt.size ≤ config.blkSize)
    (satisfied : satisfy config deferred_response pending_downgrade pkt (c.tags.blks ptr) =
      .ok (answer, blk, gone)) :
    ∃ d, satisfyCpuSideRequest config deferred_response pending_downgrade pkt (.stored ptr) c =
        .ok (answer, d) ∧ WF config d ∧ d.tempBlock = c.tempBlock ∧
      d.tags.blks = update c.tags.blks ptr (if gone then blk.invalidate else blk) := by
  obtain ⟨tag, still, secure⟩ := (satisfy_keeps _ _ pkt _).of_ok satisfied
  have rewritten : WF config (c.setBlk (.stored ptr) blk) :=
    wf.setBlk tag valid (still.trans valid) secure
  have head : Cache.satisfyCpuSideRequest config deferred_response pending_downgrade pkt
      (.stored ptr) c = (if gone then do
        let c ← (c.setBlk (.stored ptr) blk).invalidate (.stored ptr)
        return (answer, c)
      else .ok (answer, c.setBlk (.stored ptr) blk)) := by
    simp only [Cache.satisfyCpuSideRequest, Cache.blk, valid, Bool.not_true, Bool.false_eq_true,
      if_false, show ¬ config.blkSize < pkt.getOffset config.blkSize + pkt.size by omega,
      reduceCtorEq, decide_false, Bool.and_false, satisfied]
    rfl
  rw [head]
  cases gone with
  | false => exact ⟨_, rfl, rewritten, rfl, rfl⟩
  | true =>
    have here : (c.setBlk (.stored ptr) blk).tags.blks ptr = blk := by
      simp [Cache.setBlk, Lru.setBlk]
    have present : ((c.setBlk (.stored ptr) blk).tags.blks ptr).isValid = true := by
      rw [here, still, valid]
    obtain ⟨d, dropped, wfd, temp, blks⟩ := rewritten.invalidate present way
    refine ⟨d, by simp only [if_true, dropped]; rfl, wfd, temp, ?_⟩
    rw [blks, here]
    simp [Cache.setBlk, Lru.setBlk]

/-- The packets that make place for a block: its place is written back if it is dirty. -/
def evicted (config : CacheConfig) (c : Cache) (ptr : BlkPtr) : List Packet :=
  if (c.tags.blks ptr).isValid && (c.tags.blks ptr).isDirty then
    [writebackPacket config ptr.set (c.tags.blks ptr)]
  else []

/-- The place for a new block, if no request is outstanding for what is there. -/
theorem WF.allocateBlock (wf : WF config c) {findMatch : Addr → Bool → Option Mshr} {addr : Addr}
    (writebacks : List Packet)
    (free : ∀ ptr, c.tags.findVictim config.toLruConfig addr = .ok ptr →
      (c.tags.blks ptr).isValid = true →
      findMatch (config.regenerateBlkAddr (c.tags.blks ptr).tag ptr.set)
        (c.tags.blks ptr).isSecure = none) :
    ∃ ptr ∈ config.ways (config.extractSet addr), ∃ d,
      c.tags.findVictim config.toLruConfig addr = .ok ptr ∧
      allocateBlock config findMatch addr writebacks c =
        .ok (some (.stored ptr), writebacks ++ evicted config c ptr, d) ∧
      WF config d ∧ d.tempBlock = c.tempBlock ∧ d.tags.sets = c.tags.sets ∧
      d.tags.blks = update c.tags.blks ptr (if (c.tags.blks ptr).isValid then
        (c.tags.blks ptr).mapStatus fun status => { status with dirty := false }
      else c.tags.blks ptr) := by
  obtain ⟨ptr, victim, -, member⟩ := wf.tags.findVictim_ok addr
  refine ⟨ptr, member, ?_⟩
  cases valid : (c.tags.blks ptr).isValid with
  | false =>
    refine ⟨c, victim, ?_, wf, rfl, rfl, by simp⟩
    simp [Cache.allocateBlock, evicted, victim, valid, Bind.bind, Except.bind]
  | true =>
    have none := free ptr victim valid
    cases dirty : (c.tags.blks ptr).isDirty with
    | false =>
      refine ⟨c, victim, ?_, wf, rfl, rfl, ?_⟩
      · simp [Cache.allocateBlock, evicted, victim, valid, none, dirty, Bind.bind, Except.bind]
      · have clean : (c.tags.blks ptr).mapStatus (fun status => { status with dirty := false }) =
            c.tags.blks ptr := by
          simp only [CacheBlk.isDirty] at dirty
          simp [CacheBlk.mapStatus, ← dirty]
        rw [if_pos rfl, clean, update_eq_self]
    | true =>
      refine ⟨c.setBlk (.stored ptr) ((c.tags.blks ptr).mapStatus fun status =>
        { status with dirty := false }), victim, ?_, wf.setBlk rfl valid valid rfl, rfl, rfl, rfl⟩
      simp [Cache.allocateBlock, evicted, victim, valid, none, dirty, writebackBlk, Cache.blk,
        blkSet, Bind.bind, Except.bind]

theorem allocateBlock_pending {findMatch : Addr → Bool → Option Mshr} {addr : Addr}
    (writebacks : List Packet) {mshr : Mshr}
    (victim : c.tags.findVictim config.toLruConfig addr = .ok ptr)
    (valid : (c.tags.blks ptr).isValid = true)
    (pending : findMatch (config.regenerateBlkAddr (c.tags.blks ptr).tag ptr.set)
      (c.tags.blks ptr).isSecure = some mshr) :
    Ends Any (allocateBlock config findMatch addr writebacks c) fun result =>
      result = (none, writebacks, c) := by
  simp only [Cache.allocateBlock, victim, ends_bind, ends_ok, valid, if_true, pending]
  split
  · trivial
  · split
    · trivial
    · rfl

/-- The block that a fill leaves where another one was. -/
def newBlk (config : CacheConfig) (pkt : Packet) (old : CacheBlk) : CacheBlk :=
  { tag := config.extractTag pkt.addr
    status :=
      { valid := true, readable := true, writable := !pkt.shared,
        dirty := !pkt.shared && pkt.memInhibit, hwPrefetched := false, secure := pkt.isSecure }
    data := if pkt.cmd.isRead then pkt.data else old.data
    lockList := if old.isValid then [] else old.lockList }

/-- A block of the set may be given to an address that has no copy. -/
theorem WF.insert (wf : WF config c) {blk : CacheBlk}
    (missing : c.tags.findBlock config.toLruConfig addr isSecure = none)
    (member : ptr ∈ config.ways (config.extractSet addr))
    (holding : Lru.holds (config.extractTag addr) isSecure blk = true)
    (blks : d.tags.blks = update c.tags.blks ptr blk)
    (sets : d.tags.sets = update c.tags.sets (config.extractSet addr)
      (ptr :: (c.tags.sets (config.extractSet addr)).erase ptr)) : WF config d := by
  obtain ⟨tag, valid, -⟩ := Lru.holds_iff.mp holding
  have inside : ptr ∈ c.tags.sets (config.extractSet addr) := (wf.tags.perm _).mem_iff.mpr member
  have whole : d.tags = (c.tags.setBlk ptr blk).setOrder (config.extractSet addr)
      (ptr :: (c.tags.sets (config.extractSet addr)).erase ptr) := by
    cases shape : d.tags with
    | mk blks' sets' =>
      rw [shape] at blks sets
      simp only at blks sets
      rw [blks, sets]
      rfl
  refine ⟨?_, fun p invalid => ?_, fun p good => ?_⟩
  · rw [whole]
    exact (wf.tags.setBlk_insert missing member holding).setOrder
      (List.perm_cons_erase inside).symm
  · rw [blks] at invalid ⊢
    by_cases same : p = ptr
    · rw [same, update_self, valid] at invalid
      exact absurd invalid Bool.noConfusion
    · rw [update_of_ne same] at invalid ⊢
      exact wf.zero p invalid
  · rw [blks] at good ⊢
    by_cases same : p = ptr
    · rw [same, update_self]
      exact ⟨addr, tag.symm, (LruConfig.mem_ways.mp member).1.symm⟩
    · rw [update_of_ne same] at good ⊢
      exact wf.home p good

theorem placed_of_valid {blk : CacheBlk} (valid : blk.isValid = true) :
    Lru.placed config.toLruConfig addr isSecure blk =
      { tag := config.extractTag addr, status := { BlkStatus.zero with secure := isSecure },
        data := blk.data, lockList := [] } := by
  simp [Lru.placed, valid, CacheBlk.invalidate, BlkStatus.zero]

theorem filled_placed (wf : WF config c) (pkt : Packet) :
    filled pkt (Lru.placed config.toLruConfig pkt.addr pkt.isSecure
      (if (c.tags.blks ptr).isValid then
        (c.tags.blks ptr).mapStatus fun status => { status with dirty := false }
      else c.tags.blks ptr)) = newBlk config pkt (c.tags.blks ptr) := by
  cases valid : (c.tags.blks ptr).isValid with
  | true =>
    have still : ((c.tags.blks ptr).mapStatus fun status =>
        { status with dirty := false }).isValid = true := valid
    rw [if_pos rfl, placed_of_valid still]
    simp [filled, newBlk, valid, CacheBlk.mapStatus, BlkStatus.zero]
  | false =>
    have zero := wf.zero ptr valid
    simp [filled, Lru.placed, newBlk, valid, zero, BlkStatus.zero]

/-- A fill for an address without a copy takes the place of the last block of the set. -/
theorem WF.handleFill_miss (wf : WF config c) (findMatch : Addr → Bool → Option Mshr)
    {pkt : Packet} (brings : pkt.cmd.hasData = true)
    (missing : c.tags.findBlock config.toLruConfig pkt.addr pkt.isSecure = none)
    (writebacks : List Packet)
    (free : ∀ ptr, c.tags.findVictim config.toLruConfig pkt.addr = .ok ptr →
      (c.tags.blks ptr).isValid = true →
      findMatch (config.regenerateBlkAddr (c.tags.blks ptr).tag ptr.set)
        (c.tags.blks ptr).isSecure = none) :
    ∃ ptr ∈ config.ways (config.extractSet pkt.addr), ∃ d,
      c.tags.findVictim config.toLruConfig pkt.addr = .ok ptr ∧
      handleFill config findMatch pkt none writebacks c =
        .ok (.stored ptr, writebacks ++ evicted config c ptr, d) ∧
      WF config d ∧ d.tempBlock = c.tempBlock ∧
      d.tags.blks =
        update c.tags.blks ptr (newBlk config pkt (c.tags.blks ptr)) := by
  obtain ⟨ptr, member, e, victim, allocated, wfe, temp, sets, blks⟩ :=
    wf.allocateBlock writebacks free
  refine ⟨ptr, member, ?_⟩
  have inserted := wfe.tags.insertBlock_ok member pkt.isSecure
  have here : e.tags.blks ptr = (if (c.tags.blks ptr).isValid then
      (c.tags.blks ptr).mapStatus fun status => { status with dirty := false }
      else c.tags.blks ptr) := by rw [blks, update_self]
  let d : Cache := { e with tags := ((e.tags.setBlk ptr (Lru.placed config.toLruConfig pkt.addr
    pkt.isSecure (e.tags.blks ptr))).setOrder (config.extractSet pkt.addr)
      (ptr :: (e.tags.sets (config.extractSet pkt.addr)).erase ptr)) }
  -- The block that made place is invalid when the data comes.
  have placed : d.tags.blks ptr = Lru.placed config.toLruConfig pkt.addr pkt.isSecure
      (e.tags.blks ptr) := by
    simp [d, Lru.setBlk, Lru.setOrder]
  have invalid : (d.tags.blks ptr).isValid = false := by
    rw [placed]
    simp only [Lru.placed]
    split
    · rfl
    case isFalse off => simpa [CacheBlk.isValid] using off
  have final : ((d.setBlk (.stored ptr) (filled pkt (d.tags.blks ptr))).tags).blks =
      update c.tags.blks ptr (newBlk config pkt (c.tags.blks ptr)) := by
    rw [placed, here, filled_placed wf]
    simp [d, Cache.setBlk, Lru.setBlk, Lru.setOrder, blks]
  refine ⟨d.setBlk (.stored ptr) (filled pkt (d.tags.blks ptr)), victim, ?_, ?_, temp, final⟩
  · have given : insertBlock config pkt (.stored ptr) e = .ok d := by
      simp only [insertBlock, inserted]
      rfl
    have off : (d.blk (.stored ptr)).isValid = false := invalid
    simp only [handleFill, fillPlace, brings, Bool.not_true, Bool.false_eq_true, if_false,
      allocated, given, off, Bind.bind, Except.bind, pure, Except.pure]
    rfl
  · refine wf.insert missing member ?_ final ?_
    · rw [Lru.holds_iff]
      exact ⟨rfl, rfl, rfl⟩
    · simp [d, Cache.setBlk, Lru.setBlk, Lru.setOrder, sets]

theorem WF.handleFill_hit (wf : WF config c) (findMatch : Addr → Bool → Option Mshr)
    {pkt : Packet} (found : c.tags.findBlock config.toLruConfig pkt.addr pkt.isSecure = some ptr)
    (writebacks : List Packet) :
    ∃ d, handleFill config findMatch pkt (some (.stored ptr)) writebacks c =
        .ok (.stored ptr, writebacks, d) ∧ WF config d ∧ d.tempBlock = c.tempBlock ∧
      d.tags.blks = update c.tags.blks ptr (filled pkt (c.tags.blks ptr)) := by
  obtain ⟨way, set, holds⟩ := (findBlock_eq_some_iff wf).mp found
  obtain ⟨tag, valid, secure⟩ := Lru.holds_iff.mp holds
  refine ⟨c.setBlk (.stored ptr) (filled pkt (c.tags.blks ptr)), ?_, ?_, rfl, rfl⟩
  · simp [handleFill, fillPlace, Cache.blk, tag, valid, Bind.bind, Except.bind, pure, Except.pure]
  · refine wf.setBlk rfl valid rfl ?_
    simp only [filled, CacheBlk.isSecure] at secure ⊢
    rw [secure, Bool.or_self]

/-- The block that a writeback from above leaves where another one was. -/
def writtenBlk (config : CacheConfig) (pkt : Packet) (old : CacheBlk) : CacheBlk :=
  { tag := config.extractTag pkt.addr
    status :=
      { valid := true, readable := true, writable := pkt.supplyExclusive, dirty := true,
        hwPrefetched := false, secure := false }
    data := pkt.data
    lockList := if old.isValid then [] else old.lockList }

/-- A writeback without a copy here takes the place of the last block of its set. -/
theorem WF.takeWriteback_miss (wf : WF config c) (findMatch : Addr → Bool → Option Mshr)
    {pkt : Packet} (is_writeback : pkt.cmd = .writeback) (size : pkt.size = config.blkSize)
    (missing : c.tags.findBlock config.toLruConfig pkt.addr pkt.isSecure = none)
    (free : ∀ ptr, c.tags.findVictim config.toLruConfig pkt.addr = .ok ptr →
      (c.tags.blks ptr).isValid = true →
      findMatch (config.regenerateBlkAddr (c.tags.blks ptr).tag ptr.set)
        (c.tags.blks ptr).isSecure = none) :
    ∃ ptr ∈ config.ways (config.extractSet pkt.addr), ∃ d,
      c.tags.findVictim config.toLruConfig pkt.addr = .ok ptr ∧
      takeWriteback config findMatch pkt none c =
        .ok ⟨true, pkt, some (.stored ptr), evicted config c ptr, [], d⟩ ∧
      (pkt.isSecure = false → WF config d) ∧ d.tempBlock = c.tempBlock ∧
      d.tags.blks =
        update c.tags.blks ptr (writtenBlk config pkt (c.tags.blks ptr)) := by
  obtain ⟨ptr, member, e, victim, allocated, wfe, temp, sets, blks⟩ := wf.allocateBlock [] free
  refine ⟨ptr, member, ?_⟩
  have inserted := wfe.tags.insertBlock_ok member pkt.isSecure
  let d : Cache := { e with tags := ((e.tags.setBlk ptr (Lru.placed config.toLruConfig pkt.addr
    pkt.isSecure (e.tags.blks ptr))).setOrder (config.extractSet pkt.addr)
      (ptr :: (e.tags.sets (config.extractSet pkt.addr)).erase ptr)) }
  have given : insertBlock config pkt (.stored ptr) e = .ok d := by
    simp only [insertBlock, inserted]
    rfl
  have locks : (d.tags.blks ptr).lockList =
      if (c.tags.blks ptr).isValid then [] else (c.tags.blks ptr).lockList := by
    have here : d.tags.blks ptr = Lru.placed config.toLruConfig pkt.addr pkt.isSecure
        (e.tags.blks ptr) := by
      simp [d, Lru.setBlk, Lru.setOrder]
    rw [here, blks, update_self]
    cases valid : (c.tags.blks ptr).isValid with
    | true =>
      have still : ((c.tags.blks ptr).mapStatus fun status =>
          { status with dirty := false }).isValid = true := valid
      rw [if_pos rfl, placed_of_valid still]
      rfl
    | false => simp [Lru.placed, valid]
  let f : Cache := d.setBlk (.stored ptr) (writtenBlk config pkt (c.tags.blks ptr))
  have tag : (d.tags.blks ptr).tag = config.extractTag pkt.addr := by
    simp [d, Lru.setBlk, Lru.setOrder, Lru.placed]
  have final : f.tags.blks =
      update c.tags.blks ptr (writtenBlk config pkt (c.tags.blks ptr)) := by
    simp [f, d, Cache.setBlk, Lru.setBlk, Lru.setOrder, blks]
  refine ⟨f, victim, ?_, fun insecure => ?_, temp, final⟩
  · have answered : pkt.cmd.needsResponse = false := by
      rw [is_writeback]
      rfl
    simp only [takeWriteback, size, ne_eq, not_true_eq_false, if_false, allocated, given,
      Bind.bind, Except.bind, answered, Bool.false_eq_true, List.nil_append]
    simp [f, Cache.setBlk, Lru.setBlk, Cache.blk, writtenBlk, BlkStatus.zero, tag, locks, pure,
      Except.pure]
  · refine wf.insert missing member ?_ final ?_
    · rw [Lru.holds_iff, insecure]
      exact ⟨rfl, rfl, rfl⟩
    · simp [f, d, Cache.setBlk, Lru.setBlk, Lru.setOrder, sets]

end Cache

end GemDroid
