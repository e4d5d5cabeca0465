import GemDroid.Lib.Align
import GemDroid.Lib.Ownership
import GemDroid.Mem.Atomic
import GemDroid.Mem.CacheTags

/-! What an atomic access or a snoop makes of the copies of one cache. -/

namespace GemDroid

open Align

namespace MemCmd

/-- The commands that a cache sends for a block it needs. -/
def isFetch (cmd : MemCmd) : Bool :=
  cmd == .readReq || cmd == .readExReq || cmd == .upgradeReq || cmd == .scUpgradeReq

theorem isFetch_facts {cmd : MemCmd} (fetch : cmd.isFetch = true) :
    cmd.isRequest = true ∧ cmd.needsResponse = true ∧ cmd.isResponse = false ∧
      cmd ≠ .hardPFReq ∧ (cmd.isRead && !cmd.isInvalidate) = !cmd.isInvalidate ∧
      (!cmd.isInvalidate && cmd.needsExclusive) = false ∧ cmd ≠ .writeback ∧
      cmd.responseCommand.isResponse = true ∧ cmd.responseCommand ≠ cmd ∧
      cmd.responseCommand ≠ .invalidCmd := by
  simp only [isFetch, Bool.or_eq_true, beq_iff_eq] at fetch
  rcases fetch with ((rfl | rfl) | rfl) | rfl <;> decide

end MemCmd

/-- The bytes of the block at an address. -/
abbrev Block (n : Nat) (b : Addr) : Type :=
  { a : Addr // align n a = b } → UInt8

/-- The data of a block as the bytes at its addresses. -/
def contents (n : Nat) (b : Addr) (data : Nat → UInt8) : Block n b :=
  fun a => data (offset n a.1)

/-- What the owner of a block is known by. -/
def CacheBlk.toCopy (n : Nat) (b : Addr) (blk : CacheBlk) : Ownership.Copy (Block n b) :=
  { writable := blk.isWritable, dirty := blk.isDirty, value := contents n b blk.data }

namespace Packet

/-- A packet for a whole block. -/
structure ForBlock (n : Nat) (b : Addr) (flag : Bool) (pkt : Packet) : Prop where
  aligned : align n b = b
  addr : pkt.addr = b
  size : pkt.size = n
  isSecure : pkt.isSecure = flag
  cacheable : pkt.req.isUncacheable = false
  reqAddr : align n pkt.req.paddr = b
  reqSecure : pkt.req.isSecure = flag

end Packet

namespace LruConfig

theorem blkAlign_eq (config : LruConfig) (addr : Addr) :
    config.blkAlign addr = align config.blkSize addr := rfl

end LruConfig

namespace Cache

variable {config : CacheConfig} {c d : Cache} {b : Addr} {isSecure : Bool}

/-- One copy was changed or dropped, and all others are as they were. -/
structure Replaced (config : CacheConfig) (c d : Cache) (b : Addr) (isSecure : Bool)
    (blk : Option CacheBlk) : Prop where
  wf : WF config d
  here : copy config d b isSecure = blk
  others : ∀ a flag, ¬ (config.blkAlign a = config.blkAlign b ∧ flag = isSecure) →
    copy config d a flag = copy config c a flag

variable {blk : CacheBlk}

theorem HoldsAt.same {ptr : BlkPtr} {a : Addr} {flag : Bool}
    (first : HoldsAt config ptr blk b isSecure) (second : HoldsAt config ptr blk a flag) :
    config.blkAlign a = config.blkAlign b ∧ flag = isSecure := by
  obtain ⟨set, tag, -, secure⟩ := first.imp_right Lru.holds_iff.mp
  obtain ⟨set', tag', -, secure'⟩ := second.imp_right Lru.holds_iff.mp
  refine ⟨?_, secure'.symm.trans secure⟩
  rw [LruConfig.blkAlign_eq_iff]
  exact ⟨tag'.symm.trans tag, set'.trans set.symm⟩

theorem replaced_of_update (wf : WF config c) (wfd : WF config d) {ptr : BlkPtr}
    (found : c.tags.findBlock config.toLruConfig b isSecure = some ptr)
    (blks : d.tags.blks = Function.update c.tags.blks ptr blk)
    (kept : blk.isValid = true → blk.tag = (c.tags.blks ptr).tag ∧
      blk.isSecure = (c.tags.blks ptr).isSecure) :
    Replaced config c d b isSecure (if blk.isValid then some blk else none) := by
  obtain ⟨way, holds⟩ := (findBlock_eq_some_iff wf).mp found
  obtain ⟨tag, valid, secure⟩ := Lru.holds_iff.mp holds.2
  have moved := copy_update wf wfd blks way
  -- A valid block holds what it held before, and an invalid one nothing.
  have still : ∀ a flag, HoldsAt config ptr blk a flag ↔
      blk.isValid = true ∧ HoldsAt config ptr (c.tags.blks ptr) a flag := by
    intro a flag
    simp only [HoldsAt, Lru.holds_iff, valid]
    constructor
    · rintro ⟨set, tags, good, flags⟩
      obtain ⟨sametag, samesec⟩ := kept good
      exact ⟨good, set, sametag.symm.trans tags, trivial, samesec.symm.trans flags⟩
    · rintro ⟨good, set, tags, -, flags⟩
      obtain ⟨sametag, samesec⟩ := kept good
      exact ⟨set, sametag.trans tags, good, samesec.trans flags⟩
  refine ⟨wfd, ?_, fun a flag other => ?_⟩
  · split
    case isTrue good => exact (moved b isSecure).1 ((still b isSecure).mpr ⟨good, holds⟩)
    case isFalse bad =>
      exact ((moved b isSecure).2 fun again => bad ((still b isSecure).mp again).1).1 holds
  · have unheld : ¬ HoldsAt config ptr (c.tags.blks ptr) a flag :=
      fun also => other (holds.same also)
    exact ((moved a flag).2 fun again => unheld ((still a flag).mp again).2).2 unheld

/-- What a snoop leaves of a copy: a read leaves it shared, and all others take it away. -/
def snooped (invalidate : Bool) (held : Option CacheBlk) : Option CacheBlk :=
  if invalidate then none
  else held.map (CacheBlk.mapStatus fun status => { status with writable := false })

/-- What a snoop makes of its packet, given the copy it meets. -/
structure SnoopAnswer (pkt answer : Packet) (held : Option CacheBlk) : Prop where
  req : answer.req = pkt.req
  addr : answer.addr = pkt.addr
  isSecure : answer.isSecure = pkt.isSecure
  size : answer.size = pkt.size
  shared : answer.shared = (pkt.shared || (!pkt.cmd.isInvalidate && held.isSome))
  owner : ∀ blk, held = some blk → blk.isDirty = true →
    answer.cmd = pkt.cmd.responseCommand ∧ answer.memInhibit = true ∧
      ∀ k < pkt.size, answer.data k = blk.data k
  passed : (∀ blk, held = some blk → blk.isDirty = false) →
    answer.cmd = pkt.cmd ∧ answer.memInhibit = pkt.memInhibit ∧ answer.data = pkt.data

/-- A snoop that meets a copy. -/
theorem snoopBlk_ok {pkt : Packet} (fetch : pkt.cmd.isFetch = true)
    (aligned : pkt.getOffset config.blkSize = 0)
    (free : blk.isDirty = true → pkt.memInhibit = false) :
    ∃ answer, snoopBlk config pkt.cmd.isInvalidate pkt.cmd.needsExclusive pkt blk =
        .ok (answer, if pkt.cmd.isInvalidate then blk else
          blk.mapStatus fun status => { status with writable := false }, pkt.cmd.isInvalidate) ∧
      SnoopAnswer pkt answer (some blk) := by
  obtain ⟨-, responds, -, prefetch, reads, downgrades, -⟩ := MemCmd.isFetch_facts fetch
  cases dirty : blk.isDirty with
  | false =>
    refine ⟨{ pkt with shared := pkt.shared || !pkt.cmd.isInvalidate }, ?_, ?_⟩
    · simp only [snoopBlk, prefetch, if_false, reads, downgrades, dirty, Bool.false_and,
        Bool.false_eq_true]
      cases pkt.cmd.isInvalidate <;> simp
    · exact {
        req := rfl, addr := rfl, isSecure := rfl, size := rfl
        shared := by simp
        owner := by
          rintro _ ⟨⟩ owned
          rw [dirty] at owned
          exact absurd owned Bool.false_ne_true
        passed := fun _ => ⟨rfl, rfl, rfl⟩ }
  | true =>
    let marked : Packet := { pkt with
      shared := pkt.shared || !pkt.cmd.isInvalidate
      memInhibit := true
      supplyExclusive := pkt.supplyExclusive || blk.isWritable }
    refine ⟨marked.makeResponse.setDataFromBlock blk.data config.blkSize, ?_, ?_⟩
    · simp only [snoopBlk, prefetch, if_false, reads, downgrades, dirty, responds, Bool.and_self,
        Bool.false_eq_true, if_true, free dirty, marked]
      cases pkt.cmd.isInvalidate <;> simp [free dirty, CacheBlk.mapStatus]
    · exact {
        req := rfl, addr := rfl, isSecure := rfl, size := rfl
        shared := by simp [marked, Packet.setDataFromBlock, Packet.setData, Packet.makeResponse]
        owner := by
          rintro _ ⟨⟩ -
          refine ⟨rfl, rfl, fun k inside => ?_⟩
          have start : marked.makeResponse.getOffset config.blkSize = 0 := aligned
          simp only [Packet.setDataFromBlock, Packet.setData, start, Nat.zero_add]
          exact if_pos inside
        passed := fun clean => absurd ((clean blk rfl).symm.trans dirty) Bool.false_ne_true }

variable {S : Type} (slot : Slot S) (port : MemSidePort S) {s : S} {pkt : Packet}

/-- A snoop by a cache with nothing above it. -/
theorem recvAtomicSnoop_ok (wf : WF config (slot.get s)) (fetch : pkt.cmd.isFetch = true)
    (cacheable : pkt.req.isUncacheable = false) (aligned : pkt.getOffset config.blkSize = 0)
    (free : ∀ blk, copy config (slot.get s) pkt.addr pkt.isSecure = some blk →
      blk.isDirty = true → pkt.memInhibit = false) :
    ∃ answer d, recvAtomicSnoop config slot (fun pkt s => .ok (pkt, s)) pkt s =
        .ok (answer, slot.set d s) ∧
      SnoopAnswer pkt answer (copy config (slot.get s) pkt.addr pkt.isSecure) ∧
      Replaced config (slot.get s) d pkt.addr pkt.isSecure
        (snooped pkt.cmd.isInvalidate (copy config (slot.get s) pkt.addr pkt.isSecure)) := by
  obtain ⟨request, -, -, -, -, -, writes, -⟩ := MemCmd.isFetch_facts fetch
  -- Nobody above has responded, since nothing is above.
  have silent : (config.forwardSnoops && !pkt.memInhibit && pkt.memInhibit &&
      !pkt.cmd.isResponse) = false := by
    cases pkt.memInhibit <;> simp
  simp only [recvAtomicSnoop, cacheable, writes, decide_false, Bool.or_self, Bool.false_eq_true,
    if_false]
  cases found : (slot.get s).tags.findBlock config.toLruConfig pkt.addr pkt.isSecure with
  | none =>
    have missing : copy config (slot.get s) pkt.addr pkt.isSecure = none := by
      rw [copy, found, Option.map_none]
    refine ⟨pkt, slot.get s, ?_, ?_, ?_⟩
    · simp only [handleSnoop, request, Bool.not_true, Bool.false_eq_true, if_false, ite_self,
        Bind.bind, Except.bind, silent, slot.set_get]
    · rw [missing]
      exact {
        req := rfl, addr := rfl, isSecure := rfl, size := rfl
        shared := by simp
        owner := by simp
        passed := fun _ => ⟨rfl, rfl, rfl⟩ }
    · rw [missing]
      exact ⟨wf, by simp [snooped, missing], fun _ _ _ => rfl⟩
  | some ptr =>
    have held : copy config (slot.get s) pkt.addr pkt.isSecure =
        some ((slot.get s).tags.blks ptr) := by rw [copy, found, Option.map_some]
    obtain ⟨way, -, holds⟩ := (findBlock_eq_some_iff wf).mp found
    obtain ⟨-, valid, -⟩ := Lru.holds_iff.mp holds
    obtain ⟨answer, done, answered⟩ := snoopBlk_ok fetch aligned (free _ held)
    rw [held]
    simp only [handleSnoop, request, Bool.not_true, Bool.false_eq_true, if_false, ite_self,
      Bind.bind, Except.bind, silent, done]
    cases invalidate : pkt.cmd.isInvalidate with
    | false =>
      let blk := ((slot.get s).tags.blks ptr).mapStatus fun status =>
        { status with writable := false }
      refine ⟨answer, (slot.get s).setBlk (.stored ptr) blk, rfl, answered, ?_⟩
      have wfd : WF config ((slot.get s).setBlk (.stored ptr) blk) :=
        wf.setBlk rfl valid valid rfl
      have replaced := replaced_of_update wf wfd found rfl fun _ => ⟨rfl, rfl⟩
      rwa [if_pos (show blk.isValid = true from valid)] at replaced
    | true =>
      have same : (slot.get s).setBlk (.stored ptr) ((slot.get s).tags.blks ptr) = slot.get s := by
        simp [setBlk, Lru.setBlk]
      obtain ⟨d, dropped, wfd, -, blks⟩ := wf.invalidate valid way
      refine ⟨answer, d, ?_, answered, ?_⟩
      · simp only [if_true, same, dropped]
        rfl
      · exact replaced_of_update wf wfd found blks fun never => absurd never Bool.false_ne_true

theorem Replaced.of_reorder {e : Cache} {blk : Option CacheBlk} {a : Addr}
    (same : ∀ a flag, copy config d a flag = copy config c a flag)
    (replaced : Replaced config d e a isSecure blk) : Replaced config c e a isSecure blk :=
  ⟨replaced.wf, replaced.here,
    fun a flag other => (replaced.others a flag other).trans (same a flag)⟩

theorem lookup_ok (wf : WF config c) (addr : Addr) (isSecure : Bool) :
    ∃ d, c.tags.accessBlock config.toLruConfig addr isSecure =
        .ok (d.tags, c.tags.findBlock config.toLruConfig addr isSecure) ∧
      d = { c with tags := d.tags } ∧ WF config d ∧ d.tags.blks = c.tags.blks ∧
      (∀ a flag, d.tags.findBlock config.toLruConfig a flag =
        c.tags.findBlock config.toLruConfig a flag) ∧
      ∀ a flag, copy config d a flag = copy config c a flag := by
  obtain ⟨tags, looked, blks, wfd⟩ := accessBlock_ok wf addr isSecure
  refine ⟨{ c with tags := tags }, looked, rfl, wfd, blks, fun a flag => ?_,
    fun a flag => copy_reorder wf wfd blks a flag⟩
  refine Option.ext fun ptr => ?_
  rw [findBlock_eq_some_iff wfd, findBlock_eq_some_iff wf, blks]

theorem found_of_copy {addr : Addr} (held : copy config c addr isSecure = some blk) :
    ∃ ptr, c.tags.findBlock config.toLruConfig addr isSecure = some ptr ∧
      c.tags.blks ptr = blk := by
  rw [copy, Option.map_eq_some_iff] at held
  exact held

theorem found_of_no_copy {addr : Addr} (missing : copy config c addr isSecure = none) :
    c.tags.findBlock config.toLruConfig addr isSecure = none := by
  rwa [copy, Option.map_eq_none_iff] at missing

/-- Whether a copy is good enough for a command. -/
def permits (cmd : MemCmd) (blk : CacheBlk) : Bool :=
  if cmd.needsExclusive then blk.isWritable else blk.isReadable

/-- A request is satisfied from a copy that is good enough. -/
theorem access_hit (findMatch : Addr → Bool → Option Mshr) (wf : WF config c)
    (cacheable : pkt.req.isUncacheable = false) {after : CacheBlk} {answer : Packet} {gone : Bool}
    (held : copy config c pkt.addr pkt.isSecure = some blk) (permitted : permits pkt.cmd blk = true)
    (inside : pkt.getOffset config.blkSize + pkt.size ≤ config.blkSize)
    (satisfied : satisfy config false false pkt blk = .ok (answer, after, gone)) :
    ∃ ptr d, access config findMatch pkt c =
        .ok ⟨true, answer, some (.stored ptr), [], [], d⟩ ∧
      Replaced config c d pkt.addr pkt.isSecure (if gone then none else some after) := by
  obtain ⟨ptr, found, rfl⟩ := found_of_copy held
  obtain ⟨e, looked, shape, wfe, blks, places, same⟩ := lookup_ok wf pkt.addr pkt.isSecure
  obtain ⟨way, -, holds⟩ := (findBlock_eq_some_iff wf).mp found
  obtain ⟨-, valid, -⟩ := Lru.holds_iff.mp holds
  rw [← blks] at valid satisfied permitted
  obtain ⟨d, done, wfd, -, after_blks⟩ := wfe.satisfyCpuSideRequest valid way inside satisfied
  obtain ⟨tag, still, secure⟩ := (satisfy_keeps _ _ pkt _).of_ok satisfied
  refine ⟨ptr, d, ?_, ?_⟩
  · have enough : (if pkt.cmd.needsExclusive then (e.tags.blks ptr).isWritable
        else (e.tags.blks ptr).isReadable) = true := permitted
    simp only [access, cacheable, Bool.false_eq_true, if_false, looked, found, Bind.bind,
      Except.bind, Option.any_some, enough, ← shape, done]
    rfl
  · have replaced := replaced_of_update wfe wfd ((places _ _).trans found) after_blks (by
      cases gone with
      | true => exact fun never => absurd never Bool.false_ne_true
      | false => exact fun _ => ⟨tag, secure⟩)
    have kept : (if (if gone = true then after.invalidate else after).isValid = true then
        some (if gone = true then after.invalidate else after) else none) =
        if gone then none else some after := by
      cases gone with
      | true => rfl
      | false => simp [still, valid]
    rw [kept] at replaced
    exact replaced.of_reorder same

/-- A request that its copy does not permit goes on with what is there. -/
theorem access_miss (findMatch : Addr → Bool → Option Mshr) (wf : WF config c)
    (cacheable : pkt.req.isUncacheable = false)
    (refused : ∀ blk, copy config c pkt.addr pkt.isSecure = some blk → permits pkt.cmd blk = false)
    (other : pkt.cmd ≠ .writeback)
    (tries : copy config c pkt.addr pkt.isSecure = none →
      (pkt.cmd.isLLSC && pkt.cmd.isWrite) = false) :
    ∃ d, access config findMatch pkt c =
        .ok ⟨false, pkt, (c.tags.findBlock config.toLruConfig pkt.addr pkt.isSecure).map .stored,
          [], [], d⟩ ∧
      WF config d ∧ d.tags.blks = c.tags.blks ∧
      (∀ a flag, d.tags.findBlock config.toLruConfig a flag =
        c.tags.findBlock config.toLruConfig a flag) ∧
      ∀ a flag, copy config d a flag = copy config c a flag := by
  obtain ⟨d, looked, shape, wfd, blks, places, same⟩ := lookup_ok wf pkt.addr pkt.isSecure
  refine ⟨d, ?_, wfd, blks, places, same⟩
  cases found : c.tags.findBlock config.toLruConfig pkt.addr pkt.isSecure with
  | none =>
    have missing : copy config c pkt.addr pkt.isSecure = none := by
      rw [copy, found, Option.map_none]
    have more := tries missing
    simp only [access, cacheable, Bool.false_eq_true, if_false, looked, found, Bind.bind,
      Except.bind, other, decide_true, Bool.true_and, more, ← shape]
    rfl
  | some ptr =>
    have held : copy config c pkt.addr pkt.isSecure = some (c.tags.blks ptr) := by
      rw [copy, found, Option.map_some]
    have lacks : (if pkt.cmd.needsExclusive then (d.tags.blks ptr).isWritable
        else (d.tags.blks ptr).isReadable) = false := by
      rw [blks]
      exact refused _ held
    simp only [access, cacheable, Bool.false_eq_true, if_false, looked, found, Bind.bind,
      Except.bind, Option.any_some, lacks, other, reduceCtorEq, decide_false, Bool.false_and,
      ← shape]
    rfl

theorem access_givesUp (findMatch : Addr → Bool → Option Mshr)
    (cacheable : pkt.req.isUncacheable = false) (store : pkt.cmd = .storeCondReq)
    (missing : copy config c pkt.addr pkt.isSecure = none) :
    access config findMatch pkt c =
      .ok ⟨true, { pkt with req := { pkt.req with extraData := 0 } }, none, [], [], c⟩ := by
  have found := found_of_no_copy missing
  have looked : c.tags.accessBlock config.toLruConfig pkt.addr pkt.isSecure =
      .ok (c.tags, none) := Lru.accessBlock_miss found
  simp only [access, cacheable, Bool.false_eq_true, if_false, looked, Bind.bind, Except.bind,
    store, reduceCtorEq]
  rfl

/-- The answer as it leaves the cache. -/
def answered (pkt : Packet) : Packet :=
  if pkt.cmd.needsResponse then pkt.makeResponse else pkt

/-- The packet that writes the block at an address back. -/
def writebackOf (config : CacheConfig) (v : Addr) (blk : CacheBlk) : Packet :=
  { Packet.ofRequest { blkRequest config blk.tag 0 blk.isSecure with paddr := v } .writeback
      blk.data with
    supplyExclusive := blk.isWritable }

/-- A new copy took the place of another one, which is written back if it is dirty. -/
structure Filled (config : CacheConfig) (c d : Cache) (b : Addr) (isSecure : Bool)
    (blk : Option CacheBlk) (packets : List Packet) : Prop where
  wf : WF config d
  here : copy config d b isSecure = blk
  rest : packets = [] ∧ (∀ a flag, ¬ (config.blkAlign a = config.blkAlign b ∧ flag = isSecure) →
      copy config d a flag = copy config c a flag) ∨
    ∃ v ptr old, config.blkAlign v = v ∧ c.tags.findVictim config.toLruConfig b = .ok ptr ∧
      c.tags.findBlock config.toLruConfig v old.isSecure = some ptr ∧
      copy config c v old.isSecure = some old ∧ copy config d v old.isSecure = none ∧
      ¬ (v = config.blkAlign b ∧ old.isSecure = isSecure) ∧
      packets = (if old.isDirty then [writebackOf config v old] else []) ∧
      ∀ a flag, ¬ (config.blkAlign a = config.blkAlign b ∧ flag = isSecure) →
        ¬ (config.blkAlign a = v ∧ flag = old.isSecure) →
        copy config d a flag = copy config c a flag

theorem recvAtomic_hit (wf : WF config (slot.get s)) (quiet : pkt.memInhibit = false)
    (cacheable : pkt.req.isUncacheable = false) {after : CacheBlk} {answer : Packet} {gone : Bool}
    (held : copy config (slot.get s) pkt.addr pkt.isSecure = some blk)
    (permitted : permits pkt.cmd blk = true)
    (inside : pkt.getOffset config.blkSize + pkt.size ≤ config.blkSize)
    (satisfied : satisfy config false false pkt blk = .ok (answer, after, gone)) :
    ∃ d, recvAtomic config slot port pkt s = .ok (answered answer, slot.set d s) ∧
      Replaced config (slot.get s) d pkt.addr pkt.isSecure (if gone then none else some after) := by
  obtain ⟨ptr, d, accessed, replaced⟩ :=
    access_hit noMshr wf cacheable held permitted inside satisfied
  refine ⟨d, ?_, replaced⟩
  simp only [recvAtomic, quiet, Bool.false_eq_true, if_false, accessed, Bind.bind, Except.bind,
    if_true, List.foldl_nil, sendWritebacks, List.foldlM_nil]
  rfl

theorem recvAtomic_givesUp (quiet : pkt.memInhibit = false)
    (cacheable : pkt.req.isUncacheable = false) (store : pkt.cmd = .storeCondReq)
    (missing : copy config (slot.get s) pkt.addr pkt.isSecure = none) :
    recvAtomic config slot port pkt s =
      .ok (answered { pkt with req := { pkt.req with extraData := 0 } }, s) := by
  simp only [recvAtomic, quiet, Bool.false_eq_true, if_false,
    access_givesUp noMshr cacheable store missing, Bind.bind, Except.bind, if_true, List.foldl_nil,
    sendWritebacks, List.foldlM_nil, slot.set_get]
  rfl

theorem findBlock_congr {a : Addr} (same : config.blkAlign a = config.blkAlign b) :
    c.tags.findBlock config.toLruConfig a isSecure =
      c.tags.findBlock config.toLruConfig b isSecure := by
  obtain ⟨tag, set⟩ := (LruConfig.blkAlign_eq_iff a b).mp same
  simp only [Lru.findBlock, tag, set]

/-- A request that needs a better copy gets it and is satisfied. -/
theorem recvAtomic_upgrade (wf : WF config (slot.get s)) (quiet : pkt.memInhibit = false)
    (cacheable : pkt.req.isUncacheable = false) (exclusive : pkt.cmd.needsExclusive = true)
    (responds : pkt.cmd.needsResponse = true) (other : pkt.cmd ≠ .writeback)
    (held : copy config (slot.get s) pkt.addr pkt.isSecure = some blk)
    (shared : blk.isWritable = false)
    (inside : pkt.getOffset config.blkSize + pkt.size ≤ config.blkSize) :
    ∃ c, WF config c ∧ (∀ a flag, copy config c a flag = copy config (slot.get s) a flag) ∧
      (∀ a flag, c.tags.findBlock config.toLruConfig a flag =
        (slot.get s).tags.findBlock config.toLruConfig a flag) ∧
      ∀ resp t, port.sendAtomic (.ofBlock pkt.req
          (if pkt.cmd.isLLSC then .scUpgradeReq else .upgradeReq) config.blkSize fun _ => 0)
          (slot.set c s) = .ok (resp, t) → slot.get t = c → resp.cmd = .upgradeResp →
        config.blkAlign resp.addr = config.blkAlign pkt.addr → resp.isSecure = pkt.isSecure →
        ∀ answer after gone,
          satisfy config false false pkt (filled resp blk) = .ok (answer, after, gone) →
          ∃ d, recvAtomic config slot port pkt s = .ok (answered answer, slot.set d t) ∧
            Replaced config c d pkt.addr pkt.isSecure (if gone then none else some after) := by
  have refused : ∀ old, copy config (slot.get s) pkt.addr pkt.isSecure = some old →
      permits pkt.cmd old = false := by
    intro old also
    obtain rfl := Option.some.inj (held.symm.trans also)
    simp [permits, exclusive, shared]
  obtain ⟨c, accessed, wfc, blks, places, same⟩ := access_miss noMshr wf cacheable
    refused other (fun none => by rw [held] at none; exact absurd none (by simp))
  refine ⟨c, wfc, same, places, ?_⟩
  intro resp t sent kept upgraded addr secure answer after gone satisfied
  obtain ⟨ptr, found, here⟩ := found_of_copy held
  have foundc : c.tags.findBlock config.toLruConfig pkt.addr pkt.isSecure = some ptr :=
    (places _ _).trans found
  obtain ⟨way, -, holds⟩ := (findBlock_eq_some_iff wfc).mp foundc
  obtain ⟨tag, valid, sec⟩ := Lru.holds_iff.mp holds
  have herec : c.tags.blks ptr = blk := by rw [blks, here]
  -- The response raises the permissions of the block, and the request is satisfied from it.
  obtain ⟨e, fill, wfe, -, eblks⟩ := wfc.handleFill_hit noMshr
    ((findBlock_congr addr).trans (secure ▸ foundc)) []
  have raised : e.tags.blks ptr = filled resp blk := by
    rw [eblks, Function.update_self, herec]
  have validf : (e.tags.blks ptr).isValid = true := by
    rw [raised]
    rfl
  rw [← raised] at satisfied
  obtain ⟨d, done, wfd, -, dblks⟩ := wfe.satisfyCpuSideRequest validf way inside satisfied
  obtain ⟨keeptag, keepvalid, keepsec⟩ := (satisfy_keeps _ _ pkt _).of_ok satisfied
  refine ⟨d, ?_, ?_⟩
  · have valid_blk : blk.isValid = true := herec ▸ valid
    have got : (slot.get (slot.set c s)).blk (.stored ptr) = blk := by
      rw [slot.get_set]
      exact herec
    have bus : getBusPacket config pkt (some blk) true = .ok (some (.ofBlock pkt.req
        (if pkt.cmd.isLLSC then .scUpgradeReq else .upgradeReq) config.blkSize fun _ => 0)) := by
      simp [getBusPacket, cacheable, valid_blk, shared, responds]
    simp only [recvAtomic, quiet, Bool.false_eq_true, if_false, accessed, Bind.bind, Except.bind,
      List.foldl_nil, fetch, found, Option.map_some, got, exclusive, bus, sent, responds,
      Bool.not_true, upgraded, kept, fill, done, sendWritebacks, List.foldlM_nil]
    rfl
  · have both : d.tags.blks = Function.update c.tags.blks ptr
        (if gone then after.invalidate else after) := by
      rw [dblks, eblks, Function.update_idem]
    have filltag : (filled resp blk).tag = (c.tags.blks ptr).tag := by rw [herec]; rfl
    have fillsec : (filled resp blk).isSecure = (c.tags.blks ptr).isSecure := by
      have flag : blk.status.secure = pkt.isSecure := by
        rw [← herec]
        exact sec
      rw [herec]
      simp only [filled, CacheBlk.isSecure, secure, flag, Bool.or_self]
    have replaced := replaced_of_update wfc wfd foundc both (by
      cases gone with
      | true => exact fun never => absurd never Bool.false_ne_true
      | false =>
        exact fun _ => ⟨(keeptag.trans (congrArg _ raised)).trans filltag,
          (keepsec.trans (congrArg _ raised)).trans fillsec⟩)
    have shape : (if (if gone = true then after.invalidate else after).isValid = true then
        some (if gone = true then after.invalidate else after) else none) =
        if gone then none else some after := by
      cases gone with
      | true => rfl
      | false => simp [keepvalid, validf]
    rwa [shape] at replaced

/-- A block in a place of its set replaces the copy that was there. -/
theorem filled_of_update (wf : WF config c) (wfd : WF config d) {ptr : BlkPtr}
    (missing : copy config c b isSecure = none) (member : ptr ∈ config.ways (config.extractSet b))
    (victim : c.tags.findVictim config.toLruConfig b = .ok ptr)
    (blks : d.tags.blks = Function.update c.tags.blks ptr blk)
    (holding : blk.isValid = true → blk.tag = config.extractTag b ∧ blk.isSecure = isSecure) :
    Filled config c d b isSecure (if blk.isValid then some blk else none)
      (evicted config c ptr) := by
  obtain ⟨set, way⟩ := LruConfig.mem_ways.mp member
  have moved := copy_update wf wfd blks way
  have new : ∀ a flag, HoldsAt config ptr blk a flag →
      config.blkAlign a = config.blkAlign b ∧ flag = isSecure := by
    rintro a flag ⟨seta, holds⟩
    obtain ⟨tag, good, secure⟩ := Lru.holds_iff.mp holds
    obtain ⟨tagb, secb⟩ := holding good
    refine ⟨?_, secure.symm.trans secb⟩
    rw [LruConfig.blkAlign_eq_iff]
    exact ⟨tag.symm.trans tagb, seta.trans set⟩
  have unheld : ¬ HoldsAt config ptr (c.tags.blks ptr) b isSecure :=
    (copy_eq_none_iff wf).mp missing ptr way
  refine ⟨wfd, ?_, ?_⟩
  · split
    case isTrue good =>
      obtain ⟨tagb, secb⟩ := holding good
      exact (moved b isSecure).1 ⟨set.symm, Lru.holds_iff.mpr ⟨tagb, good, secb⟩⟩
    case isFalse bad =>
      rw [((moved b isSecure).2 fun again => bad (Lru.holds_iff.mp again.2).2.1).2 unheld]
      exact missing
  · cases valid : (c.tags.blks ptr).isValid with
    | false =>
      -- The place was empty, so nothing was replaced.
      left
      refine ⟨by simp [evicted, valid], fun a flag other => ?_⟩
      refine ((moved a flag).2 fun again => other (new a flag again)).2 fun old => ?_
      exact absurd ((Lru.holds_iff.mp old.2).2.1.symm.trans valid) (by decide)
    | true =>
      right
      obtain ⟨v, tagv, setv⟩ := wf.home ptr valid
      let old := c.tags.blks ptr
      have held : HoldsAt config ptr old (config.blkAlign v) old.isSecure := by
        obtain ⟨sametag, sameset⟩ := config.extract_blkAlign v
        exact ⟨sameset.trans setv, Lru.holds_iff.mpr ⟨(sametag.trans tagv).symm, valid, rfl⟩⟩
      have aligned : config.blkAlign (config.blkAlign v) = config.blkAlign v := align_align _ v
      have apart : ¬ (config.blkAlign v = config.blkAlign b ∧ old.isSecure = isSecure) := by
        rintro ⟨same, secure⟩
        have there : HoldsAt config ptr old b isSecure := by
          obtain ⟨tag, sets⟩ := (LruConfig.blkAlign_eq_iff v b).mp same
          exact ⟨sets.symm.trans setv, Lru.holds_iff.mpr ⟨tagv.symm.trans tag, valid, secure⟩⟩
        exact unheld there
      have found :
          c.tags.findBlock config.toLruConfig (config.blkAlign v) old.isSecure = some ptr :=
        (findBlock_eq_some_iff wf).mpr ⟨way, held⟩
      refine ⟨config.blkAlign v, ptr, old, aligned, victim, found, ?_, ?_, apart, ?_, ?_⟩
      · rw [copy, found, Option.map_some]
      · refine ((moved _ _).2 fun again => apart ?_).1 held
        have := new _ _ again
        rwa [aligned] at this
      · have addr : config.regenerateBlkAddr old.tag ptr.set = config.blkAlign v := by
          rw [← tagv, ← setv, LruConfig.regenerateBlkAddr_extract]
        simp only [evicted, valid, Bool.true_and, writebackPacket, writebackOf, blkRequest]
        rw [addr]
      · intro a flag otherb otherv
        refine ((moved a flag).2 fun again => otherb (new a flag again)).2 fun also => ?_
        obtain ⟨same, secure⟩ := held.same also
        exact otherv ⟨same.trans aligned, secure⟩

/-- A request without a copy gets one and is satisfied, and what had to make place is sent. -/
theorem recvAtomic_miss (wf : WF config (slot.get s)) (quiet : pkt.memInhibit = false)
    (cacheable : pkt.req.isUncacheable = false) (responds : pkt.cmd.needsResponse = true)
    (other : pkt.cmd ≠ .writeback) (wants : pkt.cmd.isUpgrade = false)
    (tries : (pkt.cmd.isLLSC && pkt.cmd.isWrite) = false)
    (missing : copy config (slot.get s) pkt.addr pkt.isSecure = none)
    (inside : pkt.getOffset config.blkSize + pkt.size ≤ config.blkSize)
    {resp : Packet} {t : S} (sent : port.sendAtomic (.ofBlock pkt.req
      (if pkt.cmd.needsExclusive then .readExReq else .readReq) config.blkSize fun _ => 0) s =
        .ok (resp, t))
    (kept : slot.get t = slot.get s) (read : resp.cmd = .readResp ∨ resp.cmd = .readExResp)
    (addr : config.blkAlign resp.addr = config.blkAlign pkt.addr)
    (secure : resp.isSecure = pkt.isSecure) {P : Packet → CacheBlk → Bool → Prop}
    (satisfied : ∀ old, ∃ answer after gone,
      satisfy config false false pkt (newBlk config resp old) = .ok (answer, after, gone) ∧
        P answer after gone) :
    ∃ answer after gone d packets, P answer after gone ∧
      recvAtomic config slot port pkt s = (do
        let u ← sendWritebacks port packets (slot.set d t)
        return (answered answer, u)) ∧
      Filled config (slot.get s) d pkt.addr pkt.isSecure (if gone then none else some after)
        packets := by
  have found := found_of_no_copy missing
  have accessed : access config noMshr pkt (slot.get s) =
      .ok ⟨false, pkt, none, [], [], slot.get s⟩ := by
    have looked : (slot.get s).tags.accessBlock config.toLruConfig pkt.addr pkt.isSecure =
        .ok ((slot.get s).tags, none) := Lru.accessBlock_miss found
    simp only [access, cacheable, Bool.false_eq_true, if_false, looked, Bind.bind, Except.bind,
      other, decide_true, Bool.true_and, tries]
    rfl
  have brings : resp.cmd.hasData = true ∧ resp.cmd.isRead = true ∧ resp.cmd.isResponse = true ∧
      resp.cmd.isError = false := by
    rcases read with read | read <;> rw [read] <;> decide
  -- The response is looked for under the address of the request, and not found either.
  have missresp :
      (slot.get s).tags.findBlock config.toLruConfig resp.addr resp.isSecure = none := by
    rw [findBlock_congr addr, secure, found]
  obtain ⟨ptr, member, e, victim, fill, wfe, -, eblks⟩ := wf.handleFill_miss noMshr
    brings.1 missresp [] fun _ _ _ => rfl
  obtain ⟨answer, after, gone, done, meant⟩ := satisfied ((slot.get s).tags.blks ptr)
  have new : e.tags.blks ptr = newBlk config resp ((slot.get s).tags.blks ptr) := by
    rw [eblks, Function.update_self]
  have valid : (e.tags.blks ptr).isValid = true := by
    rw [new]
    rfl
  rw [← new] at done
  -- The block that was filled serves the request at once.
  obtain ⟨tagaddr, setaddr⟩ := (LruConfig.blkAlign_eq_iff resp.addr pkt.addr).mp addr
  obtain ⟨d, served, wfd, -, dblks⟩ :=
    wfe.satisfyCpuSideRequest valid (LruConfig.mem_ways.mp member).2 inside done
  obtain ⟨keeptag, keepvalid, keepsec⟩ := (satisfy_keeps _ _ pkt _).of_ok done
  refine ⟨answer, after, gone, d, evicted config (slot.get s) ptr, meant, ?_, ?_⟩
  · have bus : getBusPacket config pkt none pkt.cmd.needsExclusive = .ok (some (.ofBlock pkt.req
        (if pkt.cmd.needsExclusive then .readExReq else .readReq) config.blkSize fun _ => 0)) := by
      simp [getBusPacket, cacheable, responds, other, wants]
    simp only [recvAtomic, quiet, Bool.false_eq_true, if_false, accessed, Bind.bind, Except.bind,
      List.foldl_nil, fetch, Option.map_none, slot.set_get, bus, sent, responds, Bool.not_true,
      brings, Bool.true_or, if_true, kept, fill, served, List.nil_append]
    rfl
  · -- Filling and serving are one change of the one block that was chosen.
    have both : d.tags.blks = Function.update (slot.get s).tags.blks ptr
        (if gone then after.invalidate else after) := by
      rw [dblks, eblks, Function.update_idem]
    rw [setaddr] at member
    have victimaddr : (slot.get s).tags.findVictim config.toLruConfig pkt.addr = .ok ptr := by
      simpa only [Lru.findVictim, setaddr] using victim
    have filled := filled_of_update wf wfd missing member victimaddr both (by
      cases gone with
      | true => exact fun never => absurd never Bool.false_ne_true
      | false =>
        exact fun _ => ⟨(keeptag.trans (congrArg _ new)).trans tagaddr,
          (keepsec.trans (congrArg _ new)).trans secure⟩)
    have shape : (if (if gone = true then after.invalidate else after).isValid = true then
        some (if gone = true then after.invalidate else after) else none) =
        if gone then none else some after := by
      cases gone with
      | true => rfl
      | false => simp [keepvalid, valid]
    rwa [shape] at filled

theorem recvAtomic_forward (quiet : pkt.memInhibit = false)
    (cacheable : pkt.req.isUncacheable = false)
    (upgrade : pkt.cmd = .upgradeReq ∨ pkt.cmd = .scUpgradeReq)
    (missing : copy config (slot.get s) pkt.addr pkt.isSecure = none) {resp : Packet} {t : S}
    (sent : port.sendAtomic pkt s = .ok (resp, t)) :
    recvAtomic config slot port pkt s = .ok (answered resp, t) := by
  have facts : pkt.cmd ≠ .writeback ∧ (pkt.cmd.isLLSC && pkt.cmd.isWrite) = false ∧
      pkt.cmd.isUpgrade = true := by
    rcases upgrade with kind | kind <;> rw [kind] <;> decide
  obtain ⟨other, tries, upgrades⟩ := facts
  have looked : (slot.get s).tags.accessBlock config.toLruConfig pkt.addr pkt.isSecure =
      .ok ((slot.get s).tags, none) := Lru.accessBlock_miss (found_of_no_copy missing)
  have accessed : access config noMshr pkt (slot.get s) =
      .ok ⟨false, pkt, none, [], [], slot.get s⟩ := by
    simp only [access, cacheable, Bool.false_eq_true, if_false, looked, Bind.bind, Except.bind,
      other, decide_true, Bool.true_and, tries]
    rfl
  have bus : getBusPacket config pkt none pkt.cmd.needsExclusive = .ok none := by
    simp [getBusPacket, cacheable, upgrades]
  simp only [recvAtomic, quiet, Bool.false_eq_true, if_false, accessed, Bind.bind, Except.bind,
    List.foldl_nil, fetch, Option.map_none, slot.set_get, bus, sent, sendWritebacks,
    List.foldlM_nil]
  rfl

theorem recvAtomic_inhibited (wf : WF config (slot.get s)) (inhibits : pkt.memInhibit = true)
    (cacheable : pkt.req.isUncacheable = false) :
    if pkt.cmd.isInvalidate then
      ∃ d, recvAtomic config slot port pkt s = port.sendAtomic pkt (slot.set d s) ∧
        Replaced config (slot.get s) d pkt.addr pkt.isSecure none
    else recvAtomic config slot port pkt s = .ok (pkt, s) := by
  split
  case isFalse keeps =>
    simp [recvAtomic, inhibits, recvInhibited, cacheable, keeps]
  case isTrue invalidates =>
    cases found : (slot.get s).tags.findBlock config.toLruConfig pkt.addr pkt.isSecure with
    | none =>
      refine ⟨slot.get s, ?_, wf, ?_, fun _ _ _ => rfl⟩
      · simp [recvAtomic, inhibits, recvInhibited, cacheable, invalidates, found, Bind.bind,
          Except.bind]
      · rw [copy, found, Option.map_none]
    | some ptr =>
      obtain ⟨way, -, holds⟩ := (findBlock_eq_some_iff wf).mp found
      obtain ⟨-, valid, -⟩ := Lru.holds_iff.mp holds
      obtain ⟨d, dropped, wfd, -, blks⟩ := wf.invalidate valid way
      refine ⟨d, ?_, ?_⟩
      · simp [recvAtomic, inhibits, recvInhibited, cacheable, invalidates, found, dropped,
          Bind.bind, Except.bind]
      · exact replaced_of_update wf wfd found blks fun never => absurd never Bool.false_ne_true

/-- The block that a writeback from above leaves of a copy. -/
def overwritten (pkt : Packet) (blk : CacheBlk) : CacheBlk :=
  { blk with
    data := pkt.data
    status := { blk.status with
      dirty := true
      writable := blk.status.writable || pkt.supplyExclusive } }

/-- A block that is written back to a copy without permission takes its place. -/
theorem recvAtomic_writeback_hit (wf : WF config (slot.get s)) (quiet : pkt.memInhibit = false)
    (cacheable : pkt.req.isUncacheable = false) (writeback : pkt.cmd = .writeback)
    (size : pkt.size = config.blkSize)
    (held : copy config (slot.get s) pkt.addr pkt.isSecure = some blk)
    (shared : blk.isWritable = false) :
    ∃ d, recvAtomic config slot port pkt s = .ok (pkt, slot.set d s) ∧
      Replaced config (slot.get s) d pkt.addr pkt.isSecure (some (overwritten pkt blk)) := by
  obtain ⟨ptr, found, here⟩ := found_of_copy held
  obtain ⟨e, looked, shape, wfe, blks, places, same⟩ := lookup_ok wf pkt.addr pkt.isSecure
  have facts : pkt.cmd.needsExclusive = true ∧ pkt.cmd.needsResponse = false := by
    rw [writeback]
    decide
  have founde : e.tags.findBlock config.toLruConfig pkt.addr pkt.isSecure = some ptr :=
    (places _ _).trans found
  have heree : e.tags.blks ptr = blk := by rw [blks, here]
  obtain ⟨way, -, holds⟩ := (findBlock_eq_some_iff wfe).mp founde
  obtain ⟨-, valid, -⟩ := Lru.holds_iff.mp holds
  rw [heree] at valid
  let d := e.setBlk (.stored ptr) (overwritten pkt blk)
  have wfd : WF config d := wfe.setBlk (by rw [heree]; rfl) (by rw [heree]; exact valid) valid
    (by rw [heree]; rfl)
  refine ⟨d, ?_, ?_⟩
  · have lacks : (if pkt.cmd.needsExclusive then (e.tags.blks ptr).isWritable
        else (e.tags.blks ptr).isReadable) = false := by
      rw [facts.1, if_pos rfl, heree]
      exact shared
    have taken : takeWriteback config noMshr pkt (some (.stored ptr)) e =
        .ok ⟨true, pkt, some (.stored ptr), [], [], d⟩ := by
      simp only [takeWriteback, size, ne_eq, not_true_eq_false, if_false, Bind.bind, Except.bind,
        facts.2, Bool.false_eq_true, Cache.blk, heree]
      rfl
    have accessed : access config noMshr pkt (slot.get s) =
        .ok ⟨true, pkt, some (.stored ptr), [], [], d⟩ := by
      simp only [access, cacheable, Bool.false_eq_true, if_false, looked, found, Bind.bind,
        Except.bind, Option.any_some, lacks, ← shape, Option.map_some]
      rw [if_pos writeback]
      exact taken
    simp only [recvAtomic, quiet, Bool.false_eq_true, if_false, accessed, Bind.bind, Except.bind,
      if_true, List.foldl_nil, sendWritebacks, List.foldlM_nil, facts.2, pure, Except.pure]
  · have replaced := replaced_of_update wfe wfd founde rfl fun _ => by rw [heree]; exact ⟨rfl, rfl⟩
    rw [if_pos (show (overwritten pkt blk).isValid = true from valid)] at replaced
    exact replaced.of_reorder same

theorem recvAtomic_writeback_miss (wf : WF config (slot.get s)) (quiet : pkt.memInhibit = false)
    (cacheable : pkt.req.isUncacheable = false) (writeback : pkt.cmd = .writeback)
    (size : pkt.size = config.blkSize) (insecure : pkt.isSecure = false)
    (missing : copy config (slot.get s) pkt.addr pkt.isSecure = none) :
    ∃ old d packets, recvAtomic config slot port pkt s = (do
        let u ← sendWritebacks port packets (slot.set d s)
        return (pkt, u)) ∧
      Filled config (slot.get s) d pkt.addr pkt.isSecure (some (writtenBlk config pkt old))
        packets := by
  have found := found_of_no_copy missing
  have looked : (slot.get s).tags.accessBlock config.toLruConfig pkt.addr pkt.isSecure =
      .ok ((slot.get s).tags, none) := Lru.accessBlock_miss found
  have responds : pkt.cmd.needsResponse = false := by
    rw [writeback]
    decide
  obtain ⟨ptr, member, d, victim, taken, wfd, -, blks⟩ := wf.takeWriteback_miss
    noMshr writeback size found fun _ _ _ => rfl
  refine ⟨(slot.get s).tags.blks ptr, d, evicted config (slot.get s) ptr, ?_, ?_⟩
  · have accessed : access config noMshr pkt (slot.get s) = .ok ⟨true, pkt, some (.stored ptr),
        evicted config (slot.get s) ptr, [], d⟩ := by
      simp only [access, cacheable, Bool.false_eq_true, if_false, looked, Bind.bind, Except.bind,
        writeback, if_true, Option.map_none]
      exact taken
    simp only [recvAtomic, quiet, Bool.false_eq_true, if_false, accessed, Bind.bind, Except.bind,
      if_true, List.foldl_nil, responds]
  · exact filled_of_update wf (wfd insecure) missing member victim blks
      fun _ => ⟨rfl, insecure.symm⟩

end Cache

end GemDroid
