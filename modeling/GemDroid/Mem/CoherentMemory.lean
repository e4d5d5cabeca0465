import GemDroid.Mem.CoherenceRun

/-! Coherent caches over one memory: every read returns what was written last. -/

namespace GemDroid

open Align Cache Ownership

namespace Memory

variable {n m : Nat} {b : Addr} {flag : Bool} {pkt : Packet} {mem : Memory}

/-- The memory as the level below the caches; it takes every block. -/
def level (n : Nat) : Level n Memory where
  recvAtomic pkt mem := mem.access pkt
  view mem b := { dirty := false, supply := bytesAt n b mem.data, memory := bytesAt n b mem.data }
  takes _ _ := True
  keeps _ _ _ := True

theorem bytes_of_block (power : n = 2 ^ m) (narrow : m < 64) (block : pkt.ForBlock n b flag)
    (mem : Memory) :
    contents n b (pkt.setData (mem.bytes pkt.addr)).data = bytesAt n b mem.data := by
  funext ⟨a, same⟩
  have inside : offset n a < pkt.size := by
    rw [block.size]
    exact offset_lt power narrow a
  simp only [contents, bytesAt, Packet.setData]
  rw [if_pos inside, bytes, block.addr, ← same, align_add_offset]

theorem write_block (power : n = 2 ^ m) (narrow : m < 64) (block : pkt.ForBlock n b flag)
    (mem : Memory) :
    bytesAt n b (mem.write pkt.addr pkt.size pkt.data).data = contents n b pkt.data ∧
      ∀ v, v ≠ b → bytesAt n v (mem.write pkt.addr pkt.size pkt.data).data =
        bytesAt n v mem.data := by
  have start : offset n b = 0 := by
    rw [← block.aligned]
    exact offset_align power narrow b
  have whole : offset n b + n ≤ n := by omega
  constructor
  · funext ⟨a, same⟩
    have near : (a - b).toNat < n := by
      refine (sub_lt_iff power narrow (same.trans block.aligned.symm) whole).mpr ⟨by omega, ?_⟩
      rw [start, Nat.zero_add]
      exact offset_lt power narrow a
    have place := (align_of_sub_lt power narrow whole near).2
    rw [start, Nat.zero_add] at place
    simp only [bytesAt, contents, write, block.addr, block.size]
    rw [if_pos near, place]
  · intro v other
    funext ⟨a, same⟩
    simp only [bytesAt, write, block.addr, block.size]
    refine if_neg fun near => other ?_
    rw [← same, (align_of_sub_lt power narrow whole near).1, block.aligned]

theorem access_read (kind : pkt.cmd = .readReq ∨ pkt.cmd = .readExReq)
    (quiet : pkt.memInhibit = false) :
    mem.access pkt = .ok ((pkt.setData (mem.bytes pkt.addr)).makeResponse, mem) := by
  have facts : pkt.cmd ≠ .swapReq ∧ pkt.cmd.isRead = true ∧ pkt.cmd.isWrite = false ∧
      pkt.cmd.isLLSC = false ∧ pkt.cmd.needsResponse = true := by
    rcases kind with kind | kind <;> rw [kind] <;> decide
  obtain ⟨swap, read, write, locked, responds⟩ := facts
  have still : (pkt.setData (mem.bytes pkt.addr)).cmd.needsResponse = true := responds
  simp only [access, quiet, Bool.false_eq_true, if_false, swap, read, if_true, write, locked,
    Bind.bind, Except.bind, still]
  rfl

theorem access_upgrade (kind : pkt.cmd = .upgradeReq ∨ pkt.cmd = .scUpgradeReq)
    (quiet : pkt.memInhibit = false) : mem.access pkt = .ok (pkt.makeResponse, mem) := by
  have facts : pkt.cmd ≠ .swapReq ∧ pkt.cmd.isRead = false ∧ pkt.cmd.isWrite = false ∧
      pkt.cmd.isInvalidate = true ∧ pkt.cmd.needsResponse = true := by
    rcases kind with kind | kind <;> rw [kind] <;> decide
  obtain ⟨swap, read, write, invalidate, responds⟩ := facts
  simp only [access, quiet, Bool.false_eq_true, if_false, swap, read, if_true, write, invalidate,
    Bind.bind, Except.bind, responds]
  rfl

theorem access_writeback (mem : Memory) (kind : pkt.cmd = .writeback)
    (quiet : pkt.memInhibit = false) (own : pkt.req.isInstFetch = false) :
    ∃ t, mem.access pkt = .ok (pkt, t) ∧ t.data = (mem.write pkt.addr pkt.size pkt.data).data := by
  have facts : pkt.cmd ≠ .swapReq ∧ pkt.cmd.isRead = false ∧ pkt.cmd.isWrite = true ∧
      pkt.cmd.isLLSC = false ∧ pkt.cmd.needsResponse = false := by
    rw [kind]
    decide
  obtain ⟨swap, read, write, locked, responds⟩ := facts
  let unlocked : Memory := { mem with
    lockedAddrList :=
      mem.lockedAddrList.filter fun lock => lock.addr != LockedAddr.mask pkt.req.paddr }
  have allowed : mem.writeOK pkt = (pkt, unlocked, true) := by
    simp [writeOK, locked, unlocked]
  refine ⟨unlocked.write pkt.addr pkt.size pkt.data, ?_, rfl⟩
  simp only [access, quiet, Bool.false_eq_true, if_false, swap, read, if_true, write, allowed,
    Bind.bind, Except.bind, responds, own, Bool.not_true]
  rfl

theorem access_inhibited (inhibits : pkt.memInhibit = true) : mem.access pkt = .ok (pkt, mem) := by
  simp [access, inhibits]

/-- The memory is what the caches rely on. -/
theorem lawful (power : n = 2 ^ m) (narrow : m < 64) (flag : Addr → Bool) :
    (level n).Lawful (fun _ => True) flag where
  read := by
    intro mem b pkt _ block kind quiet
    refine ⟨_, mem, access_read (.inl kind) quiet, trivial, ⟨rfl, rfl, rfl⟩,
      bytes_of_block power narrow block mem, fun shared => shared,
      ⟨rfl, rfl, .inl ⟨rfl, quiet⟩, fun _ => rfl⟩, fun _ _ _ => Source.Rest.refl _,
      fun _ _ _ _ => trivial⟩
  exclusive := by
    intro mem b pkt _ block kind quiet
    exact ⟨_, mem, access_read (.inr kind) quiet, trivial, ⟨rfl, rfl, rfl⟩,
      bytes_of_block power narrow block mem, rfl, quiet, ⟨rfl, rfl, rfl⟩,
      fun _ _ _ => Source.Rest.refl _, fun _ _ _ _ => trivial⟩
  upgrade := by
    intro mem b pkt _ block kind quiet
    exact ⟨_, mem, access_upgrade kind quiet, trivial, ⟨rfl, rfl, rfl⟩, rfl, quiet,
      ⟨rfl, rfl, rfl⟩, fun _ _ _ => Source.Rest.refl _⟩
  inhibited := by
    intro mem b pkt _ block _ inhibits
    refine ⟨mem, access_inhibited inhibits, trivial, ?_, fun _ _ _ => Source.Rest.refl _,
      fun _ _ _ _ => trivial⟩
    split
    · exact ⟨rfl, rfl, rfl⟩
    · rfl
  writeback := by
    intro mem b pkt _ block kind quiet own _
    obtain ⟨t, accessed, data⟩ := access_writeback mem kind quiet own
    obtain ⟨here, elsewhere⟩ := write_block power narrow block mem
    rw [← data] at here elsewhere
    refine ⟨pkt, t, accessed, trivial, ⟨here, fun _ => here⟩, fun v _ other => .inr ?_⟩
    exact ⟨rfl, elsewhere v other, rfl⟩

end Memory

namespace CoherentRun

variable {config : ClusterConfig} {flag : Addr → Bool} {s : CoherentRun config.count Memory}
  {functional : Packet → Cluster config.count Memory → Cluster config.count Memory}

open Cluster

/-- All copies of a block are alike and the latest, and the last owner of a block has it. -/
structure Consistent (config : ClusterConfig) (s : CoherentRun config.count Memory) : Prop where
  writable : ∀ i j a first second blk other, held config s.system i a first = some blk →
    blk.isWritable = true → held config s.system j a second = some other →
    j = i ∧ second = first
  dirty : ∀ i j a first second blk other, held config s.system i a first = some blk →
    blk.isDirty = true → held config s.system j a second = some other → other.isDirty = true →
    j = i ∧ second = first
  latest : ∀ i a isSecure blk, held config s.system i a isSecure = some blk →
    ∀ x, align config.blkSize x = align config.blkSize a →
      blk.data (offset config.blkSize x) = s.latest x
  memory : ∀ a, (∀ i isSecure blk, held config s.system i a isSecure = some blk →
    blk.isDirty = false) → s.system.below.data a = s.latest a

theorem consistent_of_inv
    (inv : Inv (Memory.level config.blkSize) (fun _ => True) flag s.latest s.system) :
    s.Consistent config := by
  -- A copy of an address is one of the line of its block.
  have lined : ∀ i a isSecure blk, held config s.system i a isSecure = some blk →
      isSecure = flag (align config.blkSize a) ∧
      (line (Memory.level config.blkSize) flag s.system (align config.blkSize a)).copies i =
        some (blk.toCopy config.blkSize _) := by
    intro i a isSecure blk here
    have flagged := inv.flagged i a isSecure blk here
    refine ⟨flagged, ?_⟩
    simp only [line, held_align, ← flagged, here, Option.map_some]
  have coherent := fun a => inv.lines _ (align_align config.blkSize a)
  refine ⟨fun i j a first second blk other here may there => ?_,
    fun i j a first second blk other here owes there also => ?_,
    fun i a isSecure blk here x same => ?_,
    fun a clean => ?_⟩
  · obtain ⟨flag₁, copy₁⟩ := lined i a first blk here
    obtain ⟨flag₂, copy₂⟩ := lined j a second other there
    exact ⟨(coherent a).sole i _ copy₁ may j _ copy₂, flag₂.trans flag₁.symm⟩
  · obtain ⟨flag₁, copy₁⟩ := lined i a first blk here
    obtain ⟨flag₂, copy₂⟩ := lined j a second other there
    exact ⟨(coherent a).owner i _ copy₁ owes j _ copy₂ also, flag₂.trans flag₁.symm⟩
  · obtain ⟨-, copied⟩ := lined i a isSecure blk here
    exact congrFun ((coherent a).value i _ copied) ⟨x, same⟩
  · have known := ((coherent a).supplied fun i copy found => by
      obtain ⟨blk, here, rfl⟩ := Option.map_eq_some_iff.mp found
      rw [held_align] at here
      exact clean i _ blk here).1
    exact congrFun known ⟨a, rfl⟩

theorem memory_spared (i : Fin config.count) (pkt : Packet) (s : Cluster config.count Memory) :
    Spared (Memory.level config.blkSize) flag i pkt s :=
  ⟨fun _ _ _ _ => .inr rfl, fun _ _ _ _ _ _ _ => trivial⟩

/-- Over one memory no request fails, every read has the latest bytes, and copies are coherent. -/
theorem reads_return_latest_writes (config : ClusterConfig) (flag : Addr → Bool)
    (functional : Packet → Cluster config.count Memory → Cluster config.count Memory)
    (raw : Fin config.count → BlkPtr → Nat → UInt8) (mem : Memory)
    {es : List (Fin config.count × Packet)} (allowed : ∀ e ∈ es, Allowed config flag e.2) :
    ∃ s, Machine.run (step config (fun pkt mem => mem.access pkt) functional)
        (start config raw mem mem.data) es = some s ∧ s.Consistent config ∧
      ∀ i pkt, Allowed config flag pkt → ∃ answer t, recvAtomic config
        (fun pkt mem => mem.access pkt) functional i pkt s.system = .ok (answer, t) ∧
          Returns pkt answer s.latest := by
  have lawful : Fin config.count → (Memory.level config.blkSize).Lawful (fun _ => True) flag := by
    intro i
    obtain ⟨m, power, narrow⟩ := blkSize_power i
    exact Memory.lawful power narrow flag
  have first : Inv (Memory.level config.blkSize) (fun _ => True) flag mem.data
      (start config raw mem mem.data).system :=
    start_inv raw trivial fun _ => ⟨rfl, fun _ => rfl⟩
  obtain ⟨s, ran, inv⟩ := run_ok functional
    (s := start config raw mem mem.data) lawful memory_spared first allowed
  refine ⟨s, ran, consistent_of_inv inv, fun i pkt next => ?_⟩
  obtain ⟨answer, t, received, -, returns⟩ := request_ok functional (lawful i) inv
    next.1 next.2 (memory_spared i pkt s.system)
  exact ⟨answer, t, received, returns⟩

/-- A cache at the top with place for one block. -/
def oneBlockCache : CacheConfig :=
  .oneSet 0 true

/-- Two such caches on a bus. -/
def twoCaches : ClusterConfig where
  count := 2
  blkSize := 16
  caches := fun _ => oneBlockCache
  caches_blkSize := fun _ => rfl
  caches_isTopLevel := fun _ => rfl

/-- A request for one byte at an address. -/
def byteRequest (isSecure : Bool) (cmd : MemCmd) (addr : Addr) (value : UInt8) : Packet :=
  .ofRequest ⟨addr, 1, 0, isSecure, false, false, false, false, 0⟩ cmd fun _ => value

theorem byteRequest_fromCpu (isSecure : Bool) {cmd : MemCmd}
    (kind : cmd = .readReq ∨ cmd = .writeReq) (value : UInt8) :
    (byteRequest isSecure cmd 0 value).FromCpu 16 where
  kind := by
    rcases kind with rfl | rfl
    · exact .inl rfl
    · exact .inr (.inr (.inl rfl))
  fresh := rfl
  cacheable := rfl
  inside := by
    show Packet.getOffset 16 (byteRequest false .readReq 0 0) + 1 ≤ 16
    decide
  swaps := fun _ => ⟨show 1 ≤ 8 by decide, fun never => absurd never Bool.false_ne_true⟩

/-- Nothing is written with a functional access. -/
def noFunctional : Packet → Cluster 2 Memory → Cluster 2 Memory :=
  fun _ s => s

/-- A memory of zeros. -/
def zeros : Memory :=
  { data := fun _ => 0, lockedAddrList := [] }

/-- One cache writes a byte, and the other one reads it from there. -/
theorem written_byte_read_by_other :
    ∃ s, Machine.run (step twoCaches (fun pkt mem => mem.access pkt) noFunctional)
        (start twoCaches (fun _ _ _ => 0) zeros zeros.data)
        [((0 : Fin 2), byteRequest false .writeReq 0 7)] = some s ∧ s.latest 0 = 7 ∧
      s.Consistent twoCaches ∧ ∃ answer t, recvAtomic twoCaches (fun pkt mem => mem.access pkt)
        noFunctional (1 : Fin 2) (byteRequest false .readReq 0 0) s.system = .ok (answer, t) ∧
          answer.data 0 = 7 := by
  have replay : (Machine.run (step twoCaches (fun pkt mem => mem.access pkt) noFunctional)
      (start twoCaches (fun _ _ _ => 0) zeros zeros.data)
      [((0 : Fin 2), byteRequest false .writeReq 0 7)]).any (fun s => s.latest 0 = 7) = true := by
    decide +kernel
  obtain ⟨s, ran, seen⟩ := (Option.any_eq_true _ _).mp replay
  obtain ⟨t, same, consistent, next⟩ := @reads_return_latest_writes twoCaches (fun _ => false)
    noFunctional (fun _ _ _ => 0) zeros [((0 : Fin 2), byteRequest false .writeReq 0 7)]
    (by
      intro e member
      obtain rfl := List.mem_singleton.mp member
      exact ⟨byteRequest_fromCpu false (.inr rfl) 7, rfl⟩)
  obtain rfl := Option.some.inj (ran.symm.trans same)
  obtain ⟨answer, after, received, returns⟩ := next (1 : Fin 2) (byteRequest false .readReq 0 0)
    ⟨byteRequest_fromCpu false (.inl rfl) 0, rfl⟩
  refine ⟨s, ran, of_decide_eq_true seen, consistent, answer, after, received, ?_⟩
  exact (returns rfl 0 (by decide)).trans (of_decide_eq_true seen)

/-- A non-secure read does not see what a secure write to the same byte has left in a cache. -/
theorem secure_write_hidden_from_read :
    ¬ ∀ (config : ClusterConfig)
      (functional : Packet → Cluster config.count Memory → Cluster config.count Memory)
      (raw : Fin config.count → BlkPtr → Nat → UInt8) (mem : Memory)
      (es : List (Fin config.count × Packet)), (∀ e ∈ es, e.2.FromCpu config.blkSize) →
      ∃ s, Machine.run (step config (fun pkt mem => mem.access pkt) functional)
          (start config raw mem mem.data) es = some s ∧ s.Consistent config ∧
        ∀ i pkt, pkt.FromCpu config.blkSize → ∃ answer t, recvAtomic config
          (fun pkt mem => mem.access pkt) functional i pkt s.system = .ok (answer, t) ∧
            Returns pkt answer s.latest := by
  intro always
  have write : (byteRequest true .writeReq 0 7).FromCpu 16 := byteRequest_fromCpu true (.inr rfl) 7
  have read : (byteRequest false .readReq 0 0).FromCpu 16 := byteRequest_fromCpu false (.inl rfl) 0
  obtain ⟨s, ran, -, next⟩ := always twoCaches noFunctional (fun _ _ _ => 0) zeros
    [((0 : Fin 2), byteRequest true .writeReq 0 7)] (by
      intro e member
      obtain rfl := List.mem_singleton.mp member
      exact write)
  obtain ⟨answer, t, received, returns⟩ := next (0 : Fin 2) (byteRequest false .readReq 0 0) read
  -- The write is in a secure block, and the read fetches the old byte from the memory.
  have replay : (Machine.run (step twoCaches (fun pkt mem => mem.access pkt) noFunctional)
      (start twoCaches (fun _ _ _ => 0) zeros zeros.data)
      [((0 : Fin 2), byteRequest true .writeReq 0 7)]).all (fun s => s.latest 0 == (7 : UInt8) &&
        match recvAtomic twoCaches (fun pkt mem => mem.access pkt) noFunctional (0 : Fin 2)
          (byteRequest false .readReq 0 0) s.system with
        | .ok (answer, _) => answer.data 0 == (0 : UInt8)
        | .error _ => true) = true := by
    decide +kernel
  rw [ran, Option.all_some, received] at replay
  simp only [Bool.and_eq_true, beq_iff_eq] at replay
  have got : answer.data 0 = s.latest 0 := returns rfl 0 (by decide)
  rw [replay.1, replay.2] at got
  exact absurd got (by decide)

end CoherentRun

end GemDroid
