import GemDroid.Mem.SharedL2

/-! Two levels of caches: when the last value of a block is in a cache or in the memory. -/

namespace GemDroid

open Align Cache Cluster

/-- Caches on a bus above a cache that they share. -/
structure HierarchyConfig where
  count : Nat
  caches : Fin count → CacheConfig
  l2 : CacheConfig
  caches_blkSize : ∀ i, (caches i).blkSize = l2.blkSize
  caches_isTopLevel : ∀ i, (caches i).isTopLevel = true
  l2_isTopLevel : l2.isTopLevel = false

namespace HierarchyConfig

/-- The caches on the bus. -/
def cluster (config : HierarchyConfig) : ClusterConfig where
  count := config.count
  blkSize := config.l2.blkSize
  caches := config.caches
  caches_blkSize := config.caches_blkSize
  caches_isTopLevel := config.caches_isTopLevel

/-- The second level below the caches on the bus. -/
def level (config : HierarchyConfig) (beyond : Packet → SharedL2 → SharedL2)
    (flag : Addr → Bool) : Level config.cluster.blkSize SharedL2 :=
  SharedL2.level config.l2 beyond flag

end HierarchyConfig

/-- The two levels with a record of the value that was last written to each byte. -/
abbrev HierarchyRun (config : HierarchyConfig) :=
  CoherentRun config.cluster.count SharedL2

namespace HierarchyRun

variable (config : HierarchyConfig) (flag : Addr → Bool)
  (functional : Packet → Cluster config.cluster.count SharedL2 →
    Cluster config.cluster.count SharedL2)
  (beyond : Packet → SharedL2 → SharedL2)

/-- Two levels without blocks over a memory. -/
def start (raw : Fin config.cluster.count → BlkPtr → Nat → UInt8) (raw₂ : BlkPtr → Nat → UInt8)
    (mem : Memory) : HierarchyRun config :=
  CoherentRun.start config.cluster raw { cache := .start config.l2 raw₂, memory := mem } mem.data

/-- A CPU sends a request; a failed assertion ends the run. -/
def step (s : HierarchyRun config) (e : Fin config.cluster.count × Packet) :
    Option (HierarchyRun config) :=
  CoherentRun.step config.cluster (SharedL2.recvAtomic config.l2 beyond) functional s e

/-- The memory has the latest byte of every block that no cache owes to it. -/
def Kept (s : HierarchyRun config) : Prop :=
  ∀ a, (∀ i isSecure blk, held config.cluster s.system i a isSecure = some blk →
      blk.isDirty = false) →
    (∀ isSecure blk, copy config.l2 s.system.below.cache a isSecure = some blk →
      blk.isDirty = false) →
    s.system.below.memory.data a = s.latest a

/--
A request that cannot lose a value of the second level.

Its block is always asked for in one security state. If it only asks for permission to write to
its copy, then it does write, or the second level owes nothing. If a dirty secure block makes
place for its own, the second level has a copy of that block and does not replace it.
-/
structure Spares (s : HierarchyRun config) (e : Fin config.cluster.count × Packet) : Prop where
  allowed : CoherentRun.Allowed config.cluster flag e.2
  upgrade : ∀ blk, held config.cluster s.system e.1 e.2.addr e.2.isSecure = some blk →
    e.2.cmd.needsExclusive = true → blk.isWritable = false →
    commits (config.caches e.1) e.2 blk = true ∨
      ∀ old, copy config.l2 s.system.below.cache e.2.addr e.2.isSecure = some old →
        old.isDirty = false
  victim : held config.cluster s.system e.1 e.2.addr e.2.isSecure = none →
    ∀ v ptr, align config.l2.blkSize v = v → flag v = true →
    (s.system.caches e.1).tags.findVictim (config.caches e.1).toLruConfig e.2.addr = .ok ptr →
    (s.system.caches e.1).tags.findBlock (config.caches e.1).toLruConfig v true = some ptr →
    ((s.system.caches e.1).tags.blks ptr).isDirty = true →
    ∃ place, s.system.below.cache.tags.findBlock config.l2.toLruConfig v true = some place ∧
      (copy config.l2 s.system.below.cache e.2.addr e.2.isSecure = none →
        s.system.below.cache.tags.findVictim config.l2.toLruConfig e.2.addr ≠ .ok place)

variable {config flag functional beyond} {s : HierarchyRun config}

/-- The two levels as the caches of the bus see them. -/
abbrev Good (config : HierarchyConfig) (flag : Addr → Bool)
    (beyond : Packet → SharedL2 → SharedL2) (s : HierarchyRun config) : Prop :=
  Inv (config.level beyond flag) (SharedL2.WF config.l2 flag) flag s.latest s.system

theorem findVictim_align {cache : CacheConfig} (c : Cache) (a : Addr) :
    c.tags.findVictim cache.toLruConfig (align cache.blkSize a) =
      c.tags.findVictim cache.toLruConfig a := by
  have same : cache.blkAlign (align cache.blkSize a) = cache.blkAlign a := by
    rw [LruConfig.blkAlign_eq, LruConfig.blkAlign_eq, align_align]
  obtain ⟨-, set⟩ := (LruConfig.blkAlign_eq_iff _ _).mp same
  simp only [Lru.findVictim, set]

theorem block_align (below : SharedL2) {a : Addr} {isSecure : Bool}
    (secure : isSecure = flag (align config.l2.blkSize a)) :
    SharedL2.block config.l2 flag below (align config.l2.blkSize a) =
      copy config.l2 below.cache a isSecure := by
  rw [SharedL2.block, ← secure]
  refine copy_congr ?_
  rw [LruConfig.blkAlign_eq, LruConfig.blkAlign_eq, align_align]

theorem Spares.spared {e : Fin config.cluster.count × Packet} (spares : Spares config flag s e) :
    Spared (config.level beyond flag) flag e.1 e.2 s.system where
  upgrade := by
    intro blk here exclusive shared
    rcases spares.upgrade blk here exclusive shared with writes | clean
    · exact .inl writes
    · refine .inr ?_
      have same := block_align s.system.below spares.allowed.2
      show (SharedL2.block config.l2 flag s.system.below
        (align config.l2.blkSize e.2.addr)).any CacheBlk.isDirty = false
      rw [same]
      cases found : copy config.l2 s.system.below.cache e.2.addr e.2.isSecure with
      | none => rfl
      | some old => exact clean old found
  victim := by
    intro missing v ptr aligned victim found dirty
    cases secure : flag v with
    | false => exact .inl secure
    | true =>
      rw [secure] at found
      obtain ⟨place, there, stays⟩ := spares.victim missing v ptr aligned secure victim found dirty
      refine .inr ⟨place, by rw [secure]; exact there, fun empty => ?_⟩
      have same := block_align s.system.below spares.allowed.2
      have absent : SharedL2.block config.l2 flag s.system.below
          (align config.l2.blkSize e.2.addr) = none := by
        rw [SharedL2.block, copy, Option.map_eq_none_iff]
        exact empty
      exact fun replaced => stays (same.symm.trans absent)
        ((findVictim_align s.system.below.cache e.2.addr).symm.trans replaced)

theorem Good.kept (good : Good config flag beyond s) : s.Kept config := by
  intro a clean clean₂
  have coherent := good.lines (align config.l2.blkSize a) (align_align config.l2.blkSize a)
  have supplied := coherent.supplied fun i copied found => by
    obtain ⟨blk, here, rfl⟩ := Option.map_eq_some_iff.mp found
    refine clean i (flag (align config.l2.blkSize a)) blk ?_
    exact (held_align s.system i a _).symm.trans here
  have owed : (line (config.level beyond flag) flag s.system
      (align config.l2.blkSize a)).source.dirty = false := by
    show (SharedL2.block config.l2 flag s.system.below
      (align config.l2.blkSize a)).any CacheBlk.isDirty = false
    rw [block_align s.system.below rfl]
    cases found : copy config.l2 s.system.below.cache a (flag (align config.l2.blkSize a)) with
    | none => rfl
    | some old => exact clean₂ _ old found
  exact congrFun (supplied.2 owed) ⟨a, rfl⟩

theorem start_good (raw : Fin config.cluster.count → BlkPtr → Nat → UInt8)
    (raw₂ : BlkPtr → Nat → UInt8) (mem : Memory) :
    Good config flag beyond (start config raw raw₂ mem) := by
  have empty : ∀ a isSecure, copy config.l2 (.start config.l2 raw₂) a isSecure = none := by
    intro a isSecure
    refine (copy_eq_none_iff (start_wf _ _)).mpr fun ptr _ holds => ?_
    exact absurd (Lru.holds_iff.mp holds.2).2.1 Bool.false_ne_true
  have wf : SharedL2.WF config.l2 flag { cache := .start config.l2 raw₂, memory := mem } :=
    ⟨start_wf _ _, fun a f blk found => absurd ((empty a f).symm.trans found) (by simp),
      fun a f blk found => absurd ((empty a f).symm.trans found) (by simp)⟩
  have missing : ∀ b, (config.level beyond flag).view
      { cache := .start config.l2 raw₂, memory := mem } b =
        { dirty := false, supply := bytesAt config.l2.blkSize b mem.data,
          memory := bytesAt config.l2.blkSize b mem.data } :=
    fun b => SharedL2.view_of_none (empty b (flag b))
  refine CoherentRun.start_inv raw wf fun b => ?_
  rw [missing]
  exact ⟨rfl, fun _ => rfl⟩

/--
Where no request loses what only the second level has, the latest value is never lost.

Each request is then answered, and a read has the latest bytes.
-/
theorem ownership_never_lost (config : HierarchyConfig) (flag : Addr → Bool)
    (functional : Packet → Cluster config.cluster.count SharedL2 →
      Cluster config.cluster.count SharedL2)
    (beyond : Packet → SharedL2 → SharedL2) (raw : Fin config.cluster.count → BlkPtr → Nat → UInt8)
    (raw₂ : BlkPtr → Nat → UInt8) (mem : Memory) (es : List (Fin config.cluster.count × Packet))
    (spares : Machine.Meets (step config functional beyond) (Spares config flag)
      (start config raw raw₂ mem) es) {s : HierarchyRun config}
    (ran : Machine.run (step config functional beyond) (start config raw raw₂ mem) es = some s) :
    s.Kept config ∧ ∀ i pkt, Spares config flag s (i, pkt) →
      ∃ answer t, recvAtomic config.cluster (SharedL2.recvAtomic config.l2 beyond) functional i pkt
        s.system = .ok (answer, t) ∧ Returns pkt answer s.latest := by
  have lawful : (config.level beyond flag).Lawful (SharedL2.WF config.l2 flag) flag :=
    SharedL2.lawful beyond config.l2_isTopLevel
  have good : Good config flag beyond s := by
    refine CoherentRun.run_inv functional (fun _ => lawful)
      (start_good raw raw₂ mem) ?_ ran
    exact spares.mono fun _ _ each => ⟨each.allowed, each.spared⟩
  refine ⟨good.kept, fun i pkt next => ?_⟩
  obtain ⟨answer, t, received, -, returns⟩ := request_ok functional lawful good
    next.allowed.1 next.allowed.2 next.spared
  exact ⟨answer, t, received, returns⟩

/-- A cache of the second level with place for two blocks. -/
def sharedCache : CacheConfig :=
  .oneSet 1 false

/-- A data cache and an instruction cache of one block each above it. -/
def splitCaches : HierarchyConfig where
  count := 2
  caches := fun _ => .oneSet 0 true
  l2 := sharedCache
  caches_blkSize := fun _ => rfl
  caches_isTopLevel := fun _ => rfl
  l2_isTopLevel := rfl

/-- A request of one byte, of data or of an instruction. -/
def splitRequest (isInstFetch : Bool) (cmd : MemCmd) (addr : Addr) (value : UInt8) : Packet :=
  .ofRequest ⟨addr, 1, 0, false, false, isInstFetch, false, false, 0⟩ cmd fun _ => value

theorem splitRequest_allowed (isInstFetch : Bool) {cmd : MemCmd}
    (kind : cmd = .readReq ∨ cmd = .writeReq ∨ cmd = .storeCondReq) {addr : Addr}
    (place : addr = 0 ∨ addr = 16) (value : UInt8) :
    CoherentRun.Allowed splitCaches.cluster (fun _ => false)
      (splitRequest isInstFetch cmd addr value) := by
  refine ⟨⟨?_, rfl, rfl, ?_, fun _ => ⟨show 1 ≤ 8 by decide, ?_⟩⟩, rfl⟩
  · rcases kind with rfl | rfl | rfl
    · exact .inl rfl
    · exact .inr (.inr (.inl rfl))
    · exact .inr (.inr (.inr (.inl rfl)))
  · show Packet.getOffset 16 (splitRequest false .readReq addr 0) + 1 ≤ 16
    rcases place with rfl | rfl <;> decide
  · exact fun never => absurd never Bool.false_ne_true

/-- What was written goes down to the second level, from where it is read. -/
theorem evicted_byte_read_from_below :
    ∃ s, Machine.run (step splitCaches (fun _ s => s) (fun _ s => s))
        (start splitCaches (fun _ _ _ => 0) (fun _ _ => 0) CoherentRun.zeros)
        [((0 : Fin 2), splitRequest false .writeReq 0 7),
          ((0 : Fin 2), splitRequest false .readReq 16 0)] = some s ∧
      s.Kept splitCaches ∧ ∃ answer t, recvAtomic splitCaches.cluster
        (SharedL2.recvAtomic splitCaches.l2 fun _ s => s) (fun _ s => s) (1 : Fin 2)
        (splitRequest true .readReq 0 0) s.system = .ok (answer, t) ∧ answer.data 0 = 7 := by
  have replay : (Machine.run (step splitCaches (fun _ s => s) (fun _ s => s))
      (start splitCaches (fun _ _ _ => 0) (fun _ _ => 0) CoherentRun.zeros)
      [((0 : Fin 2), splitRequest false .writeReq 0 7),
        ((0 : Fin 2), splitRequest false .readReq 16 0)]).any
      (fun s => s.latest 0 == (7 : UInt8)) = true := by
    decide +kernel
  obtain ⟨s, ran, seen⟩ := (Option.any_eq_true _ _).mp replay
  have reads : ∀ (isInstFetch : Bool) addr, addr = 0 ∨ addr = 16 → ∀ i t,
      Spares splitCaches (fun _ => false) t (i, splitRequest isInstFetch .readReq addr 0) := by
    intro isInstFetch addr place i t
    refine ⟨splitRequest_allowed isInstFetch (.inl rfl) place 0, fun _ _ never => ?_,
      fun _ _ _ _ never => absurd never Bool.false_ne_true⟩
    exact absurd never (show ¬ MemCmd.needsExclusive .readReq = true by decide)
  have spares : Machine.Meets (step splitCaches (fun _ s => s) (fun _ s => s))
      (Spares splitCaches fun _ => false)
      (start splitCaches (fun _ _ _ => 0) (fun _ _ => 0) CoherentRun.zeros)
      [((0 : Fin 2), splitRequest false .writeReq 0 7),
        ((0 : Fin 2), splitRequest false .readReq 16 0)] := by
    refine fun _ _ => ⟨⟨splitRequest_allowed false (.inr (.inl rfl)) (.inl rfl) 7, ?_,
      fun _ _ _ _ never => absurd never Bool.false_ne_true⟩,
      fun _ _ => ⟨reads false 16 (.inr rfl) _ _, trivial⟩⟩
    exact fun _ _ _ _ => .inl rfl
  obtain ⟨kept, next⟩ := ownership_never_lost splitCaches (fun _ => false) (fun _ s => s)
    (fun _ s => s) (fun _ _ _ => 0) (fun _ _ => 0) CoherentRun.zeros _ spares ran
  obtain ⟨answer, t, received, returns⟩ := next (1 : Fin 2) (splitRequest true .readReq 0 0)
    (reads true 0 (.inl rfl) _ s)
  have got : answer.data 0 = s.latest 0 := returns rfl 0 (by decide)
  exact ⟨s, ran, kept, answer, t, received, got.trans (by simpa using seen)⟩

/-- No cache holds a dirty copy of the block around an address. -/
def clean (s : HierarchyRun splitCaches) (a : Addr) : Bool :=
  [true, false].all fun isSecure =>
    (copy sharedCache s.system.below.cache a isSecure).all (fun blk => !blk.isDirty) &&
      (List.finRange 2).all fun i =>
        (held splitCaches.cluster s.system i a isSecure).all fun blk => !blk.isDirty

theorem clean_upper {s : HierarchyRun splitCaches} {a : Addr} (none : s.clean a = true)
    (i : Fin 2) (isSecure : Bool) (blk : CacheBlk)
    (here : held splitCaches.cluster s.system i a isSecure = some blk) : blk.isDirty = false := by
  simp only [clean, List.all_eq_true, Bool.and_eq_true] at none
  have each := (none isSecure (by cases isSecure <;> simp)).2 i (List.mem_finRange i)
  rw [here, Option.all_some] at each
  simpa using each

theorem clean_lower {s : HierarchyRun splitCaches} {a : Addr} (none : s.clean a = true)
    (isSecure : Bool) (blk : CacheBlk)
    (here : copy sharedCache s.system.below.cache a isSecure = some blk) :
    blk.isDirty = false := by
  simp only [clean, List.all_eq_true, Bool.and_eq_true] at none
  have each := (none isSecure (by cases isSecure <;> simp)).1
  rw [here, Option.all_some] at each
  simpa using each

/--
A store-conditional without a lock loses a dirty block of the second level.

The data cache writes a byte and loses its block to the second level. The instruction cache and
then the data cache get a shared copy, and the second level still owes the byte. The
store-conditional takes all other copies away, fails, and leaves a clean copy.
-/
theorem failed_store_conditional_loses_byte :
    ¬ ∀ (config : HierarchyConfig) (flag : Addr → Bool)
      (functional : Packet → Cluster config.cluster.count SharedL2 →
        Cluster config.cluster.count SharedL2)
      (beyond : Packet → SharedL2 → SharedL2)
      (raw : Fin config.cluster.count → BlkPtr → Nat → UInt8) (raw₂ : BlkPtr → Nat → UInt8)
      (mem : Memory) (es : List (Fin config.cluster.count × Packet)),
      (∀ e ∈ es, CoherentRun.Allowed config.cluster flag e.2) →
      ∀ s, Machine.run (step config functional beyond) (start config raw raw₂ mem) es = some s →
        s.Kept config := by
  intro always
  have replay : (Machine.run (step splitCaches (fun _ s => s) (fun _ s => s))
      (start splitCaches (fun _ _ _ => 0) (fun _ _ => 0) CoherentRun.zeros)
      [((0 : Fin 2), splitRequest false .writeReq 0 7),
        ((0 : Fin 2), splitRequest false .readReq 16 0),
        ((1 : Fin 2), splitRequest true .readReq 0 0),
        ((0 : Fin 2), splitRequest false .readReq 0 0),
        ((0 : Fin 2), splitRequest false .storeCondReq 0 9)]).any (fun s =>
          s.clean 0 && s.latest 0 == (7 : UInt8) &&
            s.system.below.memory.data 0 == (0 : UInt8)) = true := by
    decide +kernel
  obtain ⟨s, ran, seen⟩ := (Option.any_eq_true _ _).mp replay
  simp only [Bool.and_eq_true, beq_iff_eq] at seen
  obtain ⟨⟨none, latest⟩, memory⟩ := seen
  have kept := always splitCaches (fun _ => false) (fun _ s => s) (fun _ s => s) (fun _ _ _ => 0)
    (fun _ _ => 0) CoherentRun.zeros _ (by
      intro e member
      simp only [List.mem_cons, List.not_mem_nil, or_false] at member
      rcases member with rfl | rfl | rfl | rfl | rfl
      · exact splitRequest_allowed false (.inr (.inl rfl)) (.inl rfl) 7
      · exact splitRequest_allowed false (.inl rfl) (.inr rfl) 0
      · exact splitRequest_allowed true (.inl rfl) (.inl rfl) 0
      · exact splitRequest_allowed false (.inl rfl) (.inl rfl) 0
      · exact splitRequest_allowed false (.inr (.inr rfl)) (.inl rfl) 9) s ran
  have now := kept 0 (clean_upper none) (clean_lower none)
  rw [memory, latest] at now
  exact absurd now (by decide)

end HierarchyRun

end GemDroid
