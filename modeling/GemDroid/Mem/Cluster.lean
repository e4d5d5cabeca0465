import GemDroid.Mem.CpuAccess

/-! Caches at the top of a system on one coherent bus, and what a request finds in the others. -/

namespace GemDroid

open Align Cache

/-- The caches on a bus, which all work with the cache lines of the system. -/
structure ClusterConfig where
  count : Nat
  blkSize : Nat
  caches : Fin count → CacheConfig
  caches_blkSize : ∀ i, (caches i).blkSize = blkSize
  caches_isTopLevel : ∀ i, (caches i).isTopLevel = true

/-- The state of the caches on a bus and of what is below it. -/
structure Cluster (count : Nat) (Below : Type) where
  caches : Fin count → Cache
  below : Below

namespace Cluster

variable {Below : Type}

/-- One cache of the bus. -/
def slot {count : Nat} (i : Fin count) : Slot (Cluster count Below) where
  get s := s.caches i
  set c s := { s with caches := Function.update s.caches i c }
  get_set _ _ := Function.update_self ..
  set_get s := by rw [Function.update_eq_self]
  set_set _ _ _ := by simp only [Function.update_idem]

@[simp] theorem slot_get {count : Nat} (i : Fin count) (s : Cluster count Below) :
    (slot i).get s = s.caches i := rfl

section Machine

variable (config : ClusterConfig) (below : Packet → Below → Except CacheFault (Packet × Below))
  (functional : Packet → Cluster config.count Below → Cluster config.count Below)

/-- A cache sees a request of another one; nothing above a cache answers it. -/
def snoop (i : Fin config.count) (pkt : Packet) (s : Cluster config.count Below) :
    Except CacheFault (Packet × Cluster config.count Below) :=
  recvAtomicSnoop (config.caches i) (slot i) (fun pkt s => .ok (pkt, s)) pkt s

/-- The port of the bus to what is below it. -/
def toBelow (pkt : Packet) (s : Cluster config.count Below) :
    Except CacheFault (Packet × Cluster config.count Below) := do
  let (pkt, under) ← below pkt s.below
  return (pkt, { s with below := under })

/-- The port of a cache to the bus. -/
def port (i : Fin config.count) : MemSidePort (Cluster config.count Below) where
  sendAtomic := CoherentBus.recvAtomic (snoop config) (List.finRange config.count)
    (toBelow config below) i
  sendFunctional := functional

/-- A CPU sends a request to its cache. -/
def recvAtomic (i : Fin config.count) (pkt : Packet) (s : Cluster config.count Below) :
    Except CacheFault (Packet × Cluster config.count Below) :=
  Cache.recvAtomic (config.caches i) (slot i) (port config below functional i) pkt s

end Machine

variable {config : ClusterConfig} {s t : Cluster config.count Below} {i : Fin config.count}

/-- The copy that a cache has of a block. -/
def held (config : ClusterConfig) (s : Cluster config.count Below) (i : Fin config.count)
    (b : Addr) (isSecure : Bool) : Option CacheBlk :=
  copy (config.caches i) (s.caches i) b isSecure

/-- What a row of snoops makes of a packet and of the caches. -/
structure Forwarded (config : ClusterConfig) (ports : List (Fin config.count))
    (s t : Cluster config.count Below) (pkt answer : Packet) (before after : MemCmd) : Prop where
  below : t.below = s.below
  others : ∀ j, j ∉ ports → t.caches j = s.caches j
  snooped : ∀ j ∈ ports, Replaced (config.caches j) (s.caches j) (t.caches j) pkt.addr
    pkt.isSecure (snooped pkt.cmd.isInvalidate (held config s j pkt.addr pkt.isSecure))
  cmd : answer.cmd = pkt.cmd
  req : answer.req = pkt.req
  addr : answer.addr = pkt.addr
  isSecure : answer.isSecure = pkt.isSecure
  size : answer.size = pkt.size
  shared : answer.shared = (pkt.shared || (!pkt.cmd.isInvalidate &&
    ports.any fun j => (held config s j pkt.addr pkt.isSecure).isSome))
  owner : ∀ j ∈ ports, ∀ blk, held config s j pkt.addr pkt.isSecure = some blk →
    blk.isDirty = true → answer.memInhibit = true ∧ after = pkt.cmd.responseCommand ∧
      ∀ k < pkt.size, answer.data k = blk.data k
  unowned : (∀ j ∈ ports, ∀ blk, held config s j pkt.addr pkt.isSecure = some blk →
    blk.isDirty = false) →
      answer.memInhibit = pkt.memInhibit ∧ after = before ∧ answer.data = pkt.data

/-- At most one of the caches has a dirty copy of the block, and none if one answered. -/
def OneOwner (config : ClusterConfig) (ports : List (Fin config.count))
    (s : Cluster config.count Below) (pkt : Packet) : Prop :=
  (∀ i ∈ ports, ∀ j ∈ ports, ∀ blk other,
    held config s i pkt.addr pkt.isSecure = some blk → blk.isDirty = true →
    held config s j pkt.addr pkt.isSecure = some other → other.isDirty = true → i = j) ∧
  (pkt.memInhibit = true → ∀ i ∈ ports, ∀ blk,
    held config s i pkt.addr pkt.isSecure = some blk → blk.isDirty = false)

theorem blkSize_power (j : Fin config.count) : ∃ m, config.blkSize = 2 ^ m ∧ m < 64 := by
  rw [← config.caches_blkSize j]
  exact ⟨_, (config.caches j).blkSize_eq, (config.caches j).blkSize_narrow⟩

theorem offset_of_aligned (j : Fin config.count) {b : Addr}
    (aligned : align config.blkSize b = b) : offset config.blkSize b = 0 := by
  obtain ⟨m, power, narrow⟩ := blkSize_power j
  rw [← aligned]
  exact offset_align power narrow b

theorem offset_lt_blkSize (j : Fin config.count) (a : Addr) :
    offset config.blkSize a < config.blkSize := by
  obtain ⟨m, power, narrow⟩ := blkSize_power j
  exact offset_lt power narrow a

/-- One snoop, as the bus takes its answer. -/
theorem forwardOne_ok {pkt : Packet} {before : MemCmd} {j : Fin config.count}
    (wf : WF (config.caches j) (s.caches j)) (fetch : pkt.cmd.isFetch = true)
    (cacheable : pkt.req.isUncacheable = false)
    (aligned : pkt.getOffset (config.caches j).blkSize = 0)
    (single : OneOwner config [j] s pkt)
    (silent : pkt.memInhibit = false → before = .invalidCmd) :
    ∃ answer after d, CoherentBus.forwardOne (snoop config) pkt.cmd (pkt, before, s) j =
        .ok (answer, after, (slot j).set d s) ∧
      Forwarded config [j] s ((slot j).set d s) pkt answer before after := by
  obtain ⟨-, -, request, -, -, -, -, response, differs, -⟩ := MemCmd.isFetch_facts fetch
  obtain ⟨reply, d, snooped, answered, replaced⟩ := recvAtomicSnoop_ok (slot j) (s := s) wf
    fetch cacheable aligned fun blk here dirty => by
      by_contra inhibited
      have clean := single.2 (by simpa using inhibited) j (by simp) blk here
      exact absurd (clean.symm.trans dirty) Bool.false_ne_true
  -- One cache was asked, and the others are as they were.
  have there : ((slot j).set d s).caches j = d := (slot j).get_set d s
  have elsewhere : ∀ m, m ∉ [j] → ((slot j).set d s).caches m = s.caches m := by
    intro m other
    exact Function.update_of_ne (by simpa using other) _ _
  have mine : ∀ m ∈ [j], Replaced (config.caches m) (s.caches m) (((slot j).set d s).caches m)
      pkt.addr pkt.isSecure (Cache.snooped pkt.cmd.isInvalidate
        (held config s m pkt.addr pkt.isSecure)) := by
    intro m member
    obtain rfl := List.mem_singleton.mp member
    rw [there]
    exact replaced
  have sharedness : reply.shared = (pkt.shared || (!pkt.cmd.isInvalidate &&
      [j].any fun m => (held config s m pkt.addr pkt.isSecure).isSome)) := by
    simpa [held] using answered.shared
  by_cases owned : ∃ blk, held config s j pkt.addr pkt.isSecure = some blk ∧ blk.isDirty = true
  · -- The owner responds, and the bus keeps the response aside.
    obtain ⟨blk, here, dirty⟩ := owned
    obtain ⟨cmd, inhibits, data⟩ := answered.owner blk here dirty
    have first : before = .invalidCmd := by
      refine silent ?_
      by_contra inhibited
      have clean := single.2 (by simpa using inhibited) j (by simp) blk here
      exact absurd (clean.symm.trans dirty) Bool.false_ne_true
    refine ⟨{ reply with cmd := pkt.cmd }, pkt.cmd.responseCommand, d, ?_, ?_⟩
    · have done : snoop config j pkt s = .ok (reply, (slot j).set d s) := snooped
      simp [CoherentBus.forwardOne, done, Bind.bind, Except.bind, cmd, response, differs, inhibits,
        first]
    · exact {
        below := rfl
        others := elsewhere
        snooped := mine
        cmd := rfl
        req := answered.req
        addr := answered.addr
        isSecure := answered.isSecure
        size := answered.size
        shared := sharedness
        owner := fun m member other also dirty' => by
          obtain rfl := List.mem_singleton.mp member
          obtain rfl := Option.some.inj (here.symm.trans also)
          exact ⟨inhibits, rfl, data⟩
        unowned := fun clean =>
          absurd ((clean j (by simp) blk here).symm.trans dirty) Bool.false_ne_true }
  · have clean : ∀ blk, held config s j pkt.addr pkt.isSecure = some blk →
        blk.isDirty = false := by
      intro blk here
      by_contra dirty
      exact owned ⟨blk, here, by simpa using dirty⟩
    obtain ⟨cmd, inhibits, data⟩ := answered.passed clean
    refine ⟨reply, before, d, ?_, ?_⟩
    · have done : snoop config j pkt s = .ok (reply, (slot j).set d s) := snooped
      simp [CoherentBus.forwardOne, done, Bind.bind, Except.bind, cmd, request]
    · exact {
        below := rfl
        others := elsewhere
        snooped := mine
        cmd := cmd
        req := answered.req
        addr := answered.addr
        isSecure := answered.isSecure
        size := answered.size
        shared := sharedness
        owner := fun m member blk also dirty => by
          obtain rfl := List.mem_singleton.mp member
          exact absurd ((clean blk also).symm.trans dirty) Bool.false_ne_true
        unowned := fun _ => ⟨inhibits, rfl, data⟩ }

/-- Snoops of different caches add up. -/
theorem Forwarded.cons {u : Cluster config.count Below} {j : Fin config.count}
    {ports : List (Fin config.count)} {pkt middle answer : Packet} {before between after : MemCmd}
    (fresh : j ∉ ports) (single : OneOwner config (j :: ports) s pkt)
    (first : Forwarded config [j] s t pkt middle before between)
    (second : Forwarded config ports t u middle answer between after) :
    Forwarded config (j :: ports) s u pkt answer before after := by
  -- The later caches hold what they held before the first one was asked.
  have same : ∀ m ∈ ports, held config t m middle.addr middle.isSecure =
      held config s m pkt.addr pkt.isSecure := by
    intro m member
    rw [held, held, first.addr, first.isSecure, first.others m (by
      rw [List.mem_singleton]
      rintro rfl
      exact fresh member)]
  exact {
    below := second.below.trans first.below
    others := fun m outside => by
      rw [List.mem_cons, not_or] at outside
      rw [second.others m outside.2, first.others m (by simpa using outside.1)]
    snooped := fun m member => by
      rcases List.mem_cons.mp member with rfl | later
      · rw [second.others m fresh]
        exact first.snooped m (by simp)
      · have step := second.snooped m later
        have kept : t.caches m = s.caches m := first.others m (by
          rw [List.mem_singleton]
          rintro rfl
          exact fresh later)
        rw [same m later, first.addr, first.isSecure, first.cmd, kept] at step
        exact step
    cmd := second.cmd.trans first.cmd
    req := second.req.trans first.req
    addr := second.addr.trans first.addr
    isSecure := second.isSecure.trans first.isSecure
    size := second.size.trans first.size
    shared := by
      have rest : (ports.any fun m => (held config t m middle.addr middle.isSecure).isSome) =
          ports.any fun m => (held config s m pkt.addr pkt.isSecure).isSome := by
        rw [Bool.eq_iff_iff, List.any_eq_true, List.any_eq_true]
        refine exists_congr fun m => and_congr_right fun member => ?_
        rw [same m member]
      rw [second.shared, first.shared, first.cmd, rest, List.any_cons, List.any_cons, List.any_nil,
        Bool.or_false, Bool.and_or_distrib_left, Bool.or_assoc]
    owner := fun m member blk here dirty => by
      rcases List.mem_cons.mp member with rfl | later
      · -- The owner was the first, so the others pass its answer on.
        obtain ⟨inhibits, response, data⟩ := first.owner m (by simp) blk here dirty
        obtain ⟨kept, still, unchanged⟩ := second.unowned fun m' later' blk' here' => by
          rw [same m' later'] at here'
          by_contra dirty'
          have := single.1 m (by simp) m' (by simp [later']) blk blk' here dirty here'
            (by simpa using dirty')
          exact fresh (this ▸ later')
        exact ⟨kept.trans inhibits, still.trans response, fun k inside => by
          rw [unchanged, data k inside]⟩
      · obtain ⟨inhibits, response, data⟩ := second.owner m later blk
          ((same m later).trans here) dirty
        rw [first.cmd] at response
        rw [first.size] at data
        exact ⟨inhibits, response, data⟩
    unowned := fun clean => by
      obtain ⟨inhibits, response, data⟩ := first.unowned fun m member =>
        clean m (by simp [List.mem_singleton.mp member])
      obtain ⟨kept, still, unchanged⟩ := second.unowned fun m member blk here =>
        clean m (by simp [member]) blk ((same m member).symm.trans here)
      exact ⟨kept.trans inhibits, still.trans response, unchanged.trans data⟩ }

/-- All snoops of a request, one after the other. -/
theorem forward_ok {ports : List (Fin config.count)} (distinct : ports.Nodup) {pkt : Packet}
    {before : MemCmd} (wf : ∀ j ∈ ports, WF (config.caches j) (s.caches j))
    (fetch : pkt.cmd.isFetch = true) (cacheable : pkt.req.isUncacheable = false)
    (aligned : ∀ j, pkt.getOffset (config.caches j).blkSize = 0)
    (single : OneOwner config ports s pkt)
    (silent : pkt.memInhibit = false → before = .invalidCmd) :
    ∃ answer after t, ports.foldlM (CoherentBus.forwardOne (snoop config) pkt.cmd)
        (pkt, before, s) = .ok (answer, after, t) ∧
      Forwarded config ports s t pkt answer before after := by
  -- The caches that have not snooped yet are as they were, and at most one of them owns the block.
  induction ports generalizing pkt before s with
  | nil =>
    refine ⟨pkt, before, s, rfl, ?_⟩
    exact {
      below := rfl
      others := fun _ _ => rfl
      snooped := by simp
      cmd := rfl
      req := rfl
      addr := rfl
      isSecure := rfl
      size := rfl
      shared := by simp
      owner := by simp
      unowned := fun _ => ⟨rfl, rfl, rfl⟩ }
  | cons j ports ih =>
    obtain ⟨fresh, rest⟩ := List.nodup_cons.mp distinct
    have alone : OneOwner config [j] s pkt := by
      refine ⟨fun m first n second => ?_, fun inhibited m member => ?_⟩
      · rw [List.mem_singleton.mp first, List.mem_singleton.mp second]
        exact fun _ _ _ _ _ _ => rfl
      · exact single.2 inhibited m (by simp [List.mem_singleton.mp member])
    obtain ⟨middle, between, d, snooped, first⟩ :=
      forwardOne_ok (wf j (by simp)) fetch cacheable (aligned j) alone silent
    have same : ∀ m ∈ ports, held config ((slot j).set d s) m middle.addr middle.isSecure =
        held config s m pkt.addr pkt.isSecure := by
      intro m member
      rw [held, held, first.addr, first.isSecure, first.others m (by
        rw [List.mem_singleton]
        rintro rfl
        exact fresh member)]
    have later : OneOwner config ports ((slot j).set d s) middle := by
      refine ⟨fun m member n other blk blk' here dirty here' dirty' => ?_,
        fun inhibited m member blk here => ?_⟩
      · rw [same m member] at here
        rw [same n other] at here'
        exact single.1 m (by simp [member]) n (by simp [other]) blk blk' here dirty here' dirty'
      · rw [same m member] at here
        by_contra dirty
        -- An answer came from the first cache or was there before, so nobody else owns the block.
        by_cases owned : ∃ blk', held config s j pkt.addr pkt.isSecure = some blk' ∧
            blk'.isDirty = true
        · obtain ⟨blk', here', dirty'⟩ := owned
          have := single.1 j (by simp) m (by simp [member]) blk' blk here' dirty' here
            (by simpa using dirty)
          exact fresh (this ▸ member)
        · obtain ⟨kept, -, -⟩ := first.unowned fun n here' blk' also => by
            rw [List.mem_singleton.mp here'] at also
            by_contra dirty'
            exact owned ⟨blk', also, by simpa using dirty'⟩
          exact dirty (single.2 (kept.symm.trans inhibited) m (by simp [member]) blk here)
    have still : middle.memInhibit = false → between = .invalidCmd := by
      intro free
      by_cases owned : ∃ blk', held config s j pkt.addr pkt.isSecure = some blk' ∧
          blk'.isDirty = true
      · obtain ⟨blk', here', dirty'⟩ := owned
        have inhibits := (first.owner j (by simp) blk' here' dirty').1
        exact absurd (free.symm.trans inhibits) Bool.false_ne_true
      · obtain ⟨kept, same', -⟩ := first.unowned fun n here' blk' also => by
          rw [List.mem_singleton.mp here'] at also
          by_contra dirty'
          exact owned ⟨blk', also, by simpa using dirty'⟩
        rw [same']
        exact silent (kept.symm.trans free)
    obtain ⟨answer, after, t, folded, second⟩ := ih rest (fun m member => by
        rw [first.others m (by
          rw [List.mem_singleton]
          rintro rfl
          exact fresh member)]
        exact wf m (by simp [member]))
      (by rw [first.cmd]; exact fetch) (by rw [first.req]; exact cacheable)
      (fun m => by
        have := aligned m
        simp only [Packet.getOffset] at this ⊢
        rw [first.addr]
        exact this) later still
    refine ⟨answer, after, t, ?_, first.cons fresh single second⟩
    rw [first.cmd] at folded
    rw [List.foldlM_cons, snooped]
    exact folded

end Cluster

end GemDroid
