import GemDroid.Mem.Coherence

/-! Requests to coherent caches: each keeps the invariant and reads the latest bytes. -/

namespace GemDroid

open Function (update update_of_ne update_self)

open Align Cache Ownership

namespace Cluster

variable {Below : Type} {config : ClusterConfig} {level : Level config.blkSize Below}
  {wf : Below → Prop} {flag : Addr → Bool} {bytes : Addr → UInt8}
  {s t : Cluster config.count Below} {i : Fin config.count} {b : Addr} {pkt : Packet}
  (functional : Packet → Cluster config.count Below → Cluster config.count Below)

theorem held_set_self (c : Cache) (a : Addr) (isSecure : Bool) :
    held config ((slot i).set c s) i a isSecure = copy (config.caches i) c a isSecure := by
  rw [held]
  exact congrArg (copy (config.caches i) · a isSecure) ((slot i).get_set c s)

variable {j : Fin config.count} {blk : CacheBlk} {resp fetch : Packet}

theorem held_set_of_ne (c : Cache) (other : j ≠ i) (a : Addr) (isSecure : Bool) :
    held config ((slot i).set c s) j a isSecure = held config s j a isSecure := by
  rw [held, held]
  exact congrArg (copy (config.caches j) · a isSecure) (update_of_ne other _ _)

theorem Inv.reorder (inv : Inv level wf flag bytes s) {c : Cache}
    (wfc : WF (config.caches i) c)
    (same : ∀ a isSecure, copy (config.caches i) c a isSecure = held config s i a isSecure) :
    Inv level wf flag bytes ((slot i).set c s) ∧
      ∀ j a isSecure, held config ((slot i).set c s) j a isSecure = held config s j a isSecure := by
  have all : ∀ j a isSecure,
      held config ((slot i).set c s) j a isSecure = held config s j a isSecure := by
    intro j a isSecure
    by_cases here : j = i
    · rw [here, held_set_self, same]
    · exact held_set_of_ne c here a isSecure
  refine ⟨⟨fun j => ?_, inv.below, fun j a f blk => ?_, fun j a f blk => ?_, fun b aligned => ?_⟩,
    all⟩
  · by_cases here : j = i
    · subst here
      have set : ((slot j).set c s).caches j = c := (slot j).get_set c s
      rw [set]
      exact wfc
    · have set : ((slot i).set c s).caches j = s.caches j := update_of_ne here _ _
      rw [set]
      exact inv.caches j
  · rw [all]
    exact inv.readable j a f blk
  · rw [all]
    exact inv.flagged j a f blk
  · have unchanged : line level flag ((slot i).set c s) b = line level flag s b := by
      simp only [line, all]
      rfl
    rw [unchanged]
    exact inv.lines b aligned

theorem Inv.after {after : Addr → UInt8} (inv : Inv level wf flag bytes s)
    (caches : ∀ j, WF (config.caches j) (t.caches j)) (below : wf t.below)
    (rest : ∀ j a isSecure, ¬ (align config.blkSize a = b ∧ isSecure = flag b) →
      held config t j a isSecure = held config s j a isSecure ∨
        held config t j a isSecure = none)
    (here : ∀ j blk, held config t j b (flag b) = some blk → blk.isReadable = true)
    (lines : ∀ v, align config.blkSize v = v →
      Coherent (bytesAt config.blkSize v after) (line level flag t v)) :
    Inv level wf flag after t where
  caches := caches
  below := below
  readable := by
    intro j a isSecure blk found
    by_cases key : align config.blkSize a = b ∧ isSecure = flag b
    · refine here j blk ?_
      rw [← key.1, held_align, key.1, ← key.2]
      exact found
    · rcases rest j a isSecure key with same | none
      · exact inv.readable j a isSecure blk (same ▸ found)
      · rw [none] at found
        exact absurd found (by simp)
  flagged := by
    intro j a isSecure blk found
    by_cases key : align config.blkSize a = b ∧ isSecure = flag b
    · rw [key.2, key.1]
    · rcases rest j a isSecure key with same | none
      · exact inv.flagged j a isSecure blk (same ▸ found)
      · rw [none] at found
        exact absurd found (by simp)
  lines := lines

/-- The answer to a request that reads has the latest bytes. -/
def Returns (pkt answer : Packet) (bytes : Addr → UInt8) : Prop :=
  pkt.cmd.isRead = true → ∀ k < pkt.size, answer.data k = bytes (pkt.addr + BitVec.ofNat 64 k)

/-- A request that its own copy permits touches no other cache. -/
theorem request_hit (inv : Inv level wf flag bytes s) (cpu : pkt.FromCpu config.blkSize)
    (secure : pkt.isSecure = flag (align config.blkSize pkt.addr))
    (here : held config s i pkt.addr pkt.isSecure = some blk)
    (permitted : permits pkt.cmd blk = true) :
    ∃ answer t, recvAtomic config level.recvAtomic functional i pkt s = .ok (answer, t) ∧
      Inv level wf flag (pkt.applied answer bytes) t ∧ Returns pkt answer bytes := by
  have quiet : pkt.memInhibit = false := by rw [cpu.fresh]; rfl
  have size := config.caches_blkSize i
  obtain ⟨answer, after, satisfied, served⟩ :=
    satisfy_cpu (config.caches_isTopLevel i) (config.caches_blkSize i ▸ cpu) blk
  obtain ⟨d, received, replaced⟩ := recvAtomic_hit (slot i)
    (port config level.recvAtomic functional i) (s := s) (inv.caches i)
    quiet cpu.cacheable here permitted (size ▸ cpu.inside) satisfied
  simp only [Bool.false_eq_true, if_false] at replaced
  have aligned := align_align config.blkSize pkt.addr
  have mine : held config s i (align config.blkSize pkt.addr)
      (flag (align config.blkSize pkt.addr)) = some blk := by
    rw [held_align, ← secure]
    exact here
  have carries := inv.value aligned mine
  have now : held config ((slot i).set d s) i (align config.blkSize pkt.addr)
      (flag (align config.blkSize pkt.addr)) = some after := by
    rw [held_align, ← secure, held_set_self]
    exact replaced.here
  have rest : ∀ j a isSecure, ¬ (align config.blkSize a = align config.blkSize pkt.addr ∧
      isSecure = flag (align config.blkSize pkt.addr)) →
      held config ((slot i).set d s) j a isSecure = held config s j a isSecure := by
    intro j a isSecure other
    by_cases same : j = i
    · rw [same, held_set_self]
      refine replaced.others a isSecure ?_
      rw [blkAlign_eq, blkAlign_eq, secure]
      exact other
    · exact held_set_of_ne d same a isSecure
  refine ⟨answered answer, (slot i).set d s, received, ?_, ?_⟩
  · rw [applied_answered]
    refine inv.after (b := align config.blkSize pkt.addr) (fun j => ?_) inv.below
      (fun j a isSecure other => .inl (rest j a isSecure other)) (fun j old found => ?_)
      fun v alignedv => ?_
    · by_cases same : j = i
      · subst same
        have set : ((slot j).set d s).caches j = d := (slot j).get_set d s
        rw [set]
        exact replaced.wf
      · have set : ((slot i).set d s).caches j = s.caches j := update_of_ne same _ _
        rw [set]
        exact inv.caches j
    · by_cases same : j = i
      · rw [same, now] at found
        obtain rfl := Option.some.inj found
        rw [served.readable]
        exact inv.readable i _ _ blk here
      · rw [held_set_of_ne d same] at found
        exact inv.readable j _ _ old found
    · by_cases line_of : v = align config.blkSize pkt.addr
      case neg =>
        have unchanged : line level flag ((slot i).set d s) v = line level flag s v := by
          simp only [line]
          congr 1
          funext j
          rw [rest j v (flag v) fun key => line_of (alignedv.symm.trans key.1)]
        rw [unchanged, applied_elsewhere size cpu.inside line_of]
        exact inv.lines v alignedv
      case pos =>
        subst line_of
        have coherent := inv.lines _ aligned
        have old : (line level flag s (align config.blkSize pkt.addr)).copies i =
            some (blk.toCopy config.blkSize _) := by simp [line, mine]
        have new : (line level flag ((slot i).set d s) (align config.blkSize pkt.addr)).copies i =
            some (after.toCopy config.blkSize _) := by simp [line, now]
        have others : ∀ j, j ≠ i →
            (line level flag ((slot i).set d s) (align config.blkSize pkt.addr)).copies j =
              (line level flag s (align config.blkSize pkt.addr)).copies j := by
          intro j different
          simp only [line, held_set_of_ne d different]
        have idle : commits (config.caches i) pkt blk = false →
            pkt.applied answer bytes = bytes := by
          intro none
          refine applied_of_idle ?_
          rw [served.updates_eq size cpu.inside carries, none]
        by_cases exclusive : pkt.cmd.needsExclusive = true
        case pos =>
          -- A writable copy is the only one, so it may change.
          have writable : blk.isWritable = true := by simpa [permits, exclusive] using permitted
          have clean := coherent.exclusive i _ old writable
          refine coherent_exclusive new (fun j different => ?_)
            (served.carries size cpu.inside carries) clean fun unwritten => ?_
          · rw [others j different, Option.eq_none_iff_forall_ne_some]
            intro copy found
            exact different (coherent.sole i _ old writable j copy found)
          · have both : blk.isDirty = false ∧ commits (config.caches i) pkt blk = false := by
              have dirty : after.isDirty = false := unwritten
              rw [served.dirty, Bool.or_eq_false_iff] at dirty
              exact dirty
            rw [idle both.2]
            obtain ⟨supply, memory⟩ := coherent.supplied fun j copy found => by
              obtain rfl := coherent.sole i _ old writable j copy found
              rw [old] at found
              obtain rfl := Option.some.inj found
              exact both.1
            exact ⟨supply, memory clean⟩
        case neg =>
          -- A load changes nothing that the copy is known by.
          have none : commits (config.caches i) pkt blk = false := by
            rcases cpu.kind with kind | kind | kind | kind | kind <;> rw [kind] at exclusive
            · simp [commits, kind]
            · simp [commits, kind]
            all_goals exact absurd (by decide) exclusive
          rw [idle none]
          refine coherent.rest ?_ (Source.Rest.refl _)
          funext j
          by_cases same : j = i
          · rw [same, new, old, served.toCopy_eq none]
          · exact others j same
  · intro read k within
    rw [answered_data]
    exact served.returns size cpu.inside carries read within

theorem request_givesUp (inv : Inv level wf flag bytes s) (cpu : pkt.FromCpu config.blkSize)
    (store : pkt.cmd = .storeCondReq) (missing : held config s i pkt.addr pkt.isSecure = none) :
    ∃ answer t, recvAtomic config level.recvAtomic functional i pkt s = .ok (answer, t) ∧
      Inv level wf flag (pkt.applied answer bytes) t ∧ Returns pkt answer bytes := by
  have quiet : pkt.memInhibit = false := by rw [cpu.fresh]; rfl
  refine ⟨_, s, recvAtomic_givesUp _ _ quiet cpu.cacheable store missing, ?_, ?_⟩
  · rw [applied_answered, applied_of_idle (by simp [Packet.updates, store])]
    exact inv
  · intro read
    rw [store] at read
    exact absurd read (by decide)

theorem forBlock_ofBlock (cpu : pkt.FromCpu config.blkSize)
    (block : align config.blkSize pkt.addr = b) (secure : pkt.isSecure = flag b)
    (i : Fin config.count) (cmd : MemCmd) (data : Nat → UInt8) :
    (Packet.ofBlock pkt.req cmd (config.caches i).blkSize data).ForBlock config.blkSize b
      (flag b) := by
  have addr : pkt.req.paddr = pkt.addr := by rw [cpu.fresh]; rfl
  have flagged : pkt.req.isSecure = pkt.isSecure := by rw [cpu.fresh]; rfl
  have place : (Packet.ofBlock pkt.req cmd config.blkSize data).addr = b := by
    rw [← block, ← addr]
    rfl
  rw [config.caches_blkSize]
  exact {
    aligned := by rw [← block]; exact align_align _ _
    addr := place
    size := rfl
    isSecure := flagged.trans secure
    cacheable := cpu.cacheable
    reqAddr := by rw [← block, ← addr]; rfl
    reqSecure := flagged.trans secure }

/-- The copies of a block after a cache has asked for it. -/
def newLine (level : Level config.blkSize Below) (flag : Addr → Bool) (i : Fin config.count)
    (b : Addr) (after : CacheBlk) (t : Cluster config.count Below) :
    Line (Fin config.count) (Block config.blkSize b) where
  copies := update (line level flag t b).copies i (some (after.toCopy config.blkSize b))
  source := level.view t.below b

/-- A cache that has taken the only copy keeps the line coherent. -/
theorem Fetched.exclusive_line {answer : Packet} {base after : CacheBlk}
    (inv : Inv level wf flag bytes s) (cpu : pkt.FromCpu config.blkSize)
    (block : align config.blkSize pkt.addr = b) (fetched : Fetched level wf flag i b fetch resp s t)
    (invalidates : fetch.cmd.isInvalidate = true)
    (gone : Source.Gone (level.view s.below b) (level.view t.below b))
    (value : contents config.blkSize b base.data = bytesAt config.blkSize b bytes)
    (served : Served (config.caches i) pkt base answer after)
    (known : base.isDirty = false → commits (config.caches i) pkt base = false →
      (∀ j blk, held config s j b (flag b) = some blk → blk.isDirty = false) ∧
      (level.view s.below b).dirty = false) :
    Coherent (bytesAt config.blkSize b (pkt.applied answer bytes))
      (newLine level flag i b after t) := by
  subst block
  have size := config.caches_blkSize i
  obtain ⟨clean, memory, supply⟩ := gone
  refine coherent_exclusive (update_self ..) (fun j other => ?_)
    (served.carries size cpu.inside value) clean fun unwritten => ?_
  · have dropped := (fetched.others j other).here
    rw [invalidates] at dropped
    have none : held config t j _ _ = none := dropped
    simp only [newLine, update_of_ne other, line, none, Option.map_none]
  · have both : base.isDirty = false ∧ commits (config.caches i) pkt base = false := by
      have dirty : after.isDirty = false := unwritten
      rw [served.dirty, Bool.or_eq_false_iff] at dirty
      exact dirty
    obtain ⟨unowned, reached⟩ := known both.1 both.2
    have idle : pkt.applied answer bytes = bytes := by
      refine applied_of_idle ?_
      rw [served.updates_eq size cpu.inside value, both.2]
    -- Nobody owes the block, so the memory has it.
    obtain ⟨-, latest⟩ := (inv.lines _ (align_align _ _)).supplied fun j copy found => by
      obtain ⟨blk, here, rfl⟩ := Option.map_eq_some_iff.mp found
      exact unowned j blk here
    rw [idle]
    exact ⟨supply.trans (latest reached), memory.trans (latest reached)⟩

/-- A cache that has got a copy to read keeps the line coherent. -/
theorem Fetched.read_line (blk : CacheBlk) (inv : Inv level wf flag bytes s)
    (aligned : align config.blkSize b = b) (fetched : Fetched level wf flag i b fetch resp s t)
    (missing : held config s i b (flag b) = none) (keeps : fetch.cmd.isInvalidate = false)
    (writable : blk.isWritable = !resp.shared)
    (dirty : blk.isDirty = (!resp.shared && resp.memInhibit))
    (value : contents config.blkSize b blk.data = contents config.blkSize b resp.data)
    (source : OwnedElsewhere flag s i b ∧ resp.shared = true ∧
          contents config.blkSize b resp.data = bytesAt config.blkSize b bytes ∧
          level.view t.below b = level.view s.below b ∨
        ¬ OwnedElsewhere flag s i b ∧
          contents config.blkSize b resp.data = (level.view s.below b).supply ∧
          (resp.shared = false → ∀ j, j ≠ i → held config s j b (flag b) = none) ∧
          Source.Read (level.view s.below b) (level.view t.below b) resp.shared resp.memInhibit) :
    contents config.blkSize b blk.data = bytesAt config.blkSize b bytes ∧
      Coherent (bytesAt config.blkSize b bytes) (newLine level flag i b blk t) := by
  have coherent := inv.lines b aligned
  have own : (newLine level flag i b blk t).copies i = some (blk.toCopy config.blkSize b) :=
    update_self ..
  have others : ∀ j, j ≠ i → (newLine level flag i b blk t).copies j =
      ((line level flag s b).copies j).map Copy.downgrade := by
    intro j other
    have left := (fetched.others j other).here
    rw [keeps] at left
    have now : held config t j b (flag b) = _ := left
    simp only [newLine, update_of_ne other, line, now, Cache.snooped, Bool.false_eq_true,
      if_false, Option.map_map]
    rfl
  -- The data is from the owner above the bus, or from below when no copy is dirty.
  rcases source with ⟨⟨j, other, owner, here, owes⟩, shared, latest, same⟩ |
      ⟨unowned, supplied, alone, read⟩
  · have carries := value.trans latest
    refine ⟨carries, ?_⟩
    exact coherent.read_from_owner (d := owner.toCopy config.blkSize b) (by simp [line, here]) owes
      other own others carries (writable.trans (by simp [shared])) (dirty.trans (by simp [shared]))
      same
  · have clean : ∀ j d, (line level flag s b).copies j = some d → d.dirty = false := by
      intro j d found
      obtain ⟨old, here, rfl⟩ := Option.map_eq_some_iff.mp found
      by_contra owes
      refine unowned ⟨j, ?_, old, here, by simpa [CacheBlk.toCopy] using owes⟩
      rintro rfl
      exact absurd (missing.symm.trans here) (by simp)
    have carries := (value.trans supplied).trans (coherent.supplied clean).1
    refine ⟨carries, ?_⟩
    refine coherent.read_from_source clean own others carries writable dirty
      (fun free j other => ?_)
      read
    simp [line, alone free j other]

theorem Fetched.held_other (fetched : Fetched level wf flag i b fetch resp s t)
    (aligned : align config.blkSize b = b) (other : j ≠ i) {a : Addr} {isSecure : Bool}
    (key : ¬ (align config.blkSize a = b ∧ isSecure = flag b)) :
    held config t j a isSecure = held config s j a isSecure := by
  refine (fetched.others j other).others a isSecure ?_
  rw [blkAlign_eq, blkAlign_eq, aligned]
  exact key

theorem Fetched.readable (inv : Inv level wf flag bytes s)
    (fetched : Fetched level wf flag i b fetch resp s t) (other : j ≠ i)
    (here : held config t j b (flag b) = some blk) : blk.isReadable = true := by
  have left : held config t j b (flag b) = _ := (fetched.others j other).here
  rw [left, snooped] at here
  split at here
  · exact absurd here (by simp)
  · obtain ⟨old, found, rfl⟩ := Option.map_eq_some_iff.mp here
    exact inv.readable j b (flag b) old found

/-- The invariant after a block was fetched for a cache, which may have dropped another one. -/
theorem Fetched.inv_after {after : Addr → UInt8} {d : Cache} {under : Below}
    (inv : Inv level wf flag bytes s) (aligned : align config.blkSize b = b)
    (fetched : Fetched level wf flag i b fetch resp s t) (wfd : WF (config.caches i) d)
    (below : wf under)
    (rest : ∀ a isSecure, ¬ (align config.blkSize a = b ∧ isSecure = flag b) →
      copy (config.caches i) d a isSecure = held config s i a isSecure ∨
        copy (config.caches i) d a isSecure = none)
    (here : ∀ blk, copy (config.caches i) d b (flag b) = some blk → blk.isReadable = true)
    (lines : ∀ v, align config.blkSize v = v → Coherent (bytesAt config.blkSize v after)
      (line level flag { (slot i).set d t with below := under } v)) :
    Inv level wf flag after { (slot i).set d t with below := under } := by
  have mine : ∀ a isSecure, held config { (slot i).set d t with below := under } i a isSecure =
      copy (config.caches i) d a isSecure := held_set_self d
  have others : ∀ j, j ≠ i → ∀ a isSecure,
      held config { (slot i).set d t with below := under } j a isSecure =
        held config t j a isSecure := fun j other => held_set_of_ne d other
  refine inv.after (b := b) (fun j => ?_) below (fun j a isSecure key => ?_) (fun j blk found => ?_)
    lines
  · by_cases same : j = i
    · subst same
      have set : ((slot j).set d t).caches j = d := (slot j).get_set d t
      rw [set]
      exact wfd
    · have set : ((slot i).set d t).caches j = t.caches j := update_of_ne same _ _
      rw [set]
      exact (fetched.others j same).wf
  · by_cases same : j = i
    · rw [same, mine]
      exact rest a isSecure key
    · rw [others j same]
      exact .inl (fetched.held_other aligned same key)
  · by_cases same : j = i
    · rw [same, mine] at found
      exact here blk found
    · rw [others j same] at found
      exact fetched.readable inv same found

theorem line_of_fetch {d : Cache} {under : Below} {after : CacheBlk}
    (here : copy (config.caches i) d b (flag b) = some after) :
    line level flag { (slot i).set d t with below := under } b =
      { newLine level flag i b after t with source := level.view under b } := by
  simp only [line, newLine]
  congr 1
  funext j
  by_cases same : j = i
  · rw [same, update_self]
    have mine : held config { (slot i).set d t with below := under } i b (flag b) = some after :=
      (held_set_self d b (flag b)).trans here
    rw [mine, Option.map_some]
  · rw [update_of_ne same]
    have others : held config { (slot i).set d t with below := under } j b (flag b) =
        held config t j b (flag b) := held_set_of_ne d same b (flag b)
    rw [others]

theorem Fetched.line_elsewhere {v : Addr} (fetched : Fetched level wf flag i b fetch resp s t)
    (d : Cache) (under : Below) (aligned : align config.blkSize b = b)
    (alignedv : align config.blkSize v = v) (other : v ≠ b) :
    (∀ j, j ≠ i → (line level flag { (slot i).set d t with below := under } v).copies j =
        (line level flag s v).copies j) ∧
      (line level flag { (slot i).set d t with below := under } v).copies i =
        (copy (config.caches i) d v (flag v)).map (CacheBlk.toCopy config.blkSize v) := by
  constructor
  · intro j different
    have now : held config { (slot i).set d t with below := under } j v (flag v) =
        held config t j v (flag v) := held_set_of_ne d different v (flag v)
    have old : held config t j v (flag v) = held config s j v (flag v) :=
      fetched.held_other aligned different fun key => other (alignedv.symm.trans key.1)
    simp only [line, now, old]
  · have now : held config { (slot i).set d t with below := under } i v (flag v) =
        copy (config.caches i) d v (flag v) := held_set_self d v (flag v)
    simp only [line, now]

theorem commits_filled {cache : CacheConfig} (upgraded : resp.cmd = .upgradeResp) :
    commits cache pkt (filled resp blk) = commits cache pkt blk := by
  have data : (filled resp blk).data = blk.data := by
    simp only [filled, upgraded]
    rfl
  have locks : (filled resp blk).lockList = blk.lockList := rfl
  simp only [commits, data, locks]

/-- A request that needs a better copy takes all others away. -/
theorem request_upgrade (lawful : level.Lawful wf flag) (inv : Inv level wf flag bytes s)
    (cpu : pkt.FromCpu config.blkSize) (block : align config.blkSize pkt.addr = b)
    (secure : pkt.isSecure = flag b) (here : held config s i pkt.addr pkt.isSecure = some blk)
    (exclusive : pkt.cmd.needsExclusive = true) (shared : blk.isWritable = false)
    (spared : commits (config.caches i) pkt blk = true ∨ (level.view s.below b).dirty = false) :
    ∃ answer t, recvAtomic config level.recvAtomic functional i pkt s = .ok (answer, t) ∧
      Inv level wf flag (pkt.applied answer bytes) t ∧ Returns pkt answer bytes := by
  have quiet : pkt.memInhibit = false := by rw [cpu.fresh]; rfl
  have aligned : align config.blkSize b = b := by rw [← block]; exact align_align _ _
  have size := config.caches_blkSize i
  have facts : pkt.cmd.needsResponse = true ∧ pkt.cmd ≠ .writeback := by
    rcases cpu.kind with kind | kind | kind | kind | kind <;> rw [kind] <;> decide
  obtain ⟨c, wfc, same, -, goes⟩ := recvAtomic_upgrade (slot i)
    (port config level.recvAtomic functional i) (s := s) (inv.caches i) quiet cpu.cacheable
    exclusive facts.1 facts.2 here shared (size ▸ cpu.inside)
  obtain ⟨inv', held'⟩ := inv.reorder wfc same
  let fetch : Packet := .ofBlock pkt.req
    (if pkt.cmd.isLLSC then .scUpgradeReq else .upgradeReq) (config.caches i).blkSize fun _ => 0
  have upgrades : fetch.cmd.isFetch = true ∧ fetch.cmd.isInvalidate = true ∧
      fetch.cmd.isUpgrade = true ∧ fetch.cmd.responseCommand = .upgradeResp := by
    simp only [fetch, Packet.ofBlock, Packet.ofRequest]
    split <;> decide
  obtain ⟨resp, t, sent, fetched, unshared, gone, owner⟩ := bus_exclusive functional
    (i := i) lawful inv' (forBlock_ofBlock cpu block secure i _ _) upgrades.1 upgrades.2.1 rfl rfl
  have upgraded : resp.cmd = .upgradeResp := fetched.answers.cmd.trans upgrades.2.2.2
  have mine : held config s i b (flag b) = some blk := by
    rw [← block, held_align, block, ← secure]
    exact here
  have carries := inv.value aligned mine
  have data : (filled resp blk).data = blk.data := by
    simp only [filled, upgraded]
    rfl
  obtain ⟨answer, after, satisfied, served⟩ :=
    satisfy_cpu (config.caches_isTopLevel i) (size ▸ cpu) (filled resp blk)
  have place : (config.caches i).blkAlign resp.addr = (config.caches i).blkAlign pkt.addr := by
    rw [blkAlign_eq, blkAlign_eq, fetched.answers.addr,
      (forBlock_ofBlock cpu block secure i _ _).addr, aligned, block]
  have flagged : resp.isSecure = pkt.isSecure := by
    rw [fetched.answers.isSecure, (forBlock_ofBlock cpu block secure i _ _).isSecure, secure]
  have kept : t.caches i = c := fetched.mine.trans ((slot i).get_set c s)
  obtain ⟨d, received, replaced⟩ :=
    goes resp t sent kept upgraded place flagged answer after false satisfied
  simp only [Bool.false_eq_true, if_false] at replaced
  have now : copy (config.caches i) d b (flag b) = some after := by
    rw [← replaced.here, secure]
    refine copy_congr ?_
    rw [blkAlign_eq, blkAlign_eq, aligned, block]
  have rest : ∀ a isSecure, ¬ (align config.blkSize a = b ∧ isSecure = flag b) →
      copy (config.caches i) d a isSecure = held config s i a isSecure := by
    intro a isSecure key
    refine (replaced.others a isSecure ?_).trans (same a isSecure)
    rw [blkAlign_eq, blkAlign_eq, block, secure]
    exact key
  have value : contents config.blkSize b (filled resp blk).data =
      bytesAt config.blkSize b bytes := by
    rw [data]
    exact carries
  refine ⟨answered answer, (slot i).set d t, received, ?_, ?_⟩
  · rw [applied_answered]
    refine fetched.inv_after inv' aligned replaced.wf fetched.below
      (fun a isSecure key => .inl ?_) (fun old found => ?_) fun v alignedv => ?_
    · rw [rest a isSecure key, held']
    · rw [now] at found
      obtain rfl := Option.some.inj found
      rw [served.readable]
      rfl
    · by_cases line_of : v = b
      case pos =>
        subst line_of
        rw [line_of_fetch now]
        refine fetched.exclusive_line inv' cpu block upgrades.2.1 gone value served
          fun clean idle => ?_
        -- Without an owner among the caches, nothing may be owed below.
        rw [commits_filled upgraded] at idle
        have quietly : blk.isDirty = false ∧ resp.memInhibit = false := by
          simpa [filled, CacheBlk.isDirty, unshared] using clean
        refine ⟨fun j old found => ?_, ?_⟩
        · rw [held'] at found
          by_cases me : j = i
          · rw [me, mine] at found
            obtain rfl := Option.some.inj found
            exact quietly.1
          · by_contra owes
            rcases owner with ⟨-, inhibits, -⟩ | ⟨unowned, -, -⟩
            · exact absurd (quietly.2.symm.trans inhibits) Bool.false_ne_true
            · exact unowned ⟨j, me, old, by rw [held']; exact found, by simpa using owes⟩
        · rcases spared with writes | spared
          · exact absurd (idle.symm.trans writes) Bool.false_ne_true
          · exact spared
      case neg =>
        obtain ⟨others, own⟩ := fetched.line_elsewhere d t.below
          aligned alignedv line_of
        have different : ¬ (align config.blkSize v = b ∧ flag v = flag b) :=
          fun key => line_of (alignedv.symm.trans key.1)
        rw [applied_elsewhere size cpu.inside (block ▸ line_of)]
        refine (inv'.lines v alignedv).rest ?_ (fetched.elsewhere v alignedv line_of)
        funext j
        by_cases me : j = i
        · rw [me, own, rest v (flag v) different]
          simp only [line, held']
        · exact others j me
  · intro read k within
    subst block
    rw [answered_data]
    exact served.returns size cpu.inside value read within

theorem bus_writeback (lawful : level.Lawful wf flag) (kept : wf s.below) {v : Addr}
    {packet : Packet} (block : packet.ForBlock config.blkSize v (flag v))
    (writeback : packet.cmd = .writeback) (quiet : packet.memInhibit = false)
    (own : packet.req.isInstFetch = false) (takes : level.takes s.below v) :
    ∃ resp under, (port config level.recvAtomic functional i).sendAtomic packet s =
        .ok (resp, { s with below := under }) ∧ wf under ∧
      Source.Written (level.view under v) (contents config.blkSize v packet.data) ∧
      level.Elsewhere v s.below under := by
  obtain ⟨resp, under, received, good, written, elsewhere⟩ :=
    lawful.writeback s.below v packet kept block writeback quiet own takes
  refine ⟨resp, under, ?_, good, written, elsewhere⟩
  have ignored : ∀ ports : List (Fin config.count),
      ports.foldlM (CoherentBus.forwardOne (snoop config) packet.cmd)
        (packet, .invalidCmd, s) = .ok (packet, .invalidCmd, s) := by
    intro ports
    -- The induction follows the ports, none of which answers.
    induction ports with
    | nil => rfl
    | cons j ports ih =>
      have snooped : snoop config j packet s = .ok (packet, s) := by
        simp [snoop, recvAtomicSnoop, writeback]
      have request : packet.cmd.isResponse = false := by rw [writeback]; decide
      have one : CoherentBus.forwardOne (snoop config) packet.cmd (packet, .invalidCmd, s) j =
          .ok (packet, .invalidCmd, s) := by
        simp [CoherentBus.forwardOne, snooped, Bind.bind, Except.bind, request]
      rw [List.foldlM_cons, one]
      exact ih
  simp only [port, CoherentBus.recvAtomic, block.cacheable, Bool.false_eq_true, if_false,
    CoherentBus.forwardAtomic, ignored, Bind.bind, Except.bind, toBelow, received, pure,
    Except.pure, ne_eq, not_true_eq_false]

/-- What had to make place for a block is written back if it is owed. -/
theorem Fetched.evict (lawful : level.Lawful wf flag) (inv : Inv level wf flag bytes s) {d : Cache}
    {packets : List Packet} {new : Option CacheBlk}
    (fetched : Fetched level wf flag i b fetch resp s t) (reads : fetch.cmd.isUpgrade = false)
    (aligned : align config.blkSize b = b) (block : align config.blkSize pkt.addr = b)
    (secure : pkt.isSecure = flag b)
    (filled : Filled (config.caches i) (s.caches i) d pkt.addr pkt.isSecure new packets)
    (spared : ∀ v ptr, align config.blkSize v = v →
      (s.caches i).tags.findVictim (config.caches i).toLruConfig pkt.addr = .ok ptr →
      (s.caches i).tags.findBlock (config.caches i).toLruConfig v (flag v) = some ptr →
      ((s.caches i).tags.blks ptr).isDirty = true → level.keeps s.below b v) :
    ∃ under, sendWritebacks (port config level.recvAtomic functional i) packets
        ((slot i).set d t) = .ok { (slot i).set d t with below := under } ∧ wf under ∧
      Source.Rest (level.view t.below b) (level.view under b) ∧
      ∀ v, align config.blkSize v = v → v ≠ b → Coherent (bytesAt config.blkSize v bytes)
        (line level flag { (slot i).set d t with below := under } v) := by
  -- A block whose copies all stay is at most passed on to the memory.
  have stays : ∀ under v, align config.blkSize v = v → v ≠ b →
      copy (config.caches i) d v (flag v) = held config s i v (flag v) →
      Source.Rest (level.view t.below v) (level.view under v) →
      Coherent (bytesAt config.blkSize v bytes)
        (line level flag { (slot i).set d t with below := under } v) := by
    intro under v alignedv other same rest
    obtain ⟨others, own⟩ := fetched.line_elsewhere d under
      aligned alignedv other
    refine (inv.lines v alignedv).rest ?_ ((fetched.elsewhere v alignedv other).trans rest)
    funext j
    by_cases me : j = i
    · rw [me, own, same]
      rfl
    · exact others j me
  rcases filled.rest with ⟨rfl, same⟩ |
      ⟨v, ptr, old, alignedv, victim, found, copied, dropped, apart, rfl, same⟩
  · refine ⟨t.below, rfl, fetched.below, Source.Rest.refl _, fun v alignedv other => ?_⟩
    refine stays t.below v alignedv other (same v (flag v) fun key => other ?_) (Source.Rest.refl _)
    rw [blkAlign_eq, blkAlign_eq, alignedv, block] at key
    exact key.1
  · rw [blkAlign_eq] at alignedv apart
    have flagged : old.isSecure = flag v := by
      have := inv.flagged i v old.isSecure old copied
      rwa [alignedv] at this
    rw [flagged] at copied dropped found
    have different : v ≠ b := by
      rintro rfl
      exact apart ⟨block.symm, flagged.trans secure.symm⟩
    have here : held config s i v (flag v) = some old := copied
    have others : ∀ w, align config.blkSize w = w → w ≠ b → w ≠ v →
        copy (config.caches i) d w (flag w) = held config s i w (flag w) := by
      intro w alignedw notb notv
      refine same w (flag w) (fun key => notb ?_) fun key => notv ?_
      · rw [blkAlign_eq, blkAlign_eq, alignedw, block] at key
        exact key.1
      · rw [blkAlign_eq, alignedw] at key
        exact key.1
    cases dirty : old.isDirty with
    | false =>
      refine ⟨t.below, rfl, fetched.below, Source.Rest.refl _, fun w alignedw notb => ?_⟩
      by_cases replaced : w = v
      · subst replaced
        obtain ⟨kept, own⟩ := fetched.line_elsewhere d t.below
          aligned alignedv notb
        refine (inv.lines w alignedv).drop (i := i) ?_ kept (fun copy known => ?_)
          (fetched.elsewhere w alignedv notb)
        · rw [own, dropped, Option.map_none]
        · simp only [line, here, Option.map_some, Option.some.injEq] at known
          rw [← known]
          exact dirty
      · exact stays t.below w alignedw notb (others w alignedw notb replaced) (Source.Rest.refl _)
    | true =>
      have ptr_blk : (s.caches i).tags.blks ptr = old := by
        obtain ⟨ptr', found', blk⟩ := found_of_copy copied
        obtain rfl := Option.some.inj (found.symm.trans found')
        exact blk
      have takes : level.takes ((slot i).set d t).below v :=
        fetched.keeps reads v alignedv different
          (spared v ptr alignedv victim found (by rw [ptr_blk]; exact dirty))
      have packet : (writebackOf (config.caches i) v old).ForBlock config.blkSize v (flag v) :=
        { aligned := alignedv, addr := rfl, size := config.caches_blkSize i, isSecure := flagged
          cacheable := rfl, reqAddr := alignedv, reqSecure := flagged }
      obtain ⟨resp', under, sent, good, written, elsewhere⟩ := bus_writeback functional
        (i := i) (s := (slot i).set d t) lawful fetched.below packet rfl rfl rfl takes
      refine ⟨under, ?_, good, elsewhere b aligned fun same => different same.symm,
        fun w alignedw notb => ?_⟩
      · simp only [sendWritebacks, if_true, List.foldlM_cons, sent, Bind.bind, Except.bind,
          List.foldlM_nil]
        rfl
      · by_cases replaced : w = v
        · subst replaced
          obtain ⟨kept, own⟩ := fetched.line_elsewhere d under
            aligned alignedv notb
          refine (inv.lines w alignedv).writeback (i := i)
            (c := old.toCopy config.blkSize w) (by simp [line, here]) dirty ?_ kept ?_
          · rw [own, dropped, Option.map_none]
          · have latest := inv.value alignedv here
            rw [← latest]
            exact written
        · exact stays under w alignedw notb (others w alignedw notb replaced)
            (elsewhere w alignedw replaced)

/-- The state in which a request cannot lose a value that only the level below has. -/
structure Spared (level : Level config.blkSize Below) (flag : Addr → Bool) (i : Fin config.count)
    (pkt : Packet) (s : Cluster config.count Below) : Prop where
  /-- A request that only upgrades its copy writes, or the level below owes nothing. -/
  upgrade : ∀ blk, held config s i pkt.addr pkt.isSecure = some blk →
    pkt.cmd.needsExclusive = true → blk.isWritable = false →
    commits (config.caches i) pkt blk = true ∨
      (level.view s.below (align config.blkSize pkt.addr)).dirty = false
  /-- A dirty block that makes place is found again below. -/
  victim : held config s i pkt.addr pkt.isSecure = none → ∀ v ptr, align config.blkSize v = v →
    (s.caches i).tags.findVictim (config.caches i).toLruConfig pkt.addr = .ok ptr →
    (s.caches i).tags.findBlock (config.caches i).toLruConfig v (flag v) = some ptr →
    ((s.caches i).tags.blks ptr).isDirty = true →
    level.keeps s.below (align config.blkSize pkt.addr) v

/-- A request without a copy gets one from an owner or from below. -/
theorem request_miss (lawful : level.Lawful wf flag) (inv : Inv level wf flag bytes s)
    (cpu : pkt.FromCpu config.blkSize) (block : align config.blkSize pkt.addr = b)
    (secure : pkt.isSecure = flag b) (missing : held config s i pkt.addr pkt.isSecure = none)
    (other : pkt.cmd ≠ .storeCondReq) (spared : Spared level flag i pkt s) :
    ∃ answer t, recvAtomic config level.recvAtomic functional i pkt s = .ok (answer, t) ∧
      Inv level wf flag (pkt.applied answer bytes) t ∧ Returns pkt answer bytes := by
  have quiet : pkt.memInhibit = false := by rw [cpu.fresh]; rfl
  have aligned : align config.blkSize b = b := by rw [← block]; exact align_align _ _
  have size := config.caches_blkSize i
  have facts : pkt.cmd.needsResponse = true ∧ pkt.cmd ≠ .writeback ∧ pkt.cmd.isUpgrade = false ∧
      (pkt.cmd.isLLSC && pkt.cmd.isWrite) = false := by
    rcases cpu.kind with kind | kind | kind | kind | kind
    case inr.inr.inr.inl => exact absurd kind other
    all_goals rw [kind]; decide
  let fetch : Packet := .ofBlock pkt.req
    (if pkt.cmd.needsExclusive then .readExReq else .readReq) (config.caches i).blkSize fun _ => 0
  have fetches : fetch.ForBlock config.blkSize b (flag b) :=
    forBlock_ofBlock cpu block secure i _ _
  have none : held config s i b (flag b) = none := by
    rw [← block, held_align, block, ← secure]
    exact missing
  -- What came from the bus is the latest value, and the line is coherent with it.
  obtain ⟨resp, t, sent, fetched, reads, kind, fills⟩ : ∃ resp t,
      (port config level.recvAtomic functional i).sendAtomic fetch s = .ok (resp, t) ∧
      Fetched level wf flag i b fetch resp s t ∧ fetch.cmd.isUpgrade = false ∧
      (resp.cmd = .readResp ∨ resp.cmd = .readExResp) ∧
      ∀ old answer after, Served (config.caches i) pkt (newBlk (config.caches i) resp old) answer
          after →
        contents config.blkSize b (newBlk (config.caches i) resp old).data =
            bytesAt config.blkSize b bytes ∧
          Coherent (bytesAt config.blkSize b (pkt.applied answer bytes))
            (newLine level flag i b after t) := by
    by_cases exclusive : pkt.cmd.needsExclusive = true
    · have cmd : fetch.cmd = .readExReq := by
        simp [fetch, Packet.ofBlock, Packet.ofRequest, exclusive]
      obtain ⟨resp, t, sent, fetched, unshared, gone, owner⟩ := bus_exclusive
        functional (i := i) lawful inv fetches (by rw [cmd]; rfl) (by rw [cmd]; rfl)
        rfl rfl
      have kind : resp.cmd = .readExResp := by rw [fetched.answers.cmd, cmd]; rfl
      refine ⟨resp, t, sent, fetched, by rw [cmd]; rfl, .inr kind,
        fun old answer after served => ?_⟩
      have data : (newBlk (config.caches i) resp old).data = resp.data := by
        simp only [newBlk, kind]
        rfl
      have dirty : (newBlk (config.caches i) resp old).isDirty = resp.memInhibit := by
        simp [newBlk, CacheBlk.isDirty, unshared]
      have unowned : ¬ OwnedElsewhere flag s i b →
          ∀ j blk, held config s j b (flag b) = some blk → blk.isDirty = false := by
        intro nobody j blk found
        by_contra owes
        refine nobody ⟨j, ?_, blk, found, by simpa using owes⟩
        rintro rfl
        exact absurd (none.symm.trans found) (by simp)
      have value : contents config.blkSize b (newBlk (config.caches i) resp old).data =
          bytesAt config.blkSize b bytes := by
        rw [data]
        rcases owner with ⟨-, -, latest⟩ | ⟨nobody, supplied, -⟩
        · exact latest
        · refine (supplied cmd).1.trans ((inv.lines b aligned).supplied fun j copy found => ?_).1
          obtain ⟨blk, here, rfl⟩ := Option.map_eq_some_iff.mp found
          exact unowned nobody j blk here
      refine ⟨value, fetched.exclusive_line inv cpu block (by rw [cmd]; rfl) gone value served
        fun clean _ => ?_⟩
      rw [dirty] at clean
      rcases owner with ⟨-, inhibits, -⟩ | ⟨nobody, supplied, -⟩
      · exact absurd (clean.symm.trans inhibits) Bool.false_ne_true
      · exact ⟨unowned nobody, (supplied cmd).2.symm.trans clean⟩
    · have cmd : fetch.cmd = .readReq := by
        simp [fetch, Packet.ofBlock, Packet.ofRequest, exclusive]
      obtain ⟨resp, t, sent, fetched, source⟩ := bus_read functional (i := i) lawful
        inv fetches cmd rfl
      have kind : resp.cmd = .readResp := by rw [fetched.answers.cmd, cmd]; rfl
      refine ⟨resp, t, sent, fetched, by rw [cmd]; rfl, .inl kind,
        fun old answer after served => ?_⟩
      have data : (newBlk (config.caches i) resp old).data = resp.data := by
        simp only [newBlk, kind]
        rfl
      obtain ⟨value, coherent⟩ := fetched.read_line (newBlk (config.caches i) resp old) inv
        aligned none (by rw [cmd]; rfl) (by simp [newBlk, CacheBlk.isWritable]) rfl (by rw [data])
        source
      have idle : commits (config.caches i) pkt (newBlk (config.caches i) resp old) = false := by
        rcases cpu.kind with kind | kind | kind | kind | kind <;> rw [kind] at exclusive
        · simp [commits, kind]
        · simp [commits, kind]
        all_goals exact absurd (by decide) exclusive
      have same : pkt.applied answer bytes = bytes := by
        subst block
        refine applied_of_idle ?_
        rw [served.updates_eq size cpu.inside value, idle]
      refine ⟨value, ?_⟩
      rw [same, newLine, served.toCopy_eq idle]
      exact coherent
  have place : (config.caches i).blkAlign resp.addr = (config.caches i).blkAlign pkt.addr := by
    rw [blkAlign_eq, blkAlign_eq, fetched.answers.addr, fetches.addr, aligned, block]
  have flagged : resp.isSecure = pkt.isSecure := by
    rw [fetched.answers.isSecure, fetches.isSecure, secure]
  obtain ⟨answer, after, gone, d, packets, ⟨rfl, old, served⟩, received, filled⟩ :=
    recvAtomic_miss (slot i) (port config level.recvAtomic functional i) (s := s)
      (P := fun answer after gone => gone = false ∧ ∃ old,
        Served (config.caches i) pkt (newBlk (config.caches i) resp old) answer after)
      (inv.caches i) quiet cpu.cacheable facts.1 facts.2.1 facts.2.2.1 facts.2.2.2 missing
      (size ▸ cpu.inside) sent fetched.mine kind place flagged fun old => by
        obtain ⟨answer, after, satisfied, served⟩ := satisfy_cpu (config.caches_isTopLevel i)
          (size ▸ cpu) (newBlk (config.caches i) resp old)
        exact ⟨answer, after, false, satisfied, rfl, old, served⟩
  simp only [Bool.false_eq_true, if_false] at filled
  obtain ⟨value, coherent⟩ := fills old answer after served
  obtain ⟨under, written, good, rest, lines⟩ := fetched.evict functional lawful inv
    reads aligned block secure filled fun v ptr alignedv victim found dirty => by
      rw [← block]
      exact spared.victim missing v ptr alignedv victim found dirty
  have now : copy (config.caches i) d b (flag b) = some after := by
    rw [← filled.here, secure]
    refine copy_congr ?_
    rw [blkAlign_eq, blkAlign_eq, aligned, block]
  refine ⟨answered answer, { (slot i).set d t with below := under }, ?_, ?_, ?_⟩
  · refine received.trans ?_
    rw [written]
    rfl
  · rw [applied_answered]
    refine fetched.inv_after inv aligned filled.wf good (fun a isSecure key => ?_)
      (fun blk found => ?_) fun v alignedv => ?_
    · rcases filled.rest with ⟨-, same⟩ | ⟨v, ptr, old', -, -, -, copied, dropped, -, -, same⟩
      · refine .inl (same a isSecure ?_)
        rw [blkAlign_eq, blkAlign_eq, block, secure]
        exact key
      · by_cases replaced : align config.blkSize a = v ∧ isSecure = old'.isSecure
        · refine .inr ?_
          rw [replaced.2, ← dropped]
          refine copy_congr ?_
          rw [blkAlign_eq, blkAlign_eq, ← replaced.1, align_align]
        · refine .inl (same a isSecure ?_ ?_)
          · rw [blkAlign_eq, blkAlign_eq, block, secure]
            exact key
          · rw [blkAlign_eq]
            exact replaced
    · rw [now] at found
      obtain rfl := Option.some.inj found
      rw [served.readable]
      rfl
    · by_cases line_of : v = b
      · subst line_of
        rw [line_of_fetch now]
        exact coherent.rest rfl rest
      · rw [applied_elsewhere size cpu.inside (block ▸ line_of)]
        exact lines v alignedv line_of
  · intro read k within
    subst block
    rw [answered_data]
    exact served.returns size cpu.inside value read within

theorem request_ok (lawful : level.Lawful wf flag) (inv : Inv level wf flag bytes s)
    (cpu : pkt.FromCpu config.blkSize)
    (secure : pkt.isSecure = flag (align config.blkSize pkt.addr))
    (spared : Spared level flag i pkt s) :
    ∃ answer t, recvAtomic config level.recvAtomic functional i pkt s = .ok (answer, t) ∧
      Inv level wf flag (pkt.applied answer bytes) t ∧ Returns pkt answer bytes := by
  cases here : held config s i pkt.addr pkt.isSecure with
  | none =>
    by_cases store : pkt.cmd = .storeCondReq
    · exact request_givesUp functional inv cpu store here
    · exact request_miss functional lawful inv cpu rfl secure here store spared
  | some blk =>
    by_cases permitted : permits pkt.cmd blk = true
    · exact request_hit functional inv cpu secure here permitted
    · have readable := inv.readable i _ _ blk here
      -- Every copy can be read, so it is the permission to write that is missing.
      have lacks : pkt.cmd.needsExclusive = true ∧ blk.isWritable = false := by
        unfold permits at permitted
        split at permitted
        case isTrue exclusive => exact ⟨exclusive, by simpa using permitted⟩
        case isFalse => exact absurd readable permitted
      exact request_upgrade functional lawful inv cpu rfl secure here lacks.1 lacks.2
        (spared.upgrade blk here lacks.1 lacks.2)

end Cluster

/-- The caches with a record of the value that was last written to each byte. -/
structure CoherentRun (count : Nat) (Below : Type) where
  system : Cluster count Below
  latest : Addr → UInt8

namespace CoherentRun

variable {Below : Type} {config : ClusterConfig} {level : Level config.blkSize Below}
  {wf : Below → Prop} {flag : Addr → Bool} {s : CoherentRun config.count Below}
  (functional : Packet → Cluster config.count Below → Cluster config.count Below)

open Cluster

/-- Caches without blocks over a level that holds some bytes. -/
def start (config : ClusterConfig) (raw : Fin config.count → BlkPtr → Nat → UInt8) (below : Below)
    (latest : Addr → UInt8) : CoherentRun config.count Below :=
  { system := { caches := fun i => .start (config.caches i) (raw i), below := below }
    latest := latest }

/-- A CPU sends a request; a failed assertion ends the run. -/
def step (config : ClusterConfig) (below : Packet → Below → Except CacheFault (Packet × Below))
    (functional : Packet → Cluster config.count Below → Cluster config.count Below)
    (s : CoherentRun config.count Below) (e : Fin config.count × Packet) :
    Option (CoherentRun config.count Below) :=
  match recvAtomic config below functional e.1 e.2 s.system with
  | .ok (answer, t) => some { system := t, latest := e.2.applied answer s.latest }
  | .error _ => none

/-- A request of a CPU whose block is always asked for in one security state. -/
def Allowed (config : ClusterConfig) (flag : Addr → Bool) (pkt : Packet) : Prop :=
  pkt.FromCpu config.blkSize ∧ pkt.isSecure = flag (align config.blkSize pkt.addr)

theorem start_inv (raw : Fin config.count → BlkPtr → Nat → UInt8) {below : Below}
    {latest : Addr → UInt8} (good : wf below)
    (supplies : ∀ b, (level.view below b).supply = bytesAt config.blkSize b latest ∧
      ((level.view below b).dirty = false →
        (level.view below b).memory = bytesAt config.blkSize b latest)) :
    Inv level wf flag latest (start config raw below latest).system := by
  have empty : ∀ i a isSecure,
      held config (start config raw below latest).system i a isSecure = none := by
    intro i a isSecure
    refine (copy_eq_none_iff (start_wf _ _)).mpr fun ptr _ holds => ?_
    exact absurd (Lru.holds_iff.mp holds.2).2.1 Bool.false_ne_true
  have none : ∀ b i,
      (line level flag (start config raw below latest).system b).copies i = none := by
    intro b i
    simp [line, empty]
  refine ⟨fun i => start_wf _ _, good, fun i a f blk found => ?_, fun i a f blk found => ?_,
    fun b _ => ⟨?_, ?_, ?_, ?_, ?_, fun _ => supplies b⟩⟩
  · exact absurd ((empty i a f).symm.trans found) (by simp)
  · exact absurd ((empty i a f).symm.trans found) (by simp)
  all_goals
    intro i c found
    exact absurd ((none b i).symm.trans found) (by simp)

theorem step_ok (lawful : level.Lawful wf flag) (inv : Inv level wf flag s.latest s.system)
    {e : Fin config.count × Packet} (allowed : Allowed config flag e.2)
    (spared : Spared level flag e.1 e.2 s.system) :
    ∃ t, step config level.recvAtomic functional s e = some t ∧
      Inv level wf flag t.latest t.system := by
  obtain ⟨answer, t, received, after, -⟩ :=
    request_ok functional lawful inv allowed.1 allowed.2 spared
  exact ⟨{ system := t, latest := e.2.applied answer s.latest }, by simp [step, received], after⟩

theorem run_inv (lawful : Fin config.count → level.Lawful wf flag)
    (inv : Inv level wf flag s.latest s.system) {es : List (Fin config.count × Packet)}
    (allowed : Machine.Meets (step config level.recvAtomic functional) (fun s e =>
      Allowed config flag e.2 ∧ Spared level flag e.1 e.2 s.system) s es)
    {t : CoherentRun config.count Below}
    (ran : Machine.run (step config level.recvAtomic functional) s es = some t) :
    Inv level wf flag t.latest t.system := by
  refine Machine.run_preserves_of_meets
    (I := fun s => Inv level wf flag s.latest s.system) ?_ inv allowed ran
  intro s e t inv permitted taken
  obtain ⟨after, done, kept⟩ := step_ok functional (lawful e.1) inv permitted.1
    permitted.2
  obtain rfl := Option.some.inj (taken.symm.trans done)
  exact kept

theorem run_ok (lawful : Fin config.count → level.Lawful wf flag)
    (spared : ∀ i pkt s, Spared level flag i pkt s)
    (inv : Inv level wf flag s.latest s.system) {es : List (Fin config.count × Packet)}
    (allowed : ∀ e ∈ es, Allowed config flag e.2) :
    ∃ t, Machine.run (step config level.recvAtomic functional) s es = some t ∧
      Inv level wf flag t.latest t.system := by
  -- Each request is performed, and the others go on from where it ends.
  induction es generalizing s with
  | nil => exact ⟨s, rfl, inv⟩
  | cons e es ih =>
    obtain ⟨middle, taken, kept⟩ := step_ok functional (lawful e.1) inv
      (allowed e (by simp)) (spared e.1 e.2 s.system)
    obtain ⟨t, ran, after⟩ := ih kept fun e' member => allowed e' (by simp [member])
    exact ⟨t, by rw [Machine.run_cons, taken, Option.bind_some, ran], after⟩

end CoherentRun

end GemDroid
