import GemDroid.Lib.Run
import GemDroid.Mem.CacheTags

/-! Secure and non-secure blocks of one cache over whole runs, and the flags they leave with. -/

namespace GemDroid

open Function (update update_of_ne update_self)

open Outcome

/-- A cache with a record of the flags that blocks came with and were written back with. -/
structure SecureRun where
  cache : Cache
  /-- The flag of the packet that brought a block in. -/
  brought : BlkPtr → Bool
  /-- The flags of the packets that wrote blocks back. -/
  sent : List Bool
  /-- The flags that these blocks came with. -/
  owed : List Bool

/-- What a cache does with its blocks. -/
inductive SecureEvent
  /-- A request or a writeback from above, or an uncacheable request that flushes its block. -/
  | access (findMatch : Addr → Bool → Option Mshr) (pkt : Packet)
  /-- A response brings a block, and the requests that waited for it are satisfied. -/
  | fill (findMatch : Addr → Bool → Option Mshr) (pkt : Packet)
    (targets : List (Packet × Bool × Bool))
  /-- A block is taken away by a snoop or by an invalidating response. -/
  | invalidate (addr : Addr) (isSecure : Bool)
  | memWriteback
  | memInvalidate

namespace SecureRun

variable (config : CacheConfig)

/-- A cache that was never used. -/
def start (raw : BlkPtr → Nat → UInt8) : SecureRun :=
  { cache := .start config raw, brought := fun _ => false, sent := [], owed := [] }

/-- The block around the address of a packet. -/
def found (pkt : Packet) (s : SecureRun) : Option BlkPtr :=
  s.cache.tags.findBlock config.toLruConfig pkt.addr pkt.isSecure

/-- The flag of the block that has to be written back to make place at an address. -/
def victimFlags (findMatch : Addr → Bool → Option Mshr) (addr : Addr) (s : SecureRun) :
    List Bool :=
  match s.cache.tags.findVictim config.toLruConfig addr with
  | .error _ => []
  | .ok ptr =>
    let blk := s.cache.tags.blks ptr
    let pending := findMatch (config.regenerateBlkAddr blk.tag ptr.set) blk.isSecure
    if blk.isValid && blk.isDirty && pending.isNone then [s.brought ptr] else []

/-- Whether the block that would make place at an address waits for a request, and so stays. -/
def victimStays (findMatch : Addr → Bool → Option Mshr) (addr : Addr) (s : SecureRun) : Bool :=
  match s.cache.tags.findVictim config.toLruConfig addr with
  | .error _ => true
  | .ok ptr =>
    let blk := s.cache.tags.blks ptr
    blk.isValid && (findMatch (config.regenerateBlkAddr blk.tag ptr.set) blk.isSecure).isSome

/-- The flags of the blocks that an access writes back. -/
def accessFlags (findMatch : Addr → Bool → Option Mshr) (pkt : Packet) (s : SecureRun) :
    List Bool :=
  match s.found config pkt with
  | some ptr =>
    if pkt.req.isUncacheable && (s.cache.tags.blks ptr).isDirty then [s.brought ptr] else []
  | none =>
    if !pkt.req.isUncacheable && pkt.cmd = .writeback then
      s.victimFlags config findMatch pkt.addr
    else []

/-- A block that was not there before was brought in by the packet. -/
def bring (pkt : Packet) (ref : Option BlkRef) (s : SecureRun) : BlkPtr → Bool :=
  match s.found config pkt, ref with
  | none, some (.stored ptr) => update s.brought ptr pkt.isSecure
  | _, _ => s.brought

/-- The temporary block is cleared at once, and written back if it is dirty. -/
def dropTemp (ref : BlkRef) (c : Cache) : Except CacheFault (List Packet × Cache) :=
  match ref with
  | .stored _ => .ok ([], c)
  | .temp => do
    let (packets, c) ←
      if c.tempBlock.isDirty then do
        let (packet, c) ← c.writebackBlk config .temp
        .ok ([packet], c)
      else .ok ([], c)
    let c ← c.invalidate .temp
    return (packets, c)

/-- Requests that waited for a block are satisfied one after the other. -/
def serve (ref : BlkRef) (targets : List (Packet × Bool × Bool)) (c : Cache) :
    Except CacheFault Cache :=
  targets.foldlM (fun c (pkt, deferred_response, pending_downgrade) => do
    let (_, c) ← c.satisfyCpuSideRequest config deferred_response pending_downgrade pkt ref
    return c) c

/-- What an operation does. -/
def perform (s : SecureRun) : SecureEvent → Except CacheFault SecureRun
  | .access findMatch pkt => do
    let accessed ← s.cache.access config findMatch pkt
    return { s with
      cache := accessed.cache
      brought := s.bring config pkt accessed.blk
      sent := s.sent ++ (accessed.writebacks ++ accessed.flushed).map Packet.isSecure
      owed := s.owed ++ s.accessFlags config findMatch pkt }
  | .fill findMatch pkt targets => do
    let (ref, writebacks, c) ←
      s.cache.handleFill config findMatch pkt ((s.found config pkt).map .stored) []
    let c ← serve config ref targets c
    let dirty := (c.blk ref).isDirty
    let (packets, c) ← dropTemp config ref c
    let victims :=
      if (s.found config pkt).isNone then s.victimFlags config findMatch pkt.addr else []
    return { s with
      cache := c
      brought := s.bring config pkt (some ref)
      sent := s.sent ++ (writebacks ++ packets).map Packet.isSecure
      owed := s.owed ++ victims ++ if ref = .temp && dirty then [pkt.isSecure] else [] }
  | .invalidate addr isSecure =>
    match s.cache.tags.findBlock config.toLruConfig addr isSecure with
    | some ptr => do
      let c ← s.cache.invalidate (.stored ptr)
      return { s with cache := c }
    | none => .ok s
  | .memWriteback => do
    let (packets, c) ← s.cache.memWriteback config
    let dirty := config.allBlks.filter fun ptr => (s.cache.tags.blks ptr).isDirty
    return { s with
      cache := c
      sent := s.sent ++ packets.map Packet.isSecure
      owed := s.owed ++ dirty.map s.brought }
  | .memInvalidate => do
    let c ← s.cache.memInvalidate config
    return { s with cache := c }

/-- One operation; a failed assertion ends the run. -/
def step (s : SecureRun) (e : SecureEvent) : Option SecureRun :=
  (s.perform config e).toOption

/--
The flag of a secure block is nowhere lost.

No secure writeback from above is given a new block, and no secure block is written back by a
functional access.
-/
def Marked (s : SecureRun) : SecureEvent → Prop
  | .access findMatch pkt =>
    if pkt.req.isUncacheable then
      ∀ ptr, s.found config pkt = some ptr → (s.cache.tags.blks ptr).isDirty = true →
        pkt.isSecure = false
    else pkt.cmd = .writeback → pkt.isSecure = true →
      (s.found config pkt).isSome = true ∨ s.victimStays config findMatch pkt.addr = true
  | .memWriteback =>
    ∀ ptr ∈ config.allBlks, (s.cache.tags.blks ptr).isDirty = true →
      (s.cache.tags.blks ptr).isSecure = false
  | _ => True

end SecureRun

namespace Cache

variable {config : CacheConfig} {c d : Cache} {ptr : BlkPtr}

/-- Every valid block was valid before, and in the same security state. -/
def Fewer (c d : Cache) : Prop :=
  ∀ p, (d.tags.blks p).isValid = true → (c.tags.blks p).isValid = true ∧
    (d.tags.blks p).isSecure = (c.tags.blks p).isSecure

theorem Fewer.refl (c : Cache) : Fewer c c :=
  fun _ valid => ⟨valid, rfl⟩

theorem Fewer.trans {e : Cache} (first : Fewer c d) (second : Fewer d e) : Fewer c e := by
  intro p valid
  obtain ⟨middle, same⟩ := second p valid
  obtain ⟨old, also⟩ := first p middle
  exact ⟨old, same.trans also⟩

theorem fewer_update {blk : CacheBlk} (blks : d.tags.blks = update c.tags.blks ptr blk)
    (kept : blk.isValid = true → (c.tags.blks ptr).isValid = true ∧
      blk.isSecure = (c.tags.blks ptr).isSecure) : Fewer c d := by
  intro p
  rw [blks]
  by_cases same : p = ptr
  · rw [same, update_self]
    exact kept
  · rw [update_of_ne same]
    exact fun valid => ⟨valid, rfl⟩

theorem satisfy_stored (wf : WF config c) (way : ptr.way < config.assoc)
    (deferred_response pending_downgrade : Bool) (pkt : Packet) :
    Ends Any (c.satisfyCpuSideRequest config deferred_response pending_downgrade pkt
      (.stored ptr)) fun result => WF config result.2 ∧ Fewer c result.2 ∧
        result.2.tempBlock = c.tempBlock := by
  cases valid : (c.tags.blks ptr).isValid with
  | false =>
    simp only [satisfyCpuSideRequest, Cache.blk, valid, Bool.not_false, if_true]
    trivial
  | true =>
    by_cases inside : pkt.getOffset config.blkSize + pkt.size ≤ config.blkSize
    · cases satisfied : satisfy config deferred_response pending_downgrade pkt
          (c.tags.blks ptr) with
      | error fault =>
        simp only [satisfyCpuSideRequest, Cache.blk, valid, Bool.not_true, Bool.false_eq_true,
          if_false, show ¬ config.blkSize < pkt.getOffset config.blkSize + pkt.size by omega,
          reduceCtorEq, decide_false, Bool.and_false, satisfied, ends_bind]
        trivial
      | ok result =>
        obtain ⟨answer, blk, gone⟩ := result
        obtain ⟨d, done, wfd, temp, blks⟩ := wf.satisfyCpuSideRequest valid way inside satisfied
        rw [done, ends_ok]
        refine ⟨wfd, fewer_update blks ?_, temp⟩
        obtain ⟨-, -, secure⟩ := (satisfy_keeps _ _ pkt _).of_ok satisfied
        cases gone with
        | true => exact fun never => absurd never Bool.false_ne_true
        | false => exact fun _ => ⟨valid, secure⟩
    · simp only [satisfyCpuSideRequest, Cache.blk, valid, Bool.not_true, Bool.false_eq_true,
        if_false, show config.blkSize < pkt.getOffset config.blkSize + pkt.size by omega, if_true]
      trivial

/-- The temporary block is the copy it was, or is cleared. -/
def TempKept (isSecure : Bool) (c : Cache) : Prop :=
  c.tempBlock.isValid = true ∧ c.tempBlock.isSecure = isSecure ∨ c.tempBlock.status = .zero

theorem satisfy_temp {isSecure : Bool} (kept : TempKept isSecure c)
    (deferred_response pending_downgrade : Bool) (pkt : Packet) :
    Ends Any (c.satisfyCpuSideRequest config deferred_response pending_downgrade pkt .temp)
      fun result => result.2.tags = c.tags ∧ TempKept isSecure result.2 := by
  unfold satisfyCpuSideRequest
  split
  · trivial
  case isFalse valid =>
    split
    · trivial
    · split
      · trivial
      · simp only [ends_bind, Cache.blk]
        refine (satisfy_keeps deferred_response pending_downgrade pkt c.tempBlock).mono ?_
        rintro ⟨answer, blk, gone⟩ ⟨-, still, secure⟩
        dsimp only at still secure ⊢
        have good : c.tempBlock.isValid = true := by simpa [Cache.blk] using valid
        have same : c.tempBlock.isSecure = isSecure := by
          rcases kept with held | cleared
          · exact held.2
          · simp [CacheBlk.isValid, cleared, BlkStatus.zero] at good
        cases gone with
        | true => exact ⟨rfl, .inr rfl⟩
        | false => exact ⟨rfl, .inl ⟨still.trans good, secure.trans same⟩⟩

end Cache

namespace SecureRun

variable {config : CacheConfig} {s t : SecureRun}

open Cache

theorem serve_stored {c : Cache} {ptr : BlkPtr} (wf : WF config c) (way : ptr.way < config.assoc)
    (targets : List (Packet × Bool × Bool)) :
    Ends Any (serve config (.stored ptr) targets c) fun d => WF config d ∧ Fewer c d ∧
      d.tempBlock = c.tempBlock := by
  refine ends_foldlM (I := fun d => WF config d ∧ Fewer c d ∧ d.tempBlock = c.tempBlock) ?_
    targets ⟨wf, Fewer.refl c, rfl⟩
  rintro d ⟨pkt, deferred_response, pending_downgrade⟩ ⟨wfd, fewer, temp⟩
  simp only [ends_bind, ends_pure]
  refine (satisfy_stored wfd way deferred_response pending_downgrade pkt).mono ?_
  rintro ⟨answer, e⟩ ⟨wfe, also, same⟩
  exact ⟨wfe, fewer.trans also, same.trans temp⟩

theorem serve_temp {c : Cache} {isSecure : Bool} (kept : TempKept isSecure c)
    (targets : List (Packet × Bool × Bool)) :
    Ends Any (serve config .temp targets c) fun d => d.tags = c.tags ∧ TempKept isSecure d := by
  refine ends_foldlM (I := fun d => d.tags = c.tags ∧ TempKept isSecure d) ?_
    targets ⟨rfl, kept⟩
  rintro d ⟨pkt, deferred_response, pending_downgrade⟩ ⟨tags, still⟩
  simp only [ends_bind, ends_pure]
  refine (satisfy_temp still deferred_response pending_downgrade pkt).mono ?_
  rintro ⟨answer, e⟩ ⟨same, after⟩
  exact ⟨same.trans tags, after⟩

/-- What the run keeps while no flag is lost. -/
structure Inv (config : CacheConfig) (s : SecureRun) : Prop where
  wf : WF config s.cache
  marked : ∀ p, (s.cache.tags.blks p).isValid = true →
    (s.cache.tags.blks p).isSecure = s.brought p
  temp : s.cache.tempBlock.status = .zero
  sent : s.sent = s.owed

variable {findMatch : Addr → Bool → Option Mshr} {pkt : Packet}

theorem Inv.evicted_flags (inv : s.Inv config) {addr : Addr} {ptr : BlkPtr}
    (victim : s.cache.tags.findVictim config.toLruConfig addr = .ok ptr)
    (free : (s.cache.tags.blks ptr).isValid = true →
      findMatch (config.regenerateBlkAddr (s.cache.tags.blks ptr).tag ptr.set)
        (s.cache.tags.blks ptr).isSecure = none) :
    (evicted config s.cache ptr).map Packet.isSecure = s.victimFlags config findMatch addr := by
  simp only [evicted, victimFlags, victim]
  cases valid : (s.cache.tags.blks ptr).isValid with
  | false => simp
  | true =>
    rw [free valid]
    cases dirty : (s.cache.tags.blks ptr).isDirty with
    | false => simp
    | true =>
      have flag := inv.marked ptr valid
      simpa [writebackPacket, Packet.ofRequest, blkRequest] using flag

theorem marked_update {brought : BlkPtr → Bool} {c d : Cache} {ptr : BlkPtr} {blk : CacheBlk}
    (marked : ∀ p, (c.tags.blks p).isValid = true → (c.tags.blks p).isSecure = brought p)
    (blks : d.tags.blks = update c.tags.blks ptr blk) {flag : Bool}
    (flagged : blk.isSecure = flag) (p : BlkPtr) (valid : (d.tags.blks p).isValid = true) :
    (d.tags.blks p).isSecure = update brought ptr flag p := by
  rw [blks] at valid ⊢
  by_cases same : p = ptr
  · rw [same, update_self, update_self]
    exact flagged
  · rw [update_of_ne same] at valid ⊢
    rw [update_of_ne same]
    exact marked p valid

theorem marked_fewer {brought : BlkPtr → Bool} {c d : Cache} (fewer : Fewer c d)
    (marked : ∀ p, (c.tags.blks p).isValid = true → (c.tags.blks p).isSecure = brought p)
    (p : BlkPtr) (valid : (d.tags.blks p).isValid = true) :
    (d.tags.blks p).isSecure = brought p := by
  obtain ⟨old, same⟩ := fewer p valid
  exact same.trans (marked p old)

theorem fill_hit (inv : s.Inv config) (findMatch : Addr → Bool → Option Mshr)
    (targets : List (Packet × Bool × Bool)) {ptr : BlkPtr} (here : s.found config pkt = some ptr) :
    Ends Any (s.perform config (.fill findMatch pkt targets)) (Inv config) := by
  obtain ⟨way, -, holds⟩ := (findBlock_eq_some_iff inv.wf).mp here
  obtain ⟨d, filled_d, wfd, temp, blks⟩ :=
    inv.wf.handleFill_hit findMatch here []
  have secure := (Lru.holds_iff.mp holds).2.2
  have fewer : Fewer s.cache d := by
    refine fewer_update blks fun _ => ⟨(Lru.holds_iff.mp holds).2.1, ?_⟩
    simp only [filled, CacheBlk.isSecure] at secure ⊢
    rw [secure, Bool.or_self]
  simp only [perform, here, Option.map_some, filled_d, ends_bind, ends_ok]
  refine (serve_stored wfd way targets).mono fun e served => ?_
  obtain ⟨wfe, also, same⟩ := served
  simp only [dropTemp, ends_ok, ends_pure, Option.isNone_some, Bool.false_eq_true, if_false,
    reduceCtorEq, decide_false, Bool.false_and, List.append_nil, List.map_nil]
  exact {
    wf := wfe
    marked := fun p valid => by
      simp only [bring, here]
      exact marked_fewer (fewer.trans also) inv.marked p valid
    temp := by
      rw [same, temp]
      exact inv.temp
    sent := inv.sent }

theorem fill_stored (inv : s.Inv config) (targets : List (Packet × Bool × Bool))
    (missing : s.found config pkt = none) (brings : pkt.cmd.hasData = true)
    (free : ∀ ptr, s.cache.tags.findVictim config.toLruConfig pkt.addr = .ok ptr →
      (s.cache.tags.blks ptr).isValid = true →
      findMatch (config.regenerateBlkAddr (s.cache.tags.blks ptr).tag ptr.set)
        (s.cache.tags.blks ptr).isSecure = none) :
    Ends Any (s.perform config (.fill findMatch pkt targets)) (Inv config) := by
  obtain ⟨ptr, member, d, victim, filled_d, wfd, temp, blks⟩ :=
    inv.wf.handleFill_miss findMatch brings missing [] free
  have flags := inv.evicted_flags victim (free ptr victim)
  simp only [perform, missing, Option.map_none, filled_d, ends_bind, ends_ok]
  refine (serve_stored wfd (LruConfig.mem_ways.mp member).2 targets).mono fun e served => ?_
  obtain ⟨wfe, fewer, same⟩ := served
  simp only [dropTemp, ends_ok, ends_pure, Option.isNone_none, if_true, reduceCtorEq,
    decide_false, Bool.false_and, Bool.false_eq_true, if_false, List.append_nil, List.nil_append]
  exact {
    wf := wfe
    marked := fun p valid => by
      simp only [bring, missing]
      exact marked_fewer fewer (marked_update inv.marked blks rfl) p valid
    temp := by
      rw [same, temp]
      exact inv.temp
    sent := by
      rw [flags, inv.sent] }

/-- A response that finds no place leaves with the flag it came with. -/
theorem fill_temp (inv : s.Inv config) (targets : List (Packet × Bool × Bool))
    (missing : s.found config pkt = none) (brings : pkt.cmd.hasData = true) {ptr : BlkPtr}
    {mshr : Mshr} (victim : s.cache.tags.findVictim config.toLruConfig pkt.addr = .ok ptr)
    (valid : (s.cache.tags.blks ptr).isValid = true)
    (pending : findMatch (config.regenerateBlkAddr (s.cache.tags.blks ptr).tag ptr.set)
      (s.cache.tags.blks ptr).isSecure = some mshr) :
    Ends Any (s.perform config (.fill findMatch pkt targets)) (Inv config) := by
  have none : s.victimFlags config findMatch pkt.addr = [] := by
    simp [victimFlags, victim, pending]
  have empty : s.cache.tempBlock.isValid = false := by
    simp [CacheBlk.isValid, inv.temp, BlkStatus.zero]
  -- No way is left, so the temporary block takes the response, with its flag.
  let d : Cache := { s.cache with
    tempSet := config.extractSet pkt.addr
    tempBlock := filled pkt { s.cache.tempBlock with tag := config.extractTag pkt.addr } }
  have kept : TempKept pkt.isSecure d := by
    refine .inl ⟨rfl, ?_⟩
    simp [d, filled, CacheBlk.isSecure, inv.temp, BlkStatus.zero]
  have filling : Ends Any (s.cache.handleFill config findMatch pkt Option.none []) fun result =>
      result = (.temp, [], d) := by
    simp only [handleFill, fillPlace, brings, Bool.not_true, Bool.false_eq_true, if_false,
      ends_bind]
    refine (allocateBlock_pending [] victim valid pending).mono ?_
    rintro _ rfl
    have clear : CacheBlk.isValid (Cache.blk { s.cache with
        tempSet := config.extractSet pkt.addr
        tempBlock := { s.cache.tempBlock with tag := config.extractTag pkt.addr } } .temp) =
          false := empty
    simp only [empty, Bool.false_eq_true, if_false, ends_bind, ends_ok, clear, ends_pure]
    rfl
  simp only [perform, missing, Option.map_none, ends_bind]
  refine filling.mono ?_
  rintro _ rfl
  refine (serve_temp kept targets).mono fun e served => ?_
  obtain ⟨tags, still⟩ := served
  have same : e.tags = s.cache.tags := tags
  -- It is given up at once, and written back if the targets made it dirty.
  have dropped : Ends Any (dropTemp config .temp e) fun result =>
      result.1.map Packet.isSecure = (if (e.blk .temp).isDirty then [pkt.isSecure] else []) ∧
        result.2.tags = e.tags ∧ result.2.tempBlock.status = .zero := by
    simp only [dropTemp, Cache.blk]
    by_cases dirty : e.tempBlock.isDirty = true
    case neg =>
      simp only [dirty]
      exact ⟨rfl, rfl, rfl⟩
    case pos =>
      obtain ⟨held, flag⟩ := still.resolve_right fun cleared => by
        simp [CacheBlk.isDirty, cleared, BlkStatus.zero] at dirty
      simp only [if_true, writebackBlk, Cache.blk, held, dirty, Bool.and_self, Bool.not_true,
        Bool.false_eq_true, if_false, ends_bind, ends_ok]
      refine ⟨?_, rfl, rfl⟩
      simpa [writebackPacket, Packet.ofRequest, blkRequest] using flag
  refine dropped.mono ?_
  rintro ⟨packets, c⟩ ⟨flags, tagged, zero⟩
  dsimp only at flags tagged zero
  simp only [ends_pure, none, Option.isNone_none, if_true, decide_true, Bool.true_and,
    List.nil_append, List.append_nil]
  have blks : c.tags = s.cache.tags := tagged.trans same
  exact {
    wf := inv.wf.reorder (by rw [blks]; exact inv.wf.tags) (by rw [blks])
    marked := fun p valid => by
      simp only [bring, missing]
      rw [blks] at valid ⊢
      exact inv.marked p valid
    temp := zero
    sent := by rw [flags, inv.sent] }

theorem fill_inv (inv : s.Inv config) (findMatch : Addr → Bool → Option Mshr) (pkt : Packet)
    (targets : List (Packet × Bool × Bool)) :
    Ends Any (s.perform config (.fill findMatch pkt targets)) (Inv config) := by
  cases missing : s.found config pkt with
  | some ptr => exact fill_hit inv findMatch targets missing
  | none =>
    by_cases brings : pkt.cmd.hasData = true
    · -- The victim may have to stay for a request that is outstanding.
      obtain ⟨ptr, victim, -, -⟩ := inv.wf.tags.findVictim_ok pkt.addr
      by_cases stays : (s.cache.tags.blks ptr).isValid = true ∧ (findMatch
          (config.regenerateBlkAddr (s.cache.tags.blks ptr).tag ptr.set)
          (s.cache.tags.blks ptr).isSecure).isSome = true
      · obtain ⟨mshr, pending⟩ := Option.isSome_iff_exists.mp stays.2
        exact fill_temp inv targets missing brings victim stays.1 pending
      · refine fill_stored inv targets missing brings fun other same valid => ?_
        obtain rfl := Except.ok.inj (victim.symm.trans same)
        simpa [valid] using stays
    · simp only [perform, missing, Option.map_none, handleFill, fillPlace, brings, ends_bind,
        Bool.not_false, if_true]
      trivial

theorem writebackVisitor_ends {c : Cache} (wf : WF config c) (ptr : BlkPtr) :
    Ends Any (c.writebackVisitor config ptr) fun result => WF config result.2 ∧
      Fewer c result.2 ∧ result.2.tempBlock = c.tempBlock ∧
      result.1.map Packet.isSecure = (if (c.tags.blks ptr).isDirty then [false] else []) ∧
      ∀ p, p ≠ ptr → result.2.tags.blks p = c.tags.blks p := by
  unfold writebackVisitor
  dsimp only
  split
  case isTrue dirty =>
    split
    · trivial
    case isFalse valid =>
      simp only [Bool.not_eq_true', Bool.not_eq_false] at valid
      refine ⟨wf.setBlk rfl valid valid rfl, fewer_update rfl fun _ => ⟨valid, rfl⟩, rfl, rfl, ?_⟩
      intro p other
      simp [Cache.setBlk, Lru.setBlk, other]
  case isFalse clean =>
    exact ⟨wf, Fewer.refl c, rfl, rfl, fun _ _ => rfl⟩

theorem invalidateVisitor_ends {c : Cache} (wf : WF config c) {ptr : BlkPtr}
    (way : ptr.way < config.assoc) :
    Ends Any (c.invalidateVisitor ptr) fun d => WF config d ∧ Fewer c d ∧
      d.tempBlock = c.tempBlock := by
  unfold invalidateVisitor
  dsimp only
  split
  case isTrue valid =>
    split
    · trivial
    · obtain ⟨d, dropped, wfd, temp, blks⟩ := wf.invalidate valid way
      rw [dropped, ends_ok]
      exact ⟨wfd, fewer_update blks fun never => absurd never Bool.false_ne_true, temp⟩
  case isFalse => exact ⟨wf, Fewer.refl c, rfl⟩

/-- An uncacheable request writes its block back and drops it. -/
theorem flush_inv (inv : s.Inv config) (findMatch : Addr → Bool → Option Mshr)
    (uncacheable : pkt.req.isUncacheable = true)
    (marked : s.Marked config (.access findMatch pkt)) :
    Ends Any (s.perform config (.access findMatch pkt)) (Inv config) := by
  simp only [Marked, uncacheable, if_true] at marked
  -- Dropping load locks changes no block that is looked up.
  let c : Cache :=
    if pkt.req.isClearLL then { s.cache with tags := s.cache.tags.clearLocks } else s.cache
  have wf : WF config c := by
    simp only [c]
    split
    · exact inv.wf.clearLocks
    · exact inv.wf
  have same : c.tags.findBlock config.toLruConfig pkt.addr pkt.isSecure = s.found config pkt := by
    simp only [c]
    split <;> rfl
  have fewer : Fewer s.cache c := by
    simp only [c]
    split <;> exact fun _ valid => ⟨valid, rfl⟩
  have dirt : ∀ p, (c.tags.blks p).isDirty = (s.cache.tags.blks p).isDirty := by
    intro p
    simp only [c]
    split <;> rfl
  have temp : c.tempBlock = s.cache.tempBlock := by
    simp only [c]
    split <;> rfl
  have flushed : Ends Any (s.cache.uncacheableFlush config pkt) fun result =>
      WF config result.2 ∧ Fewer s.cache result.2 ∧ result.2.tempBlock = s.cache.tempBlock ∧
      result.1.map Packet.isSecure = s.accessFlags config findMatch pkt := by
    show Ends Any (match c.tags.findBlock config.toLruConfig pkt.addr pkt.isSecure with
      | some ptr => _
      | none => _) _
    rw [same]
    cases here : s.found config pkt with
    | none => exact ⟨wf, fewer, temp, by simp [accessFlags, here, uncacheable]⟩
    | some ptr =>
      obtain ⟨way, -, holds⟩ := (findBlock_eq_some_iff wf).mp (same.trans here)
      simp only [ends_bind]
      refine (writebackVisitor_ends wf ptr).mono ?_
      rintro ⟨packets, d⟩ ⟨wfd, first, tempd, flags, -⟩
      refine (invalidateVisitor_ends wfd way).mono ?_
      rintro e ⟨wfe, second, tempe⟩
      refine ⟨wfe, (fewer.trans first).trans second, (tempe.trans tempd).trans temp, ?_⟩
      -- The functional write carries no flag, which is right for a block without one.
      dsimp only at flags
      rw [flags, dirt]
      simp only [accessFlags, here, uncacheable, Bool.true_and]
      cases dirty : (s.cache.tags.blks ptr).isDirty with
      | false => rfl
      | true =>
        obtain ⟨-, valid, secure⟩ := Lru.holds_iff.mp holds
        have flag := marked_fewer fewer inv.marked ptr valid
        rw [secure, marked ptr here dirty] at flag
        rw [if_pos rfl, if_pos rfl, ← flag]
  simp only [perform, access, uncacheable, if_true, ends_bind]
  refine flushed.mono ?_
  rintro ⟨packets, d⟩ ⟨wfd, first, tempd, flags⟩
  simp only [ends_pure, List.nil_append]
  exact {
    wf := wfd
    marked := fun p valid => by
      have unbrought : s.bring config pkt none = s.brought := by
        simp only [bring]
        cases s.found config pkt <;> rfl
      rw [unbrought]
      exact marked_fewer first inv.marked p valid
    temp := by
      rw [tempd]
      exact inv.temp
    sent := by rw [flags, inv.sent] }

theorem takeWriteback_hit {c : Cache} (wf : WF config c) {ptr : BlkPtr}
    (valid : (c.tags.blks ptr).isValid = true) :
    Ends Any (c.takeWriteback config findMatch pkt (some (.stored ptr))) fun accessed =>
      WF config accessed.cache ∧ Fewer c accessed.cache ∧
      accessed.cache.tempBlock = c.tempBlock ∧ accessed.writebacks = [] ∧
      accessed.flushed = [] := by
  unfold takeWriteback
  split
  · trivial
  · simp only [ends_bind, ends_ok]
    split
    · trivial
    · exact ⟨wf.setBlk rfl valid valid rfl, fewer_update rfl fun _ => ⟨valid, rfl⟩, rfl, rfl, rfl⟩

/-- A writeback for a block that is not there takes a place, or is passed on. -/
theorem takeWriteback_miss (inv : s.Inv config) (cacheable : pkt.req.isUncacheable = false)
    (is_writeback : pkt.cmd = .writeback) (missing : s.found config pkt = none)
    (marked : pkt.isSecure = true → s.victimStays config findMatch pkt.addr = true) :
    Ends Any (s.cache.takeWriteback config findMatch pkt none) fun accessed =>
      Inv config { s with
        cache := accessed.cache
        brought := s.bring config pkt accessed.blk
        sent := s.sent ++ (accessed.writebacks ++ accessed.flushed).map Packet.isSecure
        owed := s.owed ++ s.accessFlags config findMatch pkt } := by
  have owed : s.accessFlags config findMatch pkt = s.victimFlags config findMatch pkt.addr := by
    simp [accessFlags, missing, cacheable, is_writeback]
  by_cases size : pkt.size = config.blkSize
  case neg =>
    simp only [takeWriteback, ne_comm.mp size, ne_eq, not_false_eq_true, if_true]
    trivial
  case pos =>
    obtain ⟨ptr, victim, -, -⟩ := inv.wf.tags.findVictim_ok pkt.addr
    by_cases stays : (s.cache.tags.blks ptr).isValid = true ∧ (findMatch
        (config.regenerateBlkAddr (s.cache.tags.blks ptr).tag ptr.set)
        (s.cache.tags.blks ptr).isSecure).isSome = true
    · -- No block can be replaced, so the writeback goes to the next level.
      obtain ⟨mshr, pending⟩ := Option.isSome_iff_exists.mp stays.2
      simp only [takeWriteback, size, ne_eq, not_true_eq_false, if_false, ends_bind]
      refine (allocateBlock_pending [] victim stays.1 pending).mono ?_
      rintro _ rfl
      have none : s.victimFlags config findMatch pkt.addr = [] := by
        simp [victimFlags, victim, pending]
      rw [owed, none]
      exact {
        wf := inv.wf
        marked := fun p valid => by
          simp only [bring, missing]
          exact inv.marked p valid
        temp := inv.temp
        sent := by simp [inv.sent] }
    · have free : ∀ other, s.cache.tags.findVictim config.toLruConfig pkt.addr = .ok other →
          (s.cache.tags.blks other).isValid = true → findMatch
            (config.regenerateBlkAddr (s.cache.tags.blks other).tag other.set)
            (s.cache.tags.blks other).isSecure = none := by
        intro other found valid
        obtain rfl := Except.ok.inj (victim.symm.trans found)
        simpa [valid] using stays
      have insecure : pkt.isSecure = false := by
        by_contra secure
        have waits := marked (by simpa using secure)
        simp only [victimStays, victim, Bool.and_eq_true] at waits
        exact stays waits
      obtain ⟨place, member, d, there, taken, wfd, temp, blks⟩ :=
        inv.wf.takeWriteback_miss findMatch is_writeback size missing free
      have flags := inv.evicted_flags there (free place there)
      rw [taken, ends_ok, owed, ← flags]
      exact {
        wf := wfd insecure
        marked := fun p valid => by
          simp only [bring, missing]
          exact marked_update inv.marked blks insecure.symm p valid
        temp := by
          rw [temp]
          exact inv.temp
        sent := by simp [inv.sent] }

theorem Inv.quiet (inv : s.Inv config) {c : Cache} {ref : Option BlkRef} (wf : WF config c)
    (fewer : Fewer s.cache c) (temp : c.tempBlock = s.cache.tempBlock)
    (unbrought : s.bring config pkt ref = s.brought)
    (none : s.accessFlags config findMatch pkt = []) :
    Inv config { s with
      cache := c
      brought := s.bring config pkt ref
      sent := s.sent ++ ([] ++ [] : List Packet).map Packet.isSecure
      owed := s.owed ++ s.accessFlags config findMatch pkt } where
  wf := wf
  marked := fun p valid => by
    rw [unbrought]
    exact marked_fewer fewer inv.marked p valid
  temp := by
    rw [temp]
    exact inv.temp
  sent := by simp [none, inv.sent]

/-- A cacheable request or writeback keeps the invariant. -/
theorem access_inv (inv : s.Inv config) (findMatch : Addr → Bool → Option Mshr)
    (cacheable : pkt.req.isUncacheable = false) (marked : s.Marked config (.access findMatch pkt)) :
    Ends Any (s.perform config (.access findMatch pkt)) (Inv config) := by
  simp only [Marked, cacheable, Bool.false_eq_true, if_false] at marked
  cases here : s.found config pkt with
  | none =>
    have looked : s.cache.tags.accessBlock config.toLruConfig pkt.addr pkt.isSecure =
        .ok (s.cache.tags, none) := Lru.accessBlock_miss here
    simp only [perform, access, cacheable, Bool.false_eq_true, if_false, looked, ends_bind,
      ends_ok, Option.map_none, decide_true, Bool.true_and, ends_pure]
    split
    case isTrue is_writeback =>
      refine takeWriteback_miss inv cacheable is_writeback here fun secure => ?_
      simpa [here] using marked is_writeback secure
    case isFalse other =>
      have none : s.accessFlags config findMatch pkt = [] := by
        simp [accessFlags, here, other]
      have unbrought : s.bring config pkt Option.none = s.brought := by
        simp only [bring, here]
      split
      · exact inv.quiet inv.wf (Fewer.refl _) rfl unbrought none
      · exact inv.quiet inv.wf (Fewer.refl _) rfl unbrought none
  | some ptr =>
    obtain ⟨tags, looked, blks, wf⟩ := accessBlock_ok inv.wf pkt.addr pkt.isSecure
    have found : s.cache.tags.findBlock config.toLruConfig pkt.addr pkt.isSecure = some ptr := here
    obtain ⟨way, -, holds⟩ := (findBlock_eq_some_iff inv.wf).mp found
    obtain ⟨-, valid, -⟩ := Lru.holds_iff.mp holds
    rw [← blks] at valid
    have reordered : Fewer s.cache { s.cache with tags := tags } := by
      intro p good
      rw [blks] at good ⊢
      exact ⟨good, rfl⟩
    have none : s.accessFlags config findMatch pkt = [] := by
      simp [accessFlags, here, cacheable]
    have unbrought : ∀ ref, s.bring config pkt ref = s.brought := by
      intro ref
      simp only [bring, here]
    simp only [perform, access, cacheable, Bool.false_eq_true, if_false, looked, found, ends_bind,
      ends_ok, Option.any_some]
    split
    case h_1 =>
      -- The block is there with enough permission.
      rename_i same _
      obtain rfl := Option.some.inj same
      simp only [ends_bind, ends_pure]
      refine (satisfy_stored wf way false false pkt).mono ?_
      rintro ⟨answer, d⟩ ⟨wfd, fewer, temp⟩
      exact inv.quiet wfd (reordered.trans fewer) temp (unbrought _) none
    case h_2 =>
      split
      · refine (takeWriteback_hit wf valid).mono ?_
        rintro ⟨satisfied, answer, ref, writebacks, flushed, d⟩ ⟨wfd, fewer, temp, back, sent⟩
        dsimp only at wfd fewer temp back sent
        subst back sent
        exact inv.quiet wfd (reordered.trans fewer) temp (unbrought _) none
      · split
        · exact inv.quiet wf reordered rfl (unbrought _) none
        · exact inv.quiet wf reordered rfl (unbrought _) none

theorem invalidate_inv (inv : s.Inv config) (addr : Addr) (isSecure : Bool) :
    Ends Any (s.perform config (.invalidate addr isSecure)) (Inv config) := by
  cases found : s.cache.tags.findBlock config.toLruConfig addr isSecure with
  | none =>
    simp only [perform, found, ends_ok]
    exact inv
  | some ptr =>
    obtain ⟨way, -, holds⟩ := (findBlock_eq_some_iff inv.wf).mp found
    obtain ⟨-, valid, -⟩ := Lru.holds_iff.mp holds
    obtain ⟨d, dropped, wf, temp, blks⟩ := inv.wf.invalidate valid way
    simp only [perform, found, ends_bind, dropped, ends_ok, ends_pure]
    have fewer : Fewer s.cache d :=
      fewer_update blks fun never => absurd never Bool.false_ne_true
    exact {
      wf := wf
      marked := marked_fewer fewer inv.marked
      temp := by
        rw [temp]
        exact inv.temp
      sent := inv.sent }

theorem writebackAll_ends {c : Cache} (wf : WF config c) {blks : List BlkPtr}
    (distinct : blks.Nodup) (sent : List Packet) :
    Ends Any (blks.foldlM (fun (sent, c) ptr => do
      let (more, c) ← writebackVisitor config ptr c
      return (sent ++ more, c)) (sent, c)) fun result => WF config result.2 ∧
        Fewer c result.2 ∧ result.2.tempBlock = c.tempBlock ∧
        result.1.map Packet.isSecure = sent.map Packet.isSecure ++
          (blks.filter fun ptr => (c.tags.blks ptr).isDirty).map fun _ => false := by
  -- A block that was visited is not visited again, so the others are still as they were.
  induction blks generalizing c sent with
  | nil => exact ⟨wf, Fewer.refl c, rfl, by simp⟩
  | cons ptr rest ih =>
    obtain ⟨fresh, later⟩ := List.nodup_cons.mp distinct
    simp only [List.foldlM_cons, ends_bind, ends_pure]
    refine (writebackVisitor_ends wf ptr).mono ?_
    rintro ⟨more, d⟩ ⟨wfd, first, temp, flags, others⟩
    dsimp only at wfd first temp flags others
    refine (ih wfd later (sent ++ more)).mono ?_
    rintro ⟨packets, e⟩ ⟨wfe, second, also, all⟩
    dsimp only at wfe second also all
    refine ⟨wfe, first.trans second, also.trans temp, ?_⟩
    have same : (rest.filter fun p => (d.tags.blks p).isDirty) =
        rest.filter fun p => (c.tags.blks p).isDirty := by
      refine List.filter_congr fun p member => ?_
      rw [others p fun here => fresh (here ▸ member)]
    rw [all, same, List.map_append, flags, List.append_assoc, List.filter_cons]
    cases (c.tags.blks ptr).isDirty <;> rfl

theorem memWriteback_inv (inv : s.Inv config) (marked : s.Marked config .memWriteback) :
    Ends Any (s.perform config .memWriteback) (Inv config) := by
  simp only [perform, memWriteback, ends_bind, ends_pure]
  refine (writebackAll_ends inv.wf (LruConfig.allBlks_nodup config.toLruConfig) []).mono ?_
  rintro ⟨packets, d⟩ ⟨wf, fewer, temp, flags⟩
  dsimp only at wf fewer temp flags
  exact {
    wf := wf
    marked := marked_fewer fewer inv.marked
    temp := by
      rw [temp]
      exact inv.temp
    sent := by
      rw [flags, inv.sent, List.map_nil, List.nil_append]
      refine congrArg (s.owed ++ ·) ?_
      refine List.map_congr_left fun ptr member => ?_
      obtain ⟨inside, dirty⟩ := List.mem_filter.mp member
      have valid : (s.cache.tags.blks ptr).isValid = true := by
        by_contra invalid
        have zero := inv.wf.zero ptr (by simpa using invalid)
        simp [CacheBlk.isDirty, zero, BlkStatus.zero] at dirty
      rw [← inv.marked ptr valid, marked ptr inside dirty] }

theorem memInvalidate_inv (inv : s.Inv config) :
    Ends Any (s.perform config .memInvalidate) (Inv config) := by
  simp only [perform, memInvalidate, ends_bind, ends_pure]
  have dropped : Ends Any (config.allBlks.foldlM (fun c ptr => invalidateVisitor ptr c) s.cache)
      fun d => WF config d ∧ Fewer s.cache d ∧ d.tempBlock = s.cache.tempBlock := by
    refine ends_foldlM_mem (I := fun d => WF config d ∧ Fewer s.cache d ∧
      d.tempBlock = s.cache.tempBlock) ?_ ⟨inv.wf, Fewer.refl _, rfl⟩
    rintro d ptr member ⟨wf, fewer, temp⟩
    refine (invalidateVisitor_ends wf (LruConfig.mem_allBlks.mp member).2).mono ?_
    rintro e ⟨wfe, also, same⟩
    exact ⟨wfe, fewer.trans also, same.trans temp⟩
  refine dropped.mono ?_
  rintro d ⟨wf, fewer, temp⟩
  exact {
    wf := wf
    marked := marked_fewer fewer inv.marked
    temp := by
      rw [temp]
      exact inv.temp
    sent := inv.sent }

theorem step_inv {e : SecureEvent} (inv : s.Inv config) (marked : s.Marked config e)
    (taken : s.step config e = some t) : t.Inv config := by
  have ends : Ends Any (s.perform config e) (Inv config) := by
    cases e with
    | access findMatch pkt =>
      cases cacheable : pkt.req.isUncacheable with
      | true => exact flush_inv inv findMatch cacheable marked
      | false => exact access_inv inv findMatch cacheable marked
    | fill findMatch pkt targets => exact fill_inv inv findMatch pkt targets
    | invalidate addr isSecure => exact invalidate_inv inv addr isSecure
    | memWriteback => exact memWriteback_inv inv marked
    | memInvalidate => exact memInvalidate_inv inv
  unfold step at taken
  cases result : s.perform config e with
  | error fault =>
    rw [result] at taken
    exact absurd taken (by simp [Except.toOption])
  | ok after =>
    rw [result] at taken
    obtain rfl := Option.some.inj taken
    exact ends.of_ok result

theorem start_inv (config : CacheConfig) (raw : BlkPtr → Nat → UInt8) :
    (start config raw).Inv config where
  wf := start_wf config raw
  marked := fun _ valid => absurd valid Bool.false_ne_true
  temp := rfl
  sent := rfl

/-- Secure and non-secure blocks are kept apart, and leave with the flags that they came with. -/
structure Apart (config : CacheConfig) (s : SecureRun) : Prop where
  single : ∀ p q, p.way < config.assoc → q.way < config.assoc →
    (s.cache.tags.blks p).isValid = true → (s.cache.tags.blks q).isValid = true →
    config.regenerateBlkAddr (s.cache.tags.blks p).tag p.set =
      config.regenerateBlkAddr (s.cache.tags.blks q).tag q.set →
    (s.cache.tags.blks p).isSecure = (s.cache.tags.blks q).isSecure → p = q
  marked : ∀ p, (s.cache.tags.blks p).isValid = true →
    (s.cache.tags.blks p).isSecure = s.brought p
  sent : s.sent = s.owed

theorem Inv.apart (inv : s.Inv config) : s.Apart config where
  single := by
    intro p q wayp wayq validp validq same secure
    obtain ⟨a, tagp, setp⟩ := inv.wf.home p validp
    obtain ⟨b, tagq, setq⟩ := inv.wf.home q validq
    -- The tag and the set of a block are those of an address, which its place gives back.
    rw [← tagp, ← setp, ← tagq, ← setq, LruConfig.regenerateBlkAddr_extract,
      LruConfig.regenerateBlkAddr_extract, LruConfig.blkAlign_eq_iff] at same
    have sets : p.set = q.set := by rw [← setp, ← setq, same.2]
    have tags : (s.cache.tags.blks p).tag = (s.cache.tags.blks q).tag := by
      rw [← tagp, ← tagq, same.1]
    exact inv.wf.tags.unique p.set p (LruConfig.mem_ways.mpr ⟨rfl, wayp⟩) q
      (LruConfig.mem_ways.mpr ⟨sets.symm, wayq⟩) validp validq tags secure
  marked := inv.marked
  sent := inv.sent

/-- In a run that loses no flag, secure and non-secure blocks stay apart in every state. -/
theorem secure_data_stays_apart (config : CacheConfig) (raw : BlkPtr → Nat → UInt8)
    {es : List SecureEvent}
    (marked : Machine.Meets (step config) (Marked config) (start config raw) es)
    (ran : Machine.run (step config) (start config raw) es = some s) : s.Apart config := by
  have inv : s.Inv config :=
    Machine.run_preserves_of_meets (fun _ _ _ inv allowed taken => step_inv inv allowed taken)
      (start_inv config raw) marked ran
  exact inv.apart

/-- A cache with place for one block. -/
def oneBlock : CacheConfig :=
  .oneSet 0 false

/-- A packet for the first bytes of the memory. -/
def flagged (isSecure : Bool) (size : Nat) (cmd : MemCmd) : Packet :=
  .ofRequest ⟨0, size, 0, isSecure, false, false, false, false, 0⟩ cmd fun _ => 0

/-- A secure write, whose block a non-secure read of the same address replaces. -/
def writeThenRead : List SecureEvent :=
  [.access (fun _ _ => none) (flagged true 4 .writeReq),
    .fill (fun _ _ => none) (flagged true 16 .readExResp) [(flagged true 4 .writeReq, true, false)],
    .access (fun _ _ => none) (flagged false 4 .readReq),
    .fill (fun _ _ => none) (flagged false 16 .readResp) [(flagged false 4 .readReq, true, false)]]

/-- The written block leaves as a secure one, and the block of the read stays as another. -/
theorem secure_block_replaced :
    ∃ s, Machine.run (step oneBlock) (start oneBlock fun _ _ => 0) writeThenRead = some s ∧
      s.sent = [true] ∧ (s.cache.tags.blks ⟨0, 0⟩).isValid = true ∧
      (s.cache.tags.blks ⟨0, 0⟩).isSecure = false ∧ s.Apart oneBlock := by
  have replay : (Machine.run (step oneBlock) (start oneBlock fun _ _ => 0) writeThenRead).any
      (fun s => s.sent = [true] ∧ (s.cache.tags.blks ⟨0, 0⟩).isValid = true ∧
        (s.cache.tags.blks ⟨0, 0⟩).isSecure = false) = true := by
    decide +kernel
  obtain ⟨s, ran, seen⟩ := (Option.any_eq_true _ _).mp replay
  obtain ⟨sent, valid, insecure⟩ := of_decide_eq_true seen
  have marked : Machine.Meets (step oneBlock) (Marked oneBlock) (start oneBlock fun _ _ => 0)
      writeThenRead := by
    refine Machine.meets_of_forall ?_ _
    simp [writeThenRead, Marked, flagged, Packet.ofRequest]
  exact ⟨s, ran, sent, valid, insecure, secure_data_stays_apart _ _ marked ran⟩

/-- A secure writeback from above without a copy here becomes a block that is not secure. -/
theorem secure_writeback_loses_flag :
    ¬ ∀ config raw events s, Machine.run (step config) (start config raw) events = some s →
      s.Apart config := by
  intro always
  let writeback : List SecureEvent := [.access (fun _ _ => none) (flagged true 16 .writeback)]
  have replay : (Machine.run (step oneBlock) (start oneBlock fun _ _ => 0) writeback).any
      (fun s => (s.cache.tags.blks ⟨0, 0⟩).isValid = true ∧
        (s.cache.tags.blks ⟨0, 0⟩).isSecure = false ∧ s.brought ⟨0, 0⟩ = true) = true := by
    decide +kernel
  obtain ⟨s, ran, seen⟩ := (Option.any_eq_true _ _).mp replay
  obtain ⟨valid, insecure, secure⟩ := of_decide_eq_true seen
  have same := (always _ _ _ s ran).marked ⟨0, 0⟩ valid
  rw [insecure, secure] at same
  exact absurd same Bool.false_ne_true

end SecureRun

end GemDroid
