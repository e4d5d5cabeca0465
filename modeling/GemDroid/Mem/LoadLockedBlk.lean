import GemDroid.Mem.LoadLocked

/-! The reservations that a cache block keeps, and the runs over which locks keep up with them. -/

namespace GemDroid

open Reservation

namespace CacheBlk

/-- A block as a place for accesses; a load-locked reserves its own bytes. -/
def llsc (config : CacheConfig) (base : Addr) : LlscDevice CacheBlk (Nat → UInt8) where
  data := CacheBlk.data
  stored a := a.packet.writeDataToBlock config.blkSize
  holds req := decide (0 < req.size ∧ config.blkAlign req.paddr = base ∧
    config.extractBlkOffset req.paddr + req.size ≤ config.blkSize)
  access a blk := do
    let (answer, blk, _) ←
      Cache.satisfy config a.deferred_response a.pending_downgrade a.packet blk
    return (answer, blk)
  reach r w := r.paddr.toNat < w.paddr.toNat + w.size ∧ w.paddr.toNat < r.paddr.toNat + r.size

/-- A context has a lock on all the bytes of a request. -/
def Grants (blk : CacheBlk) (c : Int) (r : Request) : Prop :=
  ∃ lock ∈ blk.lockList, lock.contextId = c ∧ lock.lowAddr ≤ r.paddr ∧
    Lock.reqHigh r ≤ lock.highAddr

/-- A context has a lock on exactly the bytes of a request. -/
def Tracks (blk : CacheBlk) (c : Int) (r : Request) : Prop :=
  { contextId := c, lowAddr := r.paddr, highAddr := Lock.reqHigh r } ∈ blk.lockList

/-- Whether a store-conditional finds a lock of its own (in `checkWrite`). -/
def granted (blk : CacheBlk) (req : Request) : Bool :=
  blk.lockList.any (Lock.matchesContext req)

/-- The bytes that an access finds in a block. -/
def bytes (config : CacheConfig) (blk : CacheBlk) (addr : Addr) (i : Nat) : UInt8 :=
  blk.data (config.extractBlkOffset addr + i)

theorem granted_iff (blk : CacheBlk) (req : Request) :
    blk.granted req = true ↔ blk.Grants req.contextId req := by
  simp [granted, Grants, Lock.matchesContext]

theorem Tracks.grants {blk : CacheBlk} {c : Int} {r : Request} (tracks : blk.Tracks c r) :
    blk.Grants c r :=
  ⟨_, tracks, rfl, BitVec.le_refl _, BitVec.le_refl _⟩

variable {config : CacheConfig} {base : Addr}

theorem reqHigh_toNat {req : Request} (inside : (llsc config base).holds req = true) :
    0 < req.size ∧ (Lock.reqHigh req).toNat = req.paddr.toNat + req.size - 1 := by
  simp only [llsc, decide_eq_true_eq] at inside
  obtain ⟨positive, -, fits⟩ := inside
  have power := config.blkSize_eq
  have narrow := config.blkSize_narrow
  have offset : config.extractBlkOffset req.paddr = req.paddr.toNat % config.blkSize :=
    Align.offset_eq_mod power narrow req.paddr
  obtain ⟨c, words⟩ : ∃ c, 2 ^ 64 = config.blkSize * c := by
    rw [power]
    exact ⟨2 ^ (64 - config.setShift), by rw [← pow_add]; congr 1; omega⟩
  have blocks : req.paddr.toNat / config.blkSize < c := by
    apply Nat.div_lt_of_lt_mul
    rw [← words]
    exact req.paddr.isLt
  have below : config.blkSize * (req.paddr.toNat / config.blkSize + 1) ≤ config.blkSize * c :=
    Nat.mul_le_mul_left _ blocks
  have split := Nat.div_add_mod req.paddr.toNat config.blkSize
  rw [Nat.mul_add] at below
  have ends : req.paddr.toNat + req.size ≤ 2 ^ 64 := by omega
  refine ⟨positive, ?_⟩
  simp only [Lock.reqHigh, BitVec.toNat_sub, BitVec.toNat_add, BitVec.toNat_ofNat]
  omega

theorem overlapping_iff {c : Int} {r w : Request} (reserved : (llsc config base).holds r = true)
    (written : (llsc config base).holds w = true) :
    Lock.overlapping w { contextId := c, lowAddr := r.paddr, highAddr := Lock.reqHigh r } = true ↔
      (llsc config base).reach r w := by
  obtain ⟨some_r, high_r⟩ := reqHigh_toNat reserved
  obtain ⟨some_w, high_w⟩ := reqHigh_toNat written
  simp only [Lock.overlapping, decide_eq_true_eq, BitVec.le_def, high_r, high_w, llsc]
  omega

section

variable {a : LlscAccess} {blk after : CacheBlk} {answer : Packet}

theorem supplyBlock_lockList (config : CacheConfig) (deferred pending : Bool) (pkt : Packet)
    (blk : CacheBlk) :
    (Cache.supplyBlock config deferred pending pkt blk).2.1.lockList = blk.lockList := by
  simp only [Cache.supplyBlock]
  split_ifs <;> rfl

theorem satisfied_read (blk : CacheBlk) {deferred pending : Bool} {pkt : Packet}
    (returned : (if pkt.size = config.blkSize then
        .ok (Cache.supplyBlock config deferred pending pkt blk)
      else .ok (pkt, blk, false) : Except CacheFault (Packet × CacheBlk × Bool)) >>=
        (fun x => pure (x.1, x.2.1)) = .ok (answer, after)) :
    after.lockList = blk.lockList := by
  have kept := supplyBlock_lockList config deferred pending pkt blk
  split_ifs at returned
  all_goals
    cases returned
    first | exact kept | rfl

theorem access_load (op : a.op = .load)
    (returned : (llsc config base).access a blk = .ok (answer, after)) :
    after.lockList = blk.lockList := by
  obtain ⟨op', req, data, deferred, pending⟩ := a
  subst op
  exact satisfied_read blk returned

theorem access_loadLocked (op : a.op = .loadLocked)
    (returned : (llsc config base).access a blk = .ok (answer, after)) :
    after.lockList = Lock.ofRequest a.req :: blk.lockList := by
  obtain ⟨op', req, data, deferred, pending⟩ := a
  subst op
  exact satisfied_read (blk.trackLoadLocked req) returned

theorem access_store (op : a.op = .store) :
    (llsc config base).access a blk =
      .ok (a.packet, { blk.clearLoadLocks a.req with
        data := a.packet.writeDataToBlock config.blkSize blk.data
        status := { blk.status with dirty := true } }) := by
  obtain ⟨op', req, data, deferred, pending⟩ := a
  subst op
  rfl

theorem access_storeCond (op : a.op = .storeCond) :
    (llsc config base).access a blk =
      .ok ({ a.packet with req := a.req.decided (blk.granted a.req) },
        if blk.granted a.req then
          { blk.clearLoadLocks a.req with
            data := a.packet.writeDataToBlock config.blkSize blk.data
            status := { blk.status with dirty := true } }
        else blk.clearLoadLocks a.req) := by
  obtain ⟨op', req, data, deferred, pending⟩ := a
  subst op
  have unfolded : (llsc config base).access ⟨.storeCond, req, data, deferred, pending⟩ blk =
      (if blk.granted req then
        .ok ({ Packet.ofRequest req .storeCondReq data with req := req.decided (blk.granted req) },
          { blk.clearLoadLocks req with
            data := (Packet.ofRequest req .storeCondReq data).writeDataToBlock config.blkSize
              blk.data
            status := { blk.status with dirty := true } }, false)
      else .ok ({ Packet.ofRequest req .storeCondReq data with
        req := req.decided (blk.granted req) }, blk.clearLoadLocks req, false)) >>= fun x =>
          pure (x.1, x.2.1) := rfl
  rw [unfolded]
  cases blk.granted req <;> rfl

theorem access_swap (op : a.op = .swap)
    (returned : (llsc config base).access a blk = .ok (answer, after)) :
    (∀ i < a.req.size, answer.data i = blk.bytes config a.req.paddr i) ∧
      after.lockList = blk.lockList := by
  obtain ⟨op', req, data, deferred, pending⟩ := a
  subst op
  have unfolded : (llsc config base).access ⟨.swap, req, data, deferred, pending⟩ blk =
      Cache.cmpAndSwap config (Packet.ofRequest req .swapReq data) blk >>=
        (fun x => pure (x.1, x.2, false)) >>= fun x => pure (x.1, x.2.1) := rfl
  rw [unfolded] at returned
  simp only [Cache.cmpAndSwap] at returned
  split_ifs at returned
  · cases returned
  · cases returned
  all_goals
    obtain ⟨rfl, rfl⟩ := returned
    refine ⟨fun i below => ?_, rfl⟩
    have inside : i < req.size := below
    show (if i < req.size then blk.bytes config req.paddr i else data i) = _
    rw [if_pos inside]

end

theorem wrote_eq_overwrites {a : LlscAccess} {blk after : CacheBlk} {answer : Packet}
    (returned : (llsc config base).access a blk = .ok (answer, after)) :
    a.wrote answer = a.overwrites (blk.granted a.req) (blk.bytes config a.req.paddr) := by
  cases op : a.op with
  | load => simp [LlscAccess.wrote, LlscAccess.overwrites, op]
  | loadLocked => simp [LlscAccess.wrote, LlscAccess.overwrites, op]
  | store => simp [LlscAccess.wrote, LlscAccess.overwrites, op]
  | storeCond =>
    rw [access_storeCond op, Except.ok.injEq, Prod.mk.injEq] at returned
    simp only [LlscAccess.wrote, LlscAccess.overwrites, op, ← returned.1]
    cases blk.granted a.req <;> rfl
  | swap => exact LlscAccess.wrote_swap op (access_swap op returned).1

/--
The locks of a block agree with the reservations.

A context that loads twice leaves a second lock, so a lock for exactly the last bytes is tracked
beside the locks that cover them.
-/
structure Tracked (config : CacheConfig) (base : Addr) (s : Watched CacheBlk) : Prop where
  exact : s.monitor.Agrees s.store.Tracks
  covering : s.monitor.Agrees s.store.Grants
  inside : ∀ c r, s.monitor.last c = some r → (llsc config base).holds r = true

/-- No swap that writes and no store-conditional that fails touches reserved bytes. -/
def KeepsTrack (config : CacheConfig) (base : Addr) (s : Watched CacheBlk) (a : LlscAccess) :
    Prop :=
  a.op = .swap ∧ a.overwrites false (s.store.bytes config a.req.paddr) = true ∨
      a.op = .storeCond ∧ s.store.granted a.req = false →
    ∀ c r, s.monitor.Holds c r → ¬(llsc config base).reach r a.req

section

variable {s : Watched CacheBlk} {blk : CacheBlk}

theorem Tracked.keep (monitor : Monitor Int Request) (tracked : Tracked config base s)
    (locks : blk.lockList = s.store.lockList) (last : monitor.last = s.monitor.last)
    (intact : ∀ c r, s.monitor.last c = some r → (monitor.intact c ↔ s.monitor.intact c)) :
    Tracked config base ⟨blk, monitor⟩ := by
  have tracks : blk.Tracks = s.store.Tracks := by
    funext c r
    simp only [Tracks, locks]
  have grants : blk.Grants = s.store.Grants := by
    funext c r
    simp only [Grants, locks]
  constructor
  · intro c r reserved
    rw [last] at reserved
    rw [intact c r reserved, tracks, tracked.exact c r reserved]
  · intro c r reserved
    rw [last] at reserved
    rw [intact c r reserved, grants, tracked.covering c r reserved]
  · intro c r reserved
    rw [last] at reserved
    exact tracked.inside c r reserved

theorem Tracked.write {w : Request} (tracked : Tracked config base s)
    (written : (llsc config base).holds w = true)
    (locks : blk.lockList = s.store.lockList.filter fun lock => !lock.overlapping w) :
    Tracked config base ⟨blk, s.monitor.write fun r => (llsc config base).reach r w⟩ := by
  have tracks : ∀ c r, s.monitor.last c = some r →
      (blk.Tracks c r ↔ s.store.Tracks c r ∧ ¬(llsc config base).reach r w) := by
    intro c r reserved
    rw [← overlapping_iff (tracked.inside c r reserved) written (c := c)]
    simp [Tracks, locks]
  constructor
  · exact tracked.exact.write tracks
  · apply tracked.covering.write
    intro c r reserved
    constructor
    · rintro ⟨lock, member, context, low, high⟩
      simp only [locks, List.mem_filter, Bool.not_eq_true'] at member
      refine ⟨⟨lock, member.1, context, low, high⟩, fun hit => ?_⟩
      -- What overlaps the reserved bytes overlaps every lock that covers them.
      rw [← overlapping_iff (tracked.inside c r reserved) written (c := c)] at hit
      simp only [Lock.overlapping, decide_eq_true_eq, decide_eq_false_iff_not] at hit member
      exact member.2 ⟨BitVec.le_trans hit.1 high, BitVec.le_trans low hit.2⟩
    · rintro ⟨before, unhit⟩
      have intact := (tracked.covering c r reserved).mpr before
      exact ((tracks c r reserved).mpr ⟨(tracked.exact c r reserved).mp intact, unhit⟩).grants
  · exact tracked.inside

theorem Tracked.reserve {r : Request} (tracked : Tracked config base s)
    (reserved : (llsc config base).holds r = true)
    (locks : blk.lockList = Lock.ofRequest r :: s.store.lockList) :
    Tracked config base ⟨blk, s.monitor.reserve r.contextId r⟩ := by
  have own : blk.Tracks r.contextId r := by
    simp [Tracks, locks, Lock.ofRequest]
  constructor
  · apply tracked.exact.reserve own
    intro c r' other _
    simp [Tracks, locks, Lock.ofRequest, other]
  · apply tracked.covering.reserve own.grants
    intro c r' other _
    simp [Grants, locks, Lock.ofRequest, Ne.symm other]
  · intro c r' last
    by_cases same : c = r.contextId
    · subst same
      simp only [Monitor.reserve, Function.update_self, Option.some.injEq] at last
      exact last ▸ reserved
    · simp only [Monitor.reserve, Function.update_of_ne same] at last
      exact tracked.inside c r' last

end

variable {s t : Watched CacheBlk} {a : LlscAccess}

theorem Tracked.failed (tracked : Tracked config base s) (kept : KeepsTrack config base s a)
    (inside : (llsc config base).holds a.req = true) (op : a.op = .storeCond)
    (refused : s.store.granted a.req = false) :
    Tracked config base ⟨s.store.clearLoadLocks a.req, s.monitor⟩ := by
  have cleared : Tracked config base ⟨s.store.clearLoadLocks a.req,
      s.monitor.write fun r => (llsc config base).reach r a.req⟩ := tracked.write inside rfl
  apply cleared.keep s.monitor rfl rfl
  intro c r reserved
  constructor
  · intro intact
    refine ⟨intact, fun r' reserved' => ?_⟩
    exact kept (.inr ⟨op, refused⟩) c r' ⟨reserved', intact⟩
  · exact fun intact => intact.1

/-- The locks keep up with the reservations over an access that keeps track. -/
theorem step_tracked (tracked : Tracked config base s) (kept : KeepsTrack config base s a)
    (taken : (llsc config base).step s a = some t) : Tracked config base t := by
  obtain ⟨inside, answer, returned, observed⟩ := LlscDevice.step_eq_some taken
  obtain ⟨blk, monitor⟩ := t
  simp only [LlscDevice.observe, wrote_eq_overwrites returned] at returned observed
  subst observed
  cases op : a.op with
  | load =>
    simp only [LlscAccess.overwrites, op, reduceCtorEq, if_false, Bool.false_eq_true]
    exact tracked.keep s.monitor (access_load op returned) rfl fun _ _ _ => Iff.rfl
  | loadLocked =>
    simp only [if_true]
    exact tracked.reserve inside (access_loadLocked op returned)
  | store =>
    rw [access_store op, Except.ok.injEq, Prod.mk.injEq] at returned
    simp only [LlscAccess.overwrites, op, reduceCtorEq, if_false, if_true]
    apply tracked.write inside
    rw [← returned.2]
    rfl
  | storeCond =>
    rw [access_storeCond op, Except.ok.injEq, Prod.mk.injEq] at returned
    simp only [LlscAccess.overwrites, op, reduceCtorEq, if_false]
    cases granted : s.store.granted a.req with
    | true =>
      rw [granted] at returned
      simp only [if_true]
      apply tracked.write inside
      rw [← returned.2]
      rfl
    | false =>
      rw [granted] at returned
      have after : s.store.clearLoadLocks a.req = blk := returned.2
      rw [← after]
      exact tracked.failed kept inside op granted
  | swap =>
    have locks := (access_swap op returned).2
    cases writes : a.overwrites (s.store.granted a.req) (s.store.bytes config a.req.paddr) with
    | false =>
      simp only [reduceCtorEq, if_false, Bool.false_eq_true]
      exact tracked.keep s.monitor locks rfl fun _ _ _ => Iff.rfl
    | true =>
      -- A swap that writes hits no reservation, so there is nothing to drop.
      simp only [reduceCtorEq, if_false, if_true]
      have unhit := kept (.inl ⟨op, by simpa [LlscAccess.overwrites, op] using writes⟩)
      apply tracked.keep (s.monitor.write _) locks rfl
      intro c r reserved
      constructor
      · exact fun intact => intact.1
      · intro intact
        exact ⟨intact, fun r' reserved' => unhit c r' ⟨reserved', intact⟩⟩

theorem Tracked.honours (tracked : Tracked config base s) : (llsc config base).Honours s := by
  intro sc r last
  have returned : (llsc config base).access sc s.store = _ := access_storeCond last.isStoreCond
  have same : s.store.Grants sc.req.contextId sc.req ↔ s.monitor.intact sc.req.contextId := by
    rw [tracked.covering _ r last.isLast]
    simp only [Grants, Lock.reqHigh, last.samePaddr, last.sameSize]
  rw [← granted_iff] at same
  constructor
  · intro intact
    rw [same.mpr intact] at returned
    exact ⟨_, _, returned, rfl, rfl⟩
  · intro broken
    have refused : s.store.granted sc.req = false := by
      rw [← Bool.not_eq_true]
      exact fun granted => broken (same.mp granted)
    rw [refused] at returned
    exact ⟨_, _, returned, rfl, rfl⟩

theorem Tracked.undisturbed (tracked : Tracked config base s)
    (kept : (llsc config base).holds a.req = true → KeepsTrack config base s a) :
    (llsc config base).Undisturbed s a := by
  intro answer after inside op returned failed
  rw [access_storeCond op, Except.ok.injEq, Prod.mk.injEq] at returned
  cases granted : s.store.granted a.req with
  | true =>
    rw [← returned.1, granted] at failed
    exact absurd failed Nat.one_ne_zero
  | false =>
    rw [granted] at returned
    have cleared : s.store.clearLoadLocks a.req = after := returned.2
    subst cleared
    refine ⟨rfl, fun sc r last _ => ?_⟩
    rw [LlscDevice.succeeds_iff tracked.honours last]
    exact LlscDevice.succeeds_iff (s := ⟨_, s.monitor⟩)
      (tracked.failed (kept inside) inside op granted).honours last

end CacheBlk

namespace LlscRun

open Machine

/-- Nobody has reserved anything in a place. -/
def unreserved {Store : Type} (store : Store) : Watched Store :=
  ⟨store, .start⟩

/-- A memory without locks. -/
def memory (data : Addr → UInt8) : Watched Memory :=
  unreserved ⟨data, []⟩

/--
Over every sequence of accesses that keeps track of the reservations, store-conditionals succeed
exactly for intact reservations, and one that fails disturbs nobody.

A memory keeps track when what writes into reserved bytes starts in them and is no swap.

A block keeps track when no swap that writes and no failing store-conditional touches them.
-/
theorem reservations_honoured (accesses : List LlscAccess) (a : LlscAccess) :
    (∀ (data : Addr → UInt8) (s : Watched Memory),
      Meets Memory.llsc.step Memory.KeepsTrack (memory data) (accesses ++ [a]) →
        run Memory.llsc.step (memory data) accesses = some s →
          Memory.llsc.Honours s ∧ Memory.llsc.Undisturbed s a) ∧
    ∀ (config : CacheConfig) (base : Addr) (blk : CacheBlk) (s : Watched CacheBlk),
      blk.lockList = [] →
        Meets (CacheBlk.llsc config base).step (CacheBlk.KeepsTrack config base) (unreserved blk)
          (accesses ++ [a]) →
        run (CacheBlk.llsc config base).step (unreserved blk) accesses = some s →
          (CacheBlk.llsc config base).Honours s ∧ (CacheBlk.llsc config base).Undisturbed s a := by
  constructor
  · intro data s meets ran
    have agrees : s.monitor.Agrees s.store.Grants :=
      run_preserves_of_meets (fun s a t agrees kept taken => Memory.step_agrees agrees kept taken)
        (Monitor.start_agrees _) ((meets_append ran).mp meets).1 ran
    exact ⟨Memory.honours_of_agrees agrees, Memory.undisturbed s a⟩
  · intro config base blk s unlocked meets ran
    obtain ⟨before, last⟩ := (meets_concat ran).mp meets
    have start : CacheBlk.Tracked config base (unreserved blk) :=
      ⟨Monitor.start_agrees _, Monitor.start_agrees _, fun c r reserved => nomatch reserved⟩
    have tracked : CacheBlk.Tracked config base s :=
      run_preserves_of_meets (fun s a t tracked kept taken =>
        CacheBlk.step_tracked tracked kept taken)
        start before ran
    refine ⟨tracked.honours, ?_⟩
    -- A store-conditional that is answered is an access that is taken.
    intro answer after inside op returned
    have taken : (CacheBlk.llsc config base).step s a =
        some ⟨after, (CacheBlk.llsc config base).observe a answer s.monitor⟩ := by
      simp [LlscDevice.step, inside, returned]
    exact tracked.undisturbed (fun _ => last (by simp [taken])) answer after inside op returned

/-- A request for bytes of a cacheable line. -/
def request (context : Int) (paddr : Addr) (size : Nat) : Request :=
  { paddr := paddr, size := size, contextId := context, isSecure := false, isUncacheable := false,
    isInstFetch := false, isCondSwap := false, isClearLL := false, extraData := 0 }

/-- An access that stores sevens. -/
def sevens (op : LlscOp) (context : Int) (paddr : Addr) (size : Nat) : LlscAccess :=
  { op := op, req := request context paddr size, data := fun _ => 7, deferred_response := false,
    pending_downgrade := false }

/-- A block of zeros without locks. -/
def zeros : CacheBlk :=
  { tag := 0, status := { BlkStatus.zero with valid := true, readable := true, writable := true }
    data := fun _ => 0, lockList := [] }

/--
The memory lets a store-conditional succeed after a swap of its bytes by another context.

In a block, a store-conditional of a context that never loaded drops the lock of another one.
-/
theorem swap_and_failed_store_unnoticed :
    (¬∀ (data : Addr → UInt8) (accesses : List LlscAccess) (a : LlscAccess) (s : Watched Memory),
      run Memory.llsc.step (memory data) accesses = some s →
        Memory.llsc.Honours s ∧ Memory.llsc.Undisturbed s a) ∧
    ¬∀ (config : CacheConfig) (base : Addr) (blk : CacheBlk) (accesses : List LlscAccess)
      (a : LlscAccess) (s : Watched CacheBlk), blk.lockList = [] →
        run (CacheBlk.llsc config base).step (unreserved blk) accesses = some s →
          (CacheBlk.llsc config base).Honours s ∧ (CacheBlk.llsc config base).Undisturbed s a := by
  constructor
  · intro claim
    obtain ⟨honours, -⟩ := claim (fun _ => 0) [sevens .loadLocked 1 16 4, sevens .swap 2 16 4]
      (sevens .load 1 16 4) _ rfl
    have outcome := honours (sevens .storeCond 1 16 4) (request 1 16 4) ⟨rfl, rfl, rfl, rfl, rfl⟩
    obtain ⟨answer, after, returned, failed, -⟩ := outcome.2 fun intact =>
      intact.2 (request 1 16 4) rfl ⟨by decide, by decide⟩
    cases returned
    exact absurd failed (by decide)
  · intro claim
    obtain ⟨honours, undisturbed⟩ := claim (.oneSet 0 true) 0 zeros [sevens .loadLocked 1 0 4]
      (sevens .storeCond 2 0 4) _ rfl rfl
    obtain ⟨-, same⟩ := undisturbed _ _ (by decide) rfl rfl rfl
    have outcome := honours (sevens .storeCond 1 0 4) (request 1 0 4) ⟨rfl, rfl, rfl, rfl, rfl⟩
    obtain ⟨answer, after, returned, success, -⟩ := (same (sevens .storeCond 1 0 4) (request 1 0 4)
      ⟨rfl, rfl, rfl, rfl, rfl⟩ (by decide)).mpr (outcome.1 trivial)
    cases returned
    exact absurd success (by decide)

/-- A store beside reserved bytes leaves the store-conditional to them its success. -/
theorem store_beside_reservation :
    (∃ s, run Memory.llsc.step (memory fun _ => 0)
        [sevens .loadLocked 1 16 4, sevens .store 2 32 4] = some s ∧
      Memory.llsc.Succeeds s.store (sevens .storeCond 1 16 4)) ∧
    ∃ s, run (CacheBlk.llsc (.oneSet 0 true) 0).step (unreserved zeros)
        [sevens .loadLocked 1 0 4, sevens .store 2 8 4] = some s ∧
      (CacheBlk.llsc (.oneSet 0 true) 0).Succeeds s.store (sevens .storeCond 1 0 4) := by
  constructor
  · refine ⟨_, rfl, ?_⟩
    have meets : Meets Memory.llsc.step Memory.KeepsTrack (memory fun _ => 0)
        ([sevens .loadLocked 1 16 4, sevens .store 2 32 4] ++ [sevens .load 2 0 4]) := by
      intro t taken
      cases taken
      refine ⟨fun writes => absurd writes (by decide), fun t taken => ?_⟩
      cases taken
      refine ⟨fun _ c r held hit => ?_, fun t taken => ⟨fun writes => absurd writes (by decide),
        trivial⟩⟩
      -- The store starts where the reserved bytes end.
      by_cases own : c = 1
      · subst own
        cases held.1
        exact absurd hit.2 (by decide)
      · have nothing : (memory fun _ => 0).monitor.last c = some r := by
          simpa [LlscDevice.observe, Monitor.reserve, sevens, request, own] using held.1
        cases nothing
    obtain ⟨honours, -⟩ := (reservations_honoured _ _).1 _ _ meets rfl
    have outcome := honours (sevens .storeCond 1 16 4) (request 1 16 4) ⟨rfl, rfl, rfl, rfl, rfl⟩
    apply outcome.1
    refine ⟨trivial, fun r last hit => ?_⟩
    cases last
    exact absurd hit.2 (by decide)
  · refine ⟨_, rfl, ?_⟩
    have meets : Meets (CacheBlk.llsc (.oneSet 0 true) 0).step
        (CacheBlk.KeepsTrack (.oneSet 0 true) 0) (unreserved zeros)
        ([sevens .loadLocked 1 0 4, sevens .store 2 8 4] ++ [sevens .load 2 0 4]) := by
      apply meets_of_forall
      -- None of them is a swap or a store-conditional.
      intro a member s broken
      simp only [List.cons_append, List.nil_append, List.mem_cons, List.not_mem_nil, or_false]
        at member
      obtain rfl | rfl | rfl := member <;> simp [sevens] at broken
    obtain ⟨honours, -⟩ := (reservations_honoured _ _).2 _ _ zeros _ rfl meets rfl
    have outcome := honours (sevens .storeCond 1 0 4) (request 1 0 4) ⟨rfl, rfl, rfl, rfl, rfl⟩
    apply outcome.1
    refine ⟨trivial, fun r last hit => ?_⟩
    cases last
    exact absurd hit.2 (by decide)

end LlscRun

end GemDroid
