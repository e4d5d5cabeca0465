import GemDroid.Lib.Align
import GemDroid.Lib.Reservation
import GemDroid.Lib.Run
import GemDroid.Mem.Memory

/-! Load-locked and store-conditional: the reservations that a memory and a block keep. -/

namespace GemDroid

open Reservation

/-- What a context asks of a memory or of a block. -/
inductive LlscOp
  | load
  | loadLocked
  | store
  | storeCond
  | swap
  deriving DecidableEq, Repr

namespace Request

/-- The request of a store-conditional once its outcome is known. -/
def decided (granted : Bool) (req : Request) : Request :=
  { req with extraData := if granted then 1 else 0 }

end Request

namespace LlscOp

/-- The command of an access. -/
def cmd : LlscOp → MemCmd
  | load => .readReq
  | loadLocked => .loadLockedReq
  | store => .writeReq
  | storeCond => .storeCondReq
  | swap => .swapReq

end LlscOp

/-- An access of a context, with the data it brings. -/
structure LlscAccess where
  op : LlscOp
  req : Request
  data : Nat → UInt8
  /-- The access waited for the block; a memory does not ask. -/
  deferred_response : Bool
  /-- The block is about to be shared; a memory does not ask. -/
  pending_downgrade : Bool

namespace LlscAccess

/-- The packet of an access. -/
def packet (a : LlscAccess) : Packet :=
  .ofRequest a.req a.op.cmd a.data

/--
Whether an access wrote its bytes, judged by its answer.

A conditional swap is answered with what was there, so it wrote if it compares equal to that.
-/
def wrote (a : LlscAccess) (answer : Packet) : Bool :=
  match a.op with
  | .load | .loadLocked => false
  | .store => true
  | .storeCond => answer.req.extraData == 1
  | .swap => !a.req.isCondSwap ||
    (List.range a.req.size).all fun i => answer.data i == a.packet.conditionByte i

/-- Whether an access is going to write, judged by the locks and the bytes it finds. -/
def overwrites (a : LlscAccess) (granted : Bool) (old : Nat → UInt8) : Bool :=
  match a.op with
  | .load | .loadLocked => false
  | .store => true
  | .storeCond => granted
  | .swap => !a.req.isCondSwap ||
    (List.range a.req.size).all fun i => old i == a.packet.conditionByte i

theorem wrote_swap {a : LlscAccess} {answer : Packet} {old : Nat → UInt8} {granted : Bool}
    (op : a.op = .swap) (found : ∀ i < a.req.size, answer.data i = old i) :
    a.wrote answer = a.overwrites granted old := by
  simp only [wrote, overwrites, op]
  congr 1
  rw [Bool.eq_iff_iff, List.all_eq_true, List.all_eq_true]
  apply forall_congr'
  intro i
  apply imp_congr_right
  intro below
  rw [found i (List.mem_range.mp below)]

end LlscAccess

/-- A place that answers accesses, and what a load-locked reserves there. -/
structure LlscDevice (Store Data : Type) where
  data : Store → Data
  /-- The data with the bytes of an access written to it. -/
  stored : LlscAccess → Data → Data
  /-- Whether a request lies within the place. -/
  holds : Request → Bool
  access : LlscAccess → Store → Except CacheFault (Packet × Store)
  /-- Whether a write of the second request reaches what the first one reserves. -/
  reach : Request → Request → Prop

/-- The content of a place, and the reservations that the accesses so far have left. -/
structure Watched (Store : Type) where
  store : Store
  monitor : Monitor Int Request

namespace LlscDevice

variable {Store Data : Type} (d : LlscDevice Store Data)

/-- What an access does to the reservations, judged by its answer. -/
def observe (a : LlscAccess) (answer : Packet) (m : Monitor Int Request) : Monitor Int Request :=
  if a.op = .loadLocked then m.reserve a.req.contextId a.req
  else if a.wrote answer then m.write fun r => d.reach r a.req
  else m

/-- Take one access; one that lies outside or fails an assertion is refused. -/
def step (s : Watched Store) (a : LlscAccess) : Option (Watched Store) :=
  if d.holds a.req then
    match d.access a s.store with
    | .ok (answer, store) => some ⟨store, d.observe a answer s.monitor⟩
    | .error _ => none
  else none

/-- A store-conditional to the bytes of the last load-locked of its context. -/
structure ToLast (m : Monitor Int Request) (sc : LlscAccess) (r : Request) : Prop where
  isStoreCond : sc.op = .storeCond
  notFetch : sc.req.isInstFetch = false
  isLast : m.last sc.req.contextId = some r
  samePaddr : sc.req.paddr = r.paddr
  sameSize : sc.req.size = r.size

/-- The store-conditional reports success and its bytes are written. -/
def Succeeds (store : Store) (sc : LlscAccess) : Prop :=
  ∃ answer after, d.access sc store = .ok (answer, after) ∧ answer.req.extraData = 1 ∧
    d.data after = d.stored sc (d.data store)

/-- The store-conditional reports failure and nothing is written. -/
def Fails (store : Store) (sc : LlscAccess) : Prop :=
  ∃ answer after, d.access sc store = .ok (answer, after) ∧ answer.req.extraData = 0 ∧
    d.data after = d.data store

/-- Store-conditionals succeed for the reservations that are intact, and fail for the others. -/
def Honours (s : Watched Store) : Prop :=
  ∀ sc r, ToLast s.monitor sc r →
    (s.monitor.intact sc.req.contextId → d.Succeeds s.store sc) ∧
      (¬s.monitor.intact sc.req.contextId → d.Fails s.store sc)

/-- A store-conditional that fails changes no data and no reservation of another context. -/
def Undisturbed (s : Watched Store) (a : LlscAccess) : Prop :=
  ∀ answer after, d.holds a.req = true → a.op = .storeCond →
    d.access a s.store = .ok (answer, after) → answer.req.extraData = 0 →
      d.data after = d.data s.store ∧
        ∀ sc r, ToLast s.monitor sc r → sc.req.contextId ≠ a.req.contextId →
          (d.Succeeds after sc ↔ d.Succeeds s.store sc)

theorem step_eq_some {d : LlscDevice Store Data} {s t : Watched Store} {a : LlscAccess}
    (taken : d.step s a = some t) :
    d.holds a.req = true ∧ ∃ answer, d.access a s.store = .ok (answer, t.store) ∧
      t.monitor = d.observe a answer s.monitor := by
  simp only [step] at taken
  split_ifs at taken with inside
  cases returned : d.access a s.store with
  | error e => simp [returned] at taken
  | ok result =>
    obtain ⟨answer, after⟩ := result
    simp only [returned, Option.some.injEq] at taken
    subst taken
    exact ⟨inside, answer, rfl, rfl⟩

theorem succeeds_iff {d : LlscDevice Store Data} {s : Watched Store} {sc : LlscAccess} {r : Request}
    (honours : d.Honours s) (last : ToLast s.monitor sc r) :
    d.Succeeds s.store sc ↔ s.monitor.intact sc.req.contextId := by
  obtain ⟨granted, refused⟩ := honours sc r last
  constructor
  · rintro ⟨answer, after, returned, success, -⟩
    by_contra broken
    obtain ⟨answer', after', returned', failure, -⟩ := refused broken
    rw [returned, Except.ok.injEq, Prod.mk.injEq] at returned'
    rw [returned'.1, failure] at success
    exact absurd success (by decide)
  · exact granted

end LlscDevice

namespace Memory

/-- The memory as a place for accesses; a load-locked reserves the sixteen bytes it starts in. -/
def llsc : LlscDevice Memory (Addr → UInt8) where
  data := Memory.data
  stored a data := (Memory.write a.req.paddr a.req.size a.data ⟨data, []⟩).data
  holds req := decide (0 < req.size ∧ req.paddr.toNat + req.size ≤ 2 ^ 64)
  access a mem := mem.access a.packet
  reach r w := (LockedAddr.mask r.paddr).toNat < w.paddr.toNat + w.size ∧
    w.paddr.toNat < (LockedAddr.mask r.paddr).toNat + 16

/-- A context has a lock on the sixteen bytes that a request starts in. -/
def Grants (mem : Memory) (c : Int) (r : Request) : Prop :=
  ∃ lock ∈ mem.lockedAddrList, lock.addr = LockedAddr.mask r.paddr ∧ lock.contextId = c

/-- Whether a store-conditional finds its lock (in `writeOK`). -/
def granted (mem : Memory) (req : Request) : Bool :=
  mem.lockedAddrList.any fun lock =>
    lock.addr == LockedAddr.mask req.paddr && lock.contextId == req.contextId

theorem granted_iff (mem : Memory) (req : Request) :
    mem.granted req = true ↔ mem.Grants req.contextId req := by
  simp [granted, Grants]

/-- The memory without the locks on the sixteen bytes that a request starts in. -/
def unlocked (mem : Memory) (req : Request) : Memory :=
  { mem with lockedAddrList :=
      mem.lockedAddrList.filter fun lock => lock.addr != LockedAddr.mask req.paddr }

section

variable {a : LlscAccess} (mem : Memory)

theorem access_load (op : a.op = .load) :
    mem.access a.packet = .ok ((a.packet.setData (mem.bytes a.req.paddr)).makeResponse, mem) := by
  obtain ⟨op', req, data, deferred, pending⟩ := a
  subst op
  rfl

theorem access_loadLocked (op : a.op = .loadLocked) :
    mem.access a.packet =
      .ok ((a.packet.setData (mem.bytes a.req.paddr)).makeResponse, mem.trackLoadLocked a.req) := by
  obtain ⟨op', req, data, deferred, pending⟩ := a
  subst op
  -- Tracking the lock leaves the bytes as they are.
  have same : (mem.trackLoadLocked req).bytes = mem.bytes := by
    funext addr i
    simp only [bytes, trackLoadLocked]
    split <;> rfl
  show Except.ok _ = _
  simp only [LlscAccess.packet, Packet.ofRequest, LlscOp.cmd]
  rw [← same]
  rfl

theorem access_store (op : a.op = .store) :
    mem.access a.packet =
      if a.req.isInstFetch then .error .fetchWrites
      else .ok (a.packet.makeResponse,
        (mem.unlocked a.req).write a.req.paddr a.req.size a.data) := by
  obtain ⟨op', req, data, deferred, pending⟩ := a
  subst op
  have read : MemCmd.writeReq.isRead = false := rfl
  have write : MemCmd.writeReq.isWrite = true := rfl
  have plain : MemCmd.writeReq.isLLSC = false := rfl
  have responds : MemCmd.writeReq.needsResponse = true := rfl
  cases fetch : req.isInstFetch <;>
    simp [access, writeOK, LlscAccess.packet, Packet.ofRequest, LlscOp.cmd, read, write, plain,
      responds, fetch, unlocked, bind, Except.bind, pure, Except.pure]

theorem access_storeCond (op : a.op = .storeCond) :
    mem.access a.packet =
      if mem.granted a.req then
        if a.req.isInstFetch then .error .fetchWrites
        else .ok ({ a.packet with req := a.req.decided true }.makeResponse,
          (mem.unlocked a.req).write a.req.paddr a.req.size a.data)
      else .ok ({ a.packet with req := a.req.decided false }.makeResponse, mem) := by
  obtain ⟨op', req, data, deferred, pending⟩ := a
  subst op
  have read : MemCmd.storeCondReq.isRead = false := rfl
  have write : MemCmd.storeCondReq.isWrite = true := rfl
  have llsc : MemCmd.storeCondReq.isLLSC = true := rfl
  have responds : MemCmd.storeCondReq.needsResponse = true := rfl
  have other : MemCmd.storeCondReq ≠ .swapReq := by decide
  have locked : (mem.lockedAddrList.any fun lock => lock.addr == LockedAddr.mask req.paddr &&
      lock.contextId == req.contextId) = mem.granted req := rfl
  simp only [access, writeOK, LlscAccess.packet, Packet.ofRequest, LlscOp.cmd, read, write, llsc,
    other, locked]
  cases mem.granted req with
  | false => rfl
  | true =>
    cases fetch : req.isInstFetch with
    | true => rfl
    | false => simp [fetch, Request.decided, unlocked, responds]

theorem access_swap {answer : Packet} {after : Memory} (op : a.op = .swap)
    (returned : mem.access a.packet = .ok (answer, after)) :
    (∀ i < a.req.size, answer.data i = mem.bytes a.req.paddr i) ∧
      after.lockedAddrList = mem.lockedAddrList := by
  obtain ⟨op', req, data, deferred, pending⟩ := a
  subst op
  have unfolded : mem.access (LlscAccess.mk .swap req data deferred pending).packet =
      mem.swap (Packet.ofRequest req .swapReq data) >>= fun x =>
        pure (if x.1.cmd.needsResponse then x.1.makeResponse else x.1, x.2) := rfl
  rw [unfolded] at returned
  simp only [swap] at returned
  split_ifs at returned
  · cases returned
  · cases returned
  · cases returned
  all_goals
    obtain ⟨rfl, rfl⟩ := returned
    refine ⟨fun i below => ?_, rfl⟩
    have inside : i < req.size := below
    show (if i < req.size then mem.bytes req.paddr i else data i) = _
    rw [if_pos inside]

end

/-- What an access writes to reserved bytes, it writes from the start of the sixteen on. -/
def KeepsTrack (s : Watched Memory) (a : LlscAccess) : Prop :=
  a.overwrites (s.store.granted a.req) (s.store.bytes a.req.paddr) = true →
    ∀ c r, s.monitor.Holds c r → llsc.reach r a.req →
      a.op ≠ .swap ∧ LockedAddr.mask a.req.paddr = LockedAddr.mask r.paddr

theorem mask_toNat (addr : Addr) : (LockedAddr.mask addr).toNat = addr.toNat / 16 * 16 :=
  Align.align_toNat (n := 16) (m := 4) rfl (by decide) addr

theorem reach_of_mask_eq {r w : Request} (inside : llsc.holds w = true)
    (same : LockedAddr.mask w.paddr = LockedAddr.mask r.paddr) : llsc.reach r w := by
  simp only [llsc, decide_eq_true_eq] at inside
  have start := mask_toNat w.paddr
  simp only [llsc, ← same]
  omega

theorem unlocked_grants {s : Watched Memory} {a : LlscAccess}
    (agrees : s.monitor.Agrees s.store.Grants) (inside : llsc.holds a.req = true)
    (starts : ∀ c r, s.monitor.Holds c r → llsc.reach r a.req →
      LockedAddr.mask a.req.paddr = LockedAddr.mask r.paddr) :
    (s.monitor.write fun r => llsc.reach r a.req).Agrees
      ((s.store.unlocked a.req).write a.req.paddr a.req.size a.data).Grants := by
  apply agrees.write
  intro c r reserved
  constructor
  · rintro ⟨lock, member, address, context⟩
    simp only [Memory.write, unlocked, List.mem_filter, bne_iff_ne, ne_eq] at member
    have before : s.store.Grants c r := ⟨lock, member.1, address, context⟩
    refine ⟨before, fun hit => member.2 ?_⟩
    rw [address, starts c r ⟨reserved, (agrees c r reserved).mpr before⟩ hit]
  · rintro ⟨⟨lock, member, address, context⟩, unhit⟩
    refine ⟨lock, ?_, address, context⟩
    simp only [Memory.write, unlocked, List.mem_filter, bne_iff_ne, ne_eq]
    refine ⟨member, fun same => unhit (reach_of_mask_eq inside ?_)⟩
    rw [← same, address]

theorem mem_modify_addr {locks : List LockedAddr} {i : Nat} {addr : Addr} {lock : LockedAddr} :
    lock ∈ locks.modify i (fun lock => { lock with addr := addr }) ↔
      ∃ j old, locks[j]? = some old ∧
        lock = if i = j then { old with addr := addr } else old := by
  rw [List.mem_iff_getElem?]
  constructor
  · rintro ⟨j, found⟩
    rw [List.getElem?_modify] at found
    cases known : locks[j]? with
    | none => simp [known] at found
    | some old =>
      refine ⟨j, old, known, ?_⟩
      simpa [known, eq_comm, apply_ite] using found
  · rintro ⟨j, old, known, rfl⟩
    refine ⟨j, ?_⟩
    rw [List.getElem?_modify, known]
    rfl

/-- A load-locked adds its own lock and moves none of another context. -/
theorem trackLoadLocked_grants {s : Watched Memory} {req : Request}
    (agrees : s.monitor.Agrees s.store.Grants) :
    (s.monitor.reserve req.contextId req).Agrees (s.store.trackLoadLocked req).Grants := by
  cases known : s.store.lockedAddrList.findIdx? fun lock => lock.contextId == req.contextId with
  | none =>
    apply agrees.reserve
    · refine ⟨⟨LockedAddr.mask req.paddr, req.contextId⟩, ?_, rfl, rfl⟩
      simp [trackLoadLocked, known]
    · intro c r other reserved
      simp [Grants, trackLoadLocked, known, Ne.symm other]
  | some i =>
    obtain ⟨short, own, -⟩ := List.findIdx?_eq_some_iff_getElem.mp known
    have there : s.store.lockedAddrList[i]? = some s.store.lockedAddrList[i] :=
      List.getElem?_eq_getElem short
    have context : s.store.lockedAddrList[i].contextId = req.contextId := by simpa using own
    apply agrees.reserve
    · refine ⟨{ s.store.lockedAddrList[i] with addr := LockedAddr.mask req.paddr }, ?_, rfl,
        context⟩
      simp only [trackLoadLocked, known, mem_modify_addr]
      exact ⟨i, _, there, by simp⟩
    · intro c r other reserved
      simp only [Grants, trackLoadLocked, known, mem_modify_addr]
      constructor
      · rintro ⟨lock, ⟨j, old, found, rfl⟩, address, rfl⟩
        by_cases same : i = j
        · subst same
          rw [there] at found
          cases found
          simp [context] at other
        · simp only [if_neg same] at address other ⊢
          exact ⟨old, List.mem_of_getElem? found, address, rfl⟩
      · rintro ⟨lock, member, address, rfl⟩
        obtain ⟨j, found⟩ := List.mem_iff_getElem?.mp member
        refine ⟨lock, ⟨j, lock, found, ?_⟩, address, rfl⟩
        by_cases same : i = j
        · subst same
          rw [there] at found
          cases found
          exact absurd context other
        · rw [if_neg same]

theorem wrote_eq_overwrites {a : LlscAccess} {mem after : Memory} {answer : Packet}
    (returned : mem.access a.packet = .ok (answer, after)) :
    a.wrote answer = a.overwrites (mem.granted a.req) (mem.bytes a.req.paddr) := by
  cases op : a.op with
  | load => simp [LlscAccess.wrote, LlscAccess.overwrites, op]
  | loadLocked => simp [LlscAccess.wrote, LlscAccess.overwrites, op]
  | store => simp [LlscAccess.wrote, LlscAccess.overwrites, op]
  | storeCond =>
    rw [access_storeCond mem op] at returned
    simp only [LlscAccess.wrote, LlscAccess.overwrites, op]
    split_ifs at returned with locked fetch
    · cases returned
      rw [locked]
      rfl
    · cases returned
      simp [locked, Packet.makeResponse, Request.decided]
  | swap => exact LlscAccess.wrote_swap op (access_swap mem op returned).1

/-- The locks keep up with the reservations over an access that keeps track. -/
theorem step_agrees {s t : Watched Memory} {a : LlscAccess}
    (agrees : s.monitor.Agrees s.store.Grants) (tracked : KeepsTrack s a)
    (taken : llsc.step s a = some t) : t.monitor.Agrees t.store.Grants := by
  obtain ⟨inside, answer, answered, observed⟩ := LlscDevice.step_eq_some taken
  have returned : s.store.access a.packet = .ok (answer, t.store) := answered
  have foretold := wrote_eq_overwrites returned
  rw [observed, LlscDevice.observe, foretold]
  cases op : a.op with
  | load =>
    rw [access_load s.store op, Except.ok.injEq, Prod.mk.injEq] at returned
    rw [← returned.2]
    simpa [LlscAccess.overwrites, op] using agrees
  | loadLocked =>
    rw [access_loadLocked s.store op, Except.ok.injEq, Prod.mk.injEq] at returned
    rw [← returned.2]
    simpa [op] using trackLoadLocked_grants agrees
  | store =>
    have starts := tracked (by simp [LlscAccess.overwrites, op])
    rw [access_store s.store op] at returned
    split_ifs at returned
    rw [Except.ok.injEq, Prod.mk.injEq] at returned
    rw [← returned.2]
    simpa [LlscAccess.overwrites, op] using
      unlocked_grants agrees inside fun c r held hit => (starts c r held hit).2
  | storeCond =>
    rw [access_storeCond s.store op] at returned
    split_ifs at returned with locked fetch
    · have starts := tracked (by simp [LlscAccess.overwrites, op, locked])
      rw [Except.ok.injEq, Prod.mk.injEq] at returned
      rw [← returned.2]
      simpa [LlscAccess.overwrites, op, locked] using
        unlocked_grants agrees inside fun c r held hit => (starts c r held hit).2
    · rw [Except.ok.injEq, Prod.mk.injEq] at returned
      rw [← returned.2]
      simpa [LlscAccess.overwrites, op, locked] using agrees
  | swap =>
    obtain ⟨-, locks⟩ := access_swap s.store op returned
    have same : t.store.Grants = s.store.Grants := by
      funext c r
      simp only [Grants, locks]
    rw [same]
    cases writes : a.overwrites (s.store.granted a.req) (s.store.bytes a.req.paddr) with
    | false => simpa using agrees
    | true =>
      -- A swap that writes hits no reservation, so there is nothing to drop.
      simp only [reduceCtorEq, if_false, if_true]
      apply agrees.write
      intro c r reserved
      constructor
      · intro before
        refine ⟨before, fun hit => ?_⟩
        exact (tracked writes c r ⟨reserved, (agrees c r reserved).mpr before⟩ hit).1 op
      · exact fun held => held.1

theorem honours_of_agrees {s : Watched Memory} (agrees : s.monitor.Agrees s.store.Grants) :
    llsc.Honours s := by
  intro sc r last
  have returned := access_storeCond s.store last.isStoreCond
  have same : s.store.Grants sc.req.contextId sc.req ↔ s.monitor.intact sc.req.contextId := by
    rw [agrees _ r last.isLast]
    simp only [Grants, last.samePaddr]
  rw [← granted_iff] at same
  constructor
  · intro intact
    rw [if_pos (same.mpr intact), last.notFetch] at returned
    exact ⟨_, _, returned, rfl, rfl⟩
  · intro broken
    rw [if_neg fun granted => broken (same.mp granted)] at returned
    exact ⟨_, _, returned, rfl, rfl⟩

theorem undisturbed (s : Watched Memory) (a : LlscAccess) : llsc.Undisturbed s a := by
  intro answer after _ op answered failed
  have returned : s.store.access a.packet = .ok (answer, after) := answered
  rw [access_storeCond s.store op] at returned
  split_ifs at returned with locked fetch
  · cases returned
    simp [Packet.makeResponse, Request.decided] at failed
  · cases returned
    exact ⟨rfl, fun sc r _ _ => Iff.rfl⟩

end Memory

end GemDroid
