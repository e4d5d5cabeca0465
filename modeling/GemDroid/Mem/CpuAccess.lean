import GemDroid.Mem.AtomicCache

/-! What a request of a CPU reads and writes, byte by byte. -/

namespace GemDroid

open Align

/-- The bytes of a block in a map of all bytes. -/
def bytesAt (n : Nat) (b : Addr) (bytes : Addr → UInt8) : Block n b :=
  fun a => bytes a.1

namespace Packet

/-- A fresh cacheable request that stays within one block of a size. -/
structure FromCpu (n : Nat) (pkt : Packet) : Prop where
  kind : pkt.cmd = .readReq ∨ pkt.cmd = .loadLockedReq ∨ pkt.cmd = .writeReq ∨
    pkt.cmd = .storeCondReq ∨ pkt.cmd = .swapReq
  fresh : pkt = .ofRequest pkt.req pkt.cmd pkt.data
  cacheable : pkt.req.isUncacheable = false
  inside : pkt.getOffset n + pkt.size ≤ n
  /-- A swap is of a size that the caches can exchange and compare. -/
  swaps : pkt.cmd = .swapReq → pkt.size ≤ 8 ∧
    (pkt.req.isCondSwap = true → pkt.size = 4 ∨ pkt.size = 8)

/-- Whether a conditional swap finds what it expects. -/
def expects (pkt : Packet) (bytes : Nat → UInt8) : Bool :=
  !pkt.req.isCondSwap || (List.range pkt.size).all fun i => bytes i == pkt.conditionByte i

/-- Whether a request has written its bytes, as far as its answer and the bytes before it tell. -/
def updates (pkt answer : Packet) (bytes : Addr → UInt8) : Bool :=
  match pkt.cmd with
  | .writeReq => true
  | .storeCondReq => answer.req.extraData == 1
  | .swapReq => pkt.expects fun i => bytes (pkt.addr + BitVec.ofNat 64 i)
  | _ => false

/-- The bytes after a request. -/
def applied (pkt answer : Packet) (bytes : Addr → UInt8) : Addr → UInt8 :=
  if pkt.updates answer bytes then fun a =>
    let i := (a - pkt.addr).toNat
    if i < pkt.size then pkt.data i else bytes a
  else bytes

end Packet

namespace Cache

variable {config : CacheConfig} {pkt : Packet}

/-- Whether a request writes to a block. -/
def commits (config : CacheConfig) (pkt : Packet) (blk : CacheBlk) : Bool :=
  match pkt.cmd with
  | .writeReq => true
  | .storeCondReq => blk.lockList.any (Lock.matchesContext pkt.req)
  | .swapReq => pkt.expects fun i => blk.data (pkt.getOffset config.blkSize + i)
  | _ => false

/-- What a request of a CPU makes of its packet and of a block. -/
structure Served (config : CacheConfig) (pkt : Packet) (blk : CacheBlk) (answer : Packet)
    (after : CacheBlk) : Prop where
  writable : after.isWritable = blk.isWritable
  readable : after.isReadable = blk.isReadable
  dirty : after.isDirty = (blk.isDirty || commits config pkt blk)
  data : after.data = if commits config pkt blk then pkt.writeDataToBlock config.blkSize blk.data
    else blk.data
  reads : pkt.cmd.isRead = true →
    ∀ k < pkt.size, answer.data k = blk.data (pkt.getOffset config.blkSize + k)
  stores : pkt.cmd = .storeCondReq →
    answer.req.extraData = if commits config pkt blk then 1 else 0

theorem supplyBlock_top (top : config.isTopLevel = true)
    (shared : pkt.cmd.needsExclusive = false) (blk : CacheBlk) :
    ∃ flagged, supplyBlock config false false pkt blk =
      ({ pkt with shared := flagged }, blk, false) := by
  have above : (!config.isTopLevel) = false := by simp [top]
  simp only [supplyBlock, shared, above, Bool.and_false, Bool.false_eq_true, if_false]
  split
  · split
    · exact ⟨true, rfl⟩
    · exact ⟨pkt.shared, rfl⟩
  · exact ⟨true, rfl⟩

/-- A load is served from the block as it is. -/
theorem satisfy_load (top : config.isTopLevel = true) (pkt : Packet)
    (load : pkt.cmd = .readReq ∨ pkt.cmd = .loadLockedReq) (blk : CacheBlk) :
    ∃ answer after, satisfy config false false pkt blk = .ok (answer, after, false) ∧
      Served config pkt blk answer after := by
  have facts : pkt.cmd ≠ .swapReq ∧ pkt.cmd.isWrite = false ∧ pkt.cmd.isRead = true ∧
      pkt.cmd.needsExclusive = false ∧ pkt.cmd ≠ .storeCondReq := by
    rcases load with load | load <;> rw [load] <;> decide
  obtain ⟨swap, write, read, shared, store⟩ := facts
  have idle : commits config pkt blk = false := by
    rcases load with load | load <;> simp [commits, load]
  let locked := if pkt.cmd.isLLSC then blk.trackLoadLocked pkt.req else blk
  have same : locked.status = blk.status ∧ locked.data = blk.data := by
    simp only [locked]
    split <;> exact ⟨rfl, rfl⟩
  let answer := pkt.setDataFromBlock locked.data config.blkSize
  have form : satisfy config false false pkt blk =
      if answer.size = config.blkSize then .ok (supplyBlock config false false answer locked)
      else .ok (answer, locked, false) := by
    simp only [satisfy, swap, if_false, write, Bool.false_eq_true, read, if_true]
    rfl
  have served : ∃ flagged, satisfy config false false pkt blk =
      .ok ({ answer with shared := flagged }, locked, false) := by
    rw [form]
    split
    · have fetches : answer.cmd.needsExclusive = false := shared
      obtain ⟨flagged, supplied⟩ := supplyBlock_top top fetches locked
      exact ⟨flagged, by rw [supplied]⟩
    · exact ⟨answer.shared, rfl⟩
  obtain ⟨flagged, done⟩ := served
  refine ⟨_, _, done, ?_⟩
  exact {
    writable := by simp only [CacheBlk.isWritable, same]
    readable := by simp only [CacheBlk.isReadable, same]
    dirty := by simp only [CacheBlk.isDirty, same, idle, Bool.or_false]
    data := by rw [idle, same.2]; rfl
    reads := fun _ k inside => by
      simp only [answer, Packet.setDataFromBlock, Packet.setData, same.2]
      exact if_pos inside
    stores := fun never => absurd never store }

/-- A store writes to the block, a conditional one only under a lock of its own. -/
theorem satisfy_store (pkt : Packet) (store : pkt.cmd = .writeReq ∨ pkt.cmd = .storeCondReq)
    (blk : CacheBlk) :
    ∃ answer after, satisfy config false false pkt blk = .ok (answer, after, false) ∧
      Served config pkt blk answer after := by
  have facts : pkt.cmd ≠ .swapReq ∧ pkt.cmd.isWrite = true ∧ pkt.cmd.isRead = false := by
    rcases store with store | store <;> rw [store] <;> decide
  obtain ⟨swap, write, read⟩ := facts
  rcases store with store | store
  · have plain : pkt.cmd.isLLSC = false := by rw [store]; decide
    have writes : commits config pkt blk = true := by simp [commits, store]
    refine ⟨pkt, { blk.clearLoadLocks pkt.req with
      data := pkt.writeDataToBlock config.blkSize blk.data
      status := { blk.status with dirty := true } }, ?_, ?_⟩
    · simp only [satisfy, swap, if_false, write, if_true, CacheBlk.checkWrite, plain,
        Bool.false_eq_true]
      rfl
    · exact {
        writable := rfl
        readable := rfl
        dirty := by rw [writes, Bool.or_true]; rfl
        data := by rw [writes]; rfl
        reads := fun never => absurd (read.symm.trans never) Bool.false_ne_true
        stores := fun never => by rw [store] at never; exact absurd never (by decide) }
  · have conditional : pkt.cmd.isLLSC = true := by rw [store]; decide
    -- A conditional store writes if the context has a lock on the block.
    have locked : commits config pkt blk = blk.lockList.any (Lock.matchesContext pkt.req) := by
      simp [commits, store]
    simp only [satisfy, swap, if_false, write, if_true, CacheBlk.checkWrite, conditional, ← locked]
    cases writes : commits config pkt blk with
    | true =>
      refine ⟨_, _, rfl, ?_⟩
      exact {
        writable := rfl
        readable := rfl
        dirty := by rw [writes, Bool.or_true]; rfl
        data := by rw [writes]; rfl
        reads := fun never => absurd (read.symm.trans never) Bool.false_ne_true
        stores := fun _ => by rw [writes] }
    | false =>
      refine ⟨_, _, rfl, ?_⟩
      exact {
        writable := rfl
        readable := rfl
        dirty := by rw [writes, Bool.or_false]; rfl
        data := by rw [writes]; rfl
        reads := fun never => absurd (read.symm.trans never) Bool.false_ne_true
        stores := fun _ => by rw [writes] }

/-- A swap returns the bytes that were there, and writes unless it expected others. -/
theorem satisfy_swap (pkt : Packet) (swap : pkt.cmd = .swapReq) (small : pkt.size ≤ 8)
    (compares : pkt.req.isCondSwap = true → pkt.size = 4 ∨ pkt.size = 8) (blk : CacheBlk) :
    ∃ answer after, satisfy config false false pkt blk = .ok (answer, after, false) ∧
      Served config pkt blk answer after := by
  have offset : config.extractBlkOffset pkt.addr = pkt.getOffset config.blkSize := rfl
  have expected : commits config pkt blk = (!pkt.req.isCondSwap ||
      (List.range pkt.size).all fun i =>
        blk.data (pkt.getOffset config.blkSize + i) == pkt.conditionByte i) := by
    simp [commits, swap, Packet.expects]
  have sized : (pkt.req.isCondSwap && decide (pkt.size ≠ 8) && decide (pkt.size ≠ 4)) = false := by
    cases cond : pkt.req.isCondSwap with
    | false => rfl
    | true => rcases compares cond with size | size <;> simp [size]
  have done : satisfy config false false pkt blk = .ok
      (pkt.setData fun i => blk.data (pkt.getOffset config.blkSize + i),
        (if commits config pkt blk then { blk with
          data := pkt.writeDataToBlock config.blkSize blk.data
          status := { blk.status with dirty := true } } else blk), false) := by
    simp only [satisfy, swap, if_true, cmpAndSwap, show ¬ 8 < pkt.size by omega, if_false, sized,
      Bool.false_eq_true, offset, expected]
    rfl
  refine ⟨_, _, done, ?_⟩
  have reads : ∀ k < pkt.size, (pkt.setData fun i =>
      blk.data (pkt.getOffset config.blkSize + i)).data k =
        blk.data (pkt.getOffset config.blkSize + k) := by
    intro k inside
    exact if_pos inside
  cases writes : commits config pkt blk with
  | true =>
    exact {
      writable := rfl
      readable := rfl
      dirty := by rw [writes, Bool.or_true]; rfl
      data := by rw [writes]; rfl
      reads := fun _ => reads
      stores := fun never => by rw [swap] at never; exact absurd never (by decide) }
  | false =>
    exact {
      writable := rfl
      readable := rfl
      dirty := by rw [writes, Bool.or_false]; rfl
      data := by rw [writes]; rfl
      reads := fun _ => reads
      stores := fun never => by rw [swap] at never; exact absurd never (by decide) }

theorem satisfy_cpu (top : config.isTopLevel = true) (cpu : pkt.FromCpu config.blkSize)
    (blk : CacheBlk) :
    ∃ answer after, satisfy config false false pkt blk = .ok (answer, after, false) ∧
      Served config pkt blk answer after := by
  rcases cpu.kind with kind | kind | kind | kind | kind
  · exact satisfy_load top pkt (.inl kind) blk
  · exact satisfy_load top pkt (.inr kind) blk
  · exact satisfy_store pkt (.inl kind) blk
  · exact satisfy_store pkt (.inr kind) blk
  · exact satisfy_swap pkt kind (cpu.swaps kind).1 (cpu.swaps kind).2 blk

theorem Served.toCopy_eq {blk after : CacheBlk} {answer : Packet}
    (served : Served config pkt blk answer after) (idle : commits config pkt blk = false) (n : Nat)
    (b : Addr) : after.toCopy n b = blk.toCopy n b := by
  simp [CacheBlk.toCopy, served.writable, served.dirty, served.data, idle]

theorem answered_data (answer : Packet) : (answered answer).data = answer.data := by
  unfold answered
  split <;> rfl

theorem applied_answered (pkt answer : Packet) (bytes : Addr → UInt8) :
    pkt.applied (answered answer) bytes = pkt.applied answer bytes := by
  unfold answered
  split <;> rfl

theorem applied_of_idle {answer : Packet} {bytes : Addr → UInt8}
    (idle : pkt.updates answer bytes = false) : pkt.applied answer bytes = bytes := by
  simp [Packet.applied, idle]

section Bytes

variable {n : Nat} {blk after : CacheBlk} {answer : Packet} {bytes : Addr → UInt8}

theorem byte_at (inside : pkt.getOffset config.blkSize + pkt.size ≤ config.blkSize)
    (carries : contents config.blkSize (align config.blkSize pkt.addr) blk.data =
      bytesAt config.blkSize _ bytes) {k : Nat} (within : k < pkt.size) :
    blk.data (pkt.getOffset config.blkSize + k) = bytes (pkt.addr + BitVec.ofNat 64 k) := by
  obtain ⟨same, place⟩ := add_within config.blkSize_eq config.blkSize_narrow
    (x := pkt.addr) (k := k) (show pkt.getOffset config.blkSize + k < config.blkSize by omega)
  have here := congrFun carries ⟨pkt.addr + BitVec.ofNat 64 k, same⟩
  simp only [contents, bytesAt, place] at here
  exact here

theorem Served.returns (served : Served config pkt blk answer after) (size : config.blkSize = n)
    (inside : pkt.getOffset n + pkt.size ≤ n)
    (carries : contents n (align n pkt.addr) blk.data = bytesAt n _ bytes)
    (read : pkt.cmd.isRead = true) {k : Nat} (within : k < pkt.size) :
    answer.data k = bytes (pkt.addr + BitVec.ofNat 64 k) := by
  subst size
  rw [served.reads read k within, byte_at inside carries within]

theorem Served.updates_eq (served : Served config pkt blk answer after)
    (size : config.blkSize = n) (inside : pkt.getOffset n + pkt.size ≤ n)
    (carries : contents n (align n pkt.addr) blk.data = bytesAt n _ bytes) :
    pkt.updates answer bytes = commits config pkt blk := by
  subst size
  unfold Packet.updates
  cases kind : pkt.cmd
  case storeCondReq =>
    have stored := served.stores kind
    simp only [commits, kind] at stored ⊢
    rw [stored]
    split <;> simp_all
  case swapReq =>
    simp only [commits, kind, Packet.expects]
    congr 1
    rw [Bool.eq_iff_iff, List.all_eq_true, List.all_eq_true]
    refine forall_congr' fun i => forall_congr' fun member => ?_
    rw [byte_at inside carries (List.mem_range.mp member)]
  all_goals simp [commits, kind]

theorem Served.carries (served : Served config pkt blk answer after) (size : config.blkSize = n)
    (inside : pkt.getOffset n + pkt.size ≤ n)
    (carries : contents n (align n pkt.addr) blk.data = bytesAt n _ bytes) :
    contents n (align n pkt.addr) after.data = bytesAt n _ (pkt.applied answer bytes) := by
  subst size
  funext ⟨a, same⟩
  have old := congrFun carries ⟨a, same⟩
  simp only [contents, bytesAt] at old ⊢
  rw [served.data, Packet.applied, served.updates_eq rfl inside carries]
  cases commits config pkt blk with
  | false => simpa using old
  | true =>
    have start : pkt.getOffset config.blkSize = offset config.blkSize pkt.addr := rfl
    have near := sub_lt_iff config.blkSize_eq config.blkSize_narrow same inside
    simp only [if_true, Packet.writeDataToBlock, start]
    by_cases touched : (a - pkt.addr).toNat < pkt.size
    · have place := (align_of_sub_lt config.blkSize_eq config.blkSize_narrow inside touched).2
      rw [if_pos touched, if_pos (near.mp touched), place]
      congr 1
      exact Nat.add_sub_cancel_left _ _
    · rw [if_neg touched, if_neg fun range => touched (near.mpr range)]
      exact old

theorem applied_elsewhere (size : config.blkSize = n) (inside : pkt.getOffset n + pkt.size ≤ n)
    {b : Addr} (other : b ≠ align n pkt.addr) :
    bytesAt n b (pkt.applied answer bytes) = bytesAt n b bytes := by
  subst size
  funext ⟨a, same⟩
  simp only [bytesAt, Packet.applied]
  split
  · refine if_neg fun touched => other ?_
    rw [← same]
    exact (align_of_sub_lt config.blkSize_eq config.blkSize_narrow inside touched).1
  · rfl

end Bytes

end Cache

end GemDroid
