import GemDroid.Mem.CoherentMemory

/-! A second level of cache below the bus: what it holds of each block, and when it loses it. -/

namespace GemDroid

open Align Cache Ownership

/-- A cache below the bus, and the memory below it. -/
structure SharedL2 where
  cache : Cache
  memory : Memory

namespace SharedL2

/-- The cache of the second level. -/
def slot : Slot SharedL2 where
  get s := s.cache
  set c s := { s with cache := c }
  get_set _ _ := rfl
  set_get _ := rfl
  set_set _ _ _ := rfl

/-- The port to the memory. -/
def port (functional : Packet → SharedL2 → SharedL2) : MemSidePort SharedL2 where
  sendAtomic pkt s := do
    let (pkt, mem) ← s.memory.access pkt
    return (pkt, { s with memory := mem })
  sendFunctional := functional

/-- The bus sends a request to the second level. -/
def recvAtomic (config : CacheConfig) (functional : Packet → SharedL2 → SharedL2) (pkt : Packet)
    (s : SharedL2) : Except CacheFault (Packet × SharedL2) :=
  Cache.recvAtomic config slot (port functional) pkt s

/-- The copy of a block in the second level. -/
def block (config : CacheConfig) (flag : Addr → Bool) (s : SharedL2) (b : Addr) :
    Option CacheBlk :=
  copy config s.cache b (flag b)

/-- The second level as the level below the caches of the bus. -/
def level (config : CacheConfig) (functional : Packet → SharedL2 → SharedL2)
    (flag : Addr → Bool) : Level config.blkSize SharedL2 where
  recvAtomic := recvAtomic config functional
  view s b :=
    { dirty := (block config flag s b).any CacheBlk.isDirty
      supply :=
        match block config flag s b with
        | some blk => contents config.blkSize b blk.data
        | none => bytesAt config.blkSize b s.memory.data
      memory := bytesAt config.blkSize b s.memory.data }
  -- A secure block that is not there before loses its flag and is not found again.
  takes s v := flag v = false ∨ (block config flag s v).isSome = true
  keeps s b v := flag v = false ∨
    ∃ ptr, s.cache.tags.findBlock config.toLruConfig v (flag v) = some ptr ∧
      (s.cache.tags.findBlock config.toLruConfig b (flag b) = none →
        s.cache.tags.findVictim config.toLruConfig b ≠ .ok ptr)

/-- What holds of the second level between requests. -/
structure WF (config : CacheConfig) (flag : Addr → Bool) (s : SharedL2) : Prop where
  cache : Cache.WF config s.cache
  readable : ∀ a isSecure blk, copy config s.cache a isSecure = some blk → blk.isReadable = true
  flagged : ∀ a isSecure blk, copy config s.cache a isSecure = some blk →
    isSecure = flag (align config.blkSize a)

variable {config : CacheConfig} {functional : Packet → SharedL2 → SharedL2} {flag : Addr → Bool}
  {s t : SharedL2} {b : Addr} {pkt : Packet}

theorem view_of_some {blk : CacheBlk} (here : block config flag s b = some blk) :
    (level config functional flag).view s b =
      { dirty := blk.isDirty, supply := contents config.blkSize b blk.data,
        memory := bytesAt config.blkSize b s.memory.data } := by
  simp only [level, here, Option.any_some]

theorem view_of_none (missing : block config flag s b = none) :
    (level config functional flag).view s b =
      { dirty := false, supply := bytesAt config.blkSize b s.memory.data,
        memory := bytesAt config.blkSize b s.memory.data } := by
  simp only [level, missing, Option.any_none]

theorem view_congr {v : Addr} (same : block config flag t v = block config flag s v)
    (bytes : bytesAt config.blkSize v t.memory.data = bytesAt config.blkSize v s.memory.data) :
    (level config functional flag).view t v = (level config functional flag).view s v := by
  simp only [level, same, bytes]

theorem rest_of_drop {v : Addr} {old : CacheBlk} (here : block config flag s v = some old)
    (gone : block config flag t v = none)
    (bytes : bytesAt config.blkSize v t.memory.data =
      if old.isDirty then contents config.blkSize v old.data
      else bytesAt config.blkSize v s.memory.data) :
    Source.Rest ((level config functional flag).view s v)
      ((level config functional flag).view t v) := by
  rw [view_of_some here, view_of_none gone]
  exact .inr ⟨rfl, bytes, rfl⟩

/-- A block other than this one is not filed under its key. -/
theorem other_key (aligned : align config.blkSize b = b) {v : Addr}
    (alignedv : align config.blkSize v = v) (other : v ≠ b) :
    ¬(config.blkAlign v = config.blkAlign b ∧ flag v = flag b) := by
  intro key
  rw [LruConfig.blkAlign_eq, LruConfig.blkAlign_eq, alignedv, aligned] at key
  exact other key.1

/-- A cache all of whose copies were there before, but for one readable copy, is in order. -/
theorem WF.of_copies (wf : WF config flag s) {d : Cache} {new : Option CacheBlk}
    (cache : Cache.WF config d) (aligned : align config.blkSize b = b)
    (here : copy config d b (flag b) = new)
    (others : ∀ a isSecure blk, ¬(config.blkAlign a = config.blkAlign b ∧ isSecure = flag b) →
      copy config d a isSecure = some blk → copy config s.cache a isSecure = some blk)
    (readable : ∀ blk, new = some blk → blk.isReadable = true) (mem : Memory) :
    WF config flag { cache := d, memory := mem } := by
  -- Every copy is the new one or was there before.
  have keyed : ∀ a isSecure blk, copy config d a isSecure = some blk →
      align config.blkSize a = b ∧ isSecure = flag b ∧ new = some blk ∨
        copy config s.cache a isSecure = some blk := by
    intro a isSecure blk found
    by_cases key : config.blkAlign a = config.blkAlign b ∧ isSecure = flag b
    · refine .inl ⟨?_, key.2, ?_⟩
      · rw [LruConfig.blkAlign_eq, LruConfig.blkAlign_eq, aligned] at key
        exact key.1
      · rw [← here, ← found, key.2]
        exact copy_congr key.1.symm
    · exact .inr (others a isSecure blk key found)
  refine ⟨cache, fun a isSecure blk found => ?_, fun a isSecure blk found => ?_⟩
  · rcases keyed a isSecure blk found with ⟨-, -, known⟩ | old
    · exact readable blk known
    · exact wf.readable a isSecure blk old
  · rcases keyed a isSecure blk found with ⟨here, secure, -⟩ | old
    · rw [secure, here]
    · exact wf.flagged a isSecure blk old

/-- A block that has its copy as before is found again. -/
theorem found_again {v : Addr} {ptr : BlkPtr}
    (found : s.cache.tags.findBlock config.toLruConfig v (flag v) = some ptr)
    (same : block config flag t v = block config flag s v) :
    (block config flag t v).isSome = true := by
  rw [same, block, copy, found, Option.map_some, Option.isSome_some]

variable (functional)

/-- One copy was replaced, and the memory is as it was. -/
theorem WF.replaced (wf : WF config flag s) {d : Cache} {new : Option CacheBlk}
    (aligned : align config.blkSize b = b)
    (replaced : Replaced config s.cache d b (flag b) new)
    (readable : ∀ blk, new = some blk → blk.isReadable = true) :
    WF config flag { s with cache := d } ∧ block config flag { s with cache := d } b = new ∧
      (level config functional flag).Elsewhere b s { s with cache := d } ∧
      (level config functional flag).Found b s { s with cache := d } := by
  have others : ∀ v, align config.blkSize v = v → v ≠ b →
      block config flag { s with cache := d } v = block config flag s v :=
    fun v alignedv other => replaced.others v (flag v) (other_key aligned alignedv other)
  refine ⟨wf.of_copies replaced.wf aligned replaced.here
      (fun a isSecure blk key found => (replaced.others a isSecure key).symm.trans found)
      readable _, replaced.here, fun v alignedv other => ?_, fun v alignedv other keeps => ?_⟩
  · rw [view_congr (others v alignedv other) rfl]
    exact Source.Rest.refl _
  · rcases keeps with insecure | ⟨ptr, found, -⟩
    · exact .inl insecure
    · exact .inr (found_again found (others v alignedv other))

theorem writebackOf_forBlock {v : Addr} (old : CacheBlk) (aligned : align config.blkSize v = v) :
    (writebackOf config v old).ForBlock config.blkSize v old.isSecure :=
  { aligned := aligned, addr := rfl, size := rfl, isSecure := rfl, cacheable := rfl
    reqAddr := aligned, reqSecure := rfl }

/-- One copy took the place of another one, which went to the memory if it was dirty. -/
theorem WF.filled (wf : WF config flag s) {d : Cache} {new : Option CacheBlk}
    {packets : List Packet} (aligned : align config.blkSize b = b)
    (missing : block config flag s b = none)
    (filled : Filled config s.cache d b (flag b) new packets)
    (readable : ∀ blk, new = some blk → blk.isReadable = true) :
    ∃ t, sendWritebacks (port functional) packets { s with cache := d } = .ok t ∧
      WF config flag t ∧ block config flag t b = new ∧
      bytesAt config.blkSize b t.memory.data = bytesAt config.blkSize b s.memory.data ∧
      (level config functional flag).Elsewhere b s t ∧
      (level config functional flag).Found b s t := by
  have empty : s.cache.tags.findBlock config.toLruConfig b (flag b) = none :=
    found_of_no_copy missing
  have cached : ∀ mem, WF config flag { cache := d, memory := mem } := by
    refine wf.of_copies filled.wf aligned filled.here (fun a isSecure blk key found => ?_) readable
    rcases filled.rest with ⟨-, same⟩ | ⟨v, ptr, old, alignedv, -, -, -, dropped, -, -, same⟩
    · rw [← same a isSecure key]
      exact found
    · by_cases victim : config.blkAlign a = v ∧ isSecure = old.isSecure
      · have same : config.blkAlign a = config.blkAlign v := by rw [victim.1, alignedv]
        rw [victim.2, copy_congr same, dropped] at found
        exact absurd found (by simp)
      · rw [← same a isSecure key victim]
        exact found
  -- Either there was room, or a victim went; what is left of it is in the memory.
  rcases filled.rest with ⟨rfl, same⟩ |
      ⟨v, ptr, old, alignedv, victim, found, copied, dropped, apart, rfl, same⟩
  · have kept : ∀ w, align config.blkSize w = w → w ≠ b →
        block config flag { s with cache := d } w = block config flag s w :=
      fun w alignedw other => same w (flag w) (other_key aligned alignedw other)
    refine ⟨{ s with cache := d }, rfl, cached _, filled.here, rfl, fun w alignedw other => ?_,
      fun w alignedw other keeps => ?_⟩
    · rw [view_congr (kept w alignedw other) rfl]
      exact Source.Rest.refl _
    · rcases keeps with insecure | ⟨ptr, found, -⟩
      · exact .inl insecure
      · exact .inr (found_again found (kept w alignedw other))
  · rw [LruConfig.blkAlign_eq] at alignedv
    have flagged : old.isSecure = flag v := by
      have := wf.flagged v old.isSecure old copied
      rwa [alignedv] at this
    have here : block config flag s v = some old := by rw [block, ← flagged]; exact copied
    have different : v ≠ b := by
      rintro rfl
      rw [here] at missing
      exact absurd missing (by simp)
    have others : ∀ mem w, align config.blkSize w = w → w ≠ b → w ≠ v →
        block config flag { cache := d, memory := mem } w = block config flag s w := by
      intro mem w alignedw other notv
      refine same w (flag w) (other_key aligned alignedw other) fun key => notv ?_
      rw [LruConfig.blkAlign_eq, alignedw] at key
      exact key.1
    have gone : ∀ mem, block config flag { cache := d, memory := mem } v = none := by
      intro mem
      rw [block, ← flagged]
      exact dropped
    -- A block that is kept was not the victim, by what keeping means.
    have foundAgain : ∀ mem, (level config functional flag).Found b s
        { cache := d, memory := mem } := by
      intro mem w alignedw other keeps
      rcases keeps with insecure | ⟨place, there, stays⟩
      · exact .inl insecure
      · refine .inr ?_
        have notv : w ≠ v := by
          rintro rfl
          rw [flagged] at found
          obtain rfl := Option.some.inj (there.symm.trans found)
          exact stays empty victim
        exact found_again there (others mem w alignedw other notv)
    -- Only a dirty victim is written back, and a clean one says what the memory says.
    cases dirty : old.isDirty with
    | false =>
      refine ⟨{ s with cache := d }, rfl, cached _, filled.here, rfl, fun w alignedw other => ?_,
        foundAgain _⟩
      by_cases replaced : w = v
      · subst replaced
        exact rest_of_drop here (gone _) (by simp [dirty])
      · rw [view_congr (others _ w alignedw other replaced) rfl]
        exact Source.Rest.refl _
    | true =>
      obtain ⟨mem, accessed, data⟩ := Memory.access_writeback s.memory
        (show (writebackOf config v old).cmd = .writeback from rfl) rfl rfl
      obtain ⟨written, kept⟩ := Memory.write_block config.blkSize_eq config.blkSize_narrow
        (writebackOf_forBlock old alignedv) s.memory
      rw [← data] at written kept
      refine ⟨{ cache := d, memory := mem }, ?_, cached mem, filled.here,
        kept b fun same => different same.symm, fun w alignedw other => ?_, foundAgain mem⟩
      · simp only [sendWritebacks, if_true, List.foldlM_cons, port, accessed, Bind.bind,
          Except.bind, pure, Except.pure, List.foldlM_nil]
      · by_cases replaced : w = v
        · subst replaced
          refine rest_of_drop here (gone mem) ?_
          rw [dirty, if_pos rfl, written]
          rfl
        · rw [view_congr (others mem w alignedw other replaced) (kept w replaced)]
          exact Source.Rest.refl _

theorem offset_forBlock (forBlock : pkt.ForBlock config.blkSize b (flag b)) :
    pkt.getOffset config.blkSize = 0 := by
  rw [Packet.getOffset, forBlock.addr, ← forBlock.aligned]
  exact offset_align config.blkSize_eq config.blkSize_narrow b

theorem contents_supplied (forBlock : pkt.ForBlock config.blkSize b (flag b))
    (data : Nat → UInt8) :
    contents config.blkSize b (pkt.setDataFromBlock data config.blkSize).data =
      contents config.blkSize b data := by
  funext x
  obtain ⟨a, same⟩ := x
  simp only [contents, Packet.setDataFromBlock, Packet.setData, offset_forBlock forBlock,
    Nat.zero_add]
  refine if_pos ?_
  rw [forBlock.size]
  exact offset_lt config.blkSize_eq config.blkSize_narrow a

theorem satisfy_block (kind : pkt.cmd = .readReq ∨ pkt.cmd = .readExReq)
    (size : pkt.size = config.blkSize) (blk : CacheBlk) :
    satisfy config false false pkt blk = .ok (supplyBlock config false false
      (pkt.setDataFromBlock blk.data config.blkSize) blk) := by
  have facts : pkt.cmd ≠ .swapReq ∧ pkt.cmd.isWrite = false ∧ pkt.cmd.isRead = true ∧
      pkt.cmd.isLLSC = false := by
    rcases kind with kind | kind <;> rw [kind] <;> decide
  obtain ⟨swap, write, read, locked⟩ := facts
  have whole : (pkt.setDataFromBlock blk.data config.blkSize).size = config.blkSize := size
  simp only [satisfy, swap, if_false, write, Bool.false_eq_true, read, if_true, locked, whole]

theorem inside_block (forBlock : pkt.ForBlock config.blkSize b (flag b)) :
    pkt.getOffset config.blkSize + pkt.size ≤ config.blkSize := by
  rw [offset_forBlock forBlock, forBlock.size, Nat.zero_add]

/-- What a read makes of a copy of the second level. -/
structure Supplied (config : CacheConfig) (pkt answer : Packet) (blk after : CacheBlk) : Prop where
  cmd : answer.cmd = pkt.cmd
  addr : answer.addr = pkt.addr
  isSecure : answer.isSecure = pkt.isSecure
  data : answer.data = (pkt.setDataFromBlock blk.data config.blkSize).data
  kept : after.data = blk.data
  readable : after.isReadable = blk.isReadable
  shared : pkt.shared = true → answer.shared = true
  handed : after.isDirty = blk.isDirty ∧ answer.memInhibit = false ∨
    blk.isDirty = true ∧ after.isDirty = false ∧ answer.memInhibit = true ∧ answer.shared = false
  exclusive : answer.shared = false → after.isDirty = false

/-- A read is told to share, or gets ownership along with a dirty copy. -/
theorem satisfy_read (low : config.isTopLevel = false) (kind : pkt.cmd = .readReq)
    (size : pkt.size = config.blkSize) (quiet : pkt.memInhibit = false) (blk : CacheBlk) :
    ∃ answer after, satisfy config false false pkt blk = .ok (answer, after, false) ∧
      Supplied config pkt answer blk after := by
  have keeps : (pkt.setDataFromBlock blk.data config.blkSize).cmd.needsExclusive = false := by
    rw [show (pkt.setDataFromBlock blk.data config.blkSize).cmd = pkt.cmd from rfl, kind]
    decide
  rw [satisfy_block (.inl kind) size]
  simp only [supplyBlock, keeps, Bool.false_eq_true, if_false, low, Bool.not_false, Bool.and_self,
    if_true, Bool.and_true]
  split
  case isTrue alone =>
    have unshared : pkt.shared = false := by
      have free : (!pkt.shared) = true :=
        (Bool.and_eq_true_iff.mp (Bool.and_eq_true_iff.mp alone).1).2
      simpa using free
    split
    case isTrue dirty =>
      refine ⟨_, _, rfl, ?_⟩
      exact {
        cmd := rfl, addr := rfl, isSecure := rfl, data := rfl, kept := rfl, readable := rfl
        shared := fun never => absurd (unshared.symm.trans never) Bool.false_ne_true
        handed := .inr ⟨dirty, rfl, rfl, unshared⟩
        exclusive := fun _ => rfl }
    case isFalse clean =>
      refine ⟨_, _, rfl, ?_⟩
      exact {
        cmd := rfl, addr := rfl, isSecure := rfl, data := rfl, kept := rfl, readable := rfl
        shared := fun never => absurd (unshared.symm.trans never) Bool.false_ne_true
        handed := .inl ⟨rfl, quiet⟩
        exclusive := fun _ => by simpa using clean }
  case isFalse =>
    refine ⟨_, _, rfl, ?_⟩
    exact {
      cmd := rfl, addr := rfl, isSecure := rfl, data := rfl, kept := rfl, readable := rfl
      shared := fun _ => rfl
      handed := .inl ⟨rfl, quiet⟩
      exclusive := fun never => absurd (show true = false from never) (by decide) }

theorem memory_read {req : Request} (kind : pkt.cmd = .readReq ∨ pkt.cmd = .readExReq)
    (forBlock : pkt.ForBlock config.blkSize b (flag b)) (same : pkt.req = req) :
    ∃ resp, (port functional).sendAtomic (.ofBlock req pkt.cmd config.blkSize fun _ => 0) s =
        .ok (resp, s) ∧ resp.cmd = pkt.cmd.responseCommand ∧ resp.addr = b ∧
      resp.isSecure = flag b ∧ resp.shared = false ∧ resp.memInhibit = false ∧
      contents config.blkSize b resp.data = bytesAt config.blkSize b s.memory.data := by
  subst same
  have place : (Packet.ofBlock pkt.req pkt.cmd config.blkSize fun _ => 0).addr = b :=
    forBlock.reqAddr
  let asked : Packet := .ofBlock pkt.req pkt.cmd config.blkSize fun _ => 0
  have whole : asked.ForBlock config.blkSize b (flag b) :=
    { aligned := forBlock.aligned, addr := place, size := rfl, isSecure := forBlock.reqSecure
      cacheable := forBlock.cacheable, reqAddr := forBlock.reqAddr
      reqSecure := forBlock.reqSecure }
  have accessed : s.memory.access asked = _ := Memory.access_read kind rfl
  refine ⟨(asked.setData (s.memory.bytes asked.addr)).makeResponse, ?_, rfl, place,
    forBlock.reqSecure, rfl, rfl,
    Memory.bytes_of_block config.blkSize_eq config.blkSize_narrow whole s.memory⟩
  have sent : s.memory.access (.ofBlock pkt.req pkt.cmd config.blkSize fun _ => 0) = _ := accessed
  simp only [port, sent, Bind.bind, Except.bind]
  rfl

theorem answered_read {answer : Packet} (cmd : answer.cmd = pkt.cmd)
    (responds : pkt.cmd.needsResponse = true) :
    answered answer = answer.makeResponse := by
  rw [answered, cmd, if_pos responds]

/-- A request for a block that is not there is satisfied with what the memory has of it. -/
theorem recvAtomic_fetch (wf : WF config flag s)
    (forBlock : pkt.ForBlock config.blkSize b (flag b))
    (kind : pkt.cmd = .readReq ∨ pkt.cmd = .readExReq) (quiet : pkt.memInhibit = false)
    (here : block config flag s b = none) {gone : Bool} {P : Packet → CacheBlk → CacheBlk → Prop}
    (satisfied : ∀ blk, ∃ answer after,
      satisfy config false false pkt blk = .ok (answer, after, gone) ∧ P answer blk after ∧
        after.isReadable = blk.isReadable) :
    ∃ answer blk after t, P answer blk after ∧
      contents config.blkSize b blk.data = bytesAt config.blkSize b s.memory.data ∧
      blk.isDirty = false ∧ recvAtomic config functional pkt s = .ok (answered answer, t) ∧
      WF config flag t ∧ block config flag t b = (if gone then none else some after) ∧
      bytesAt config.blkSize b t.memory.data = bytesAt config.blkSize b s.memory.data ∧
      (level config functional flag).Elsewhere b s t ∧
      (level config functional flag).Found b s t := by
  have facts : pkt.cmd.needsResponse = true ∧ pkt.cmd ≠ .writeback ∧ pkt.cmd.isUpgrade = false ∧
      (pkt.cmd.isLLSC && pkt.cmd.isWrite) = false ∧
      (pkt.cmd.responseCommand = .readResp ∨ pkt.cmd.responseCommand = .readExResp) ∧
      (if pkt.cmd.needsExclusive then MemCmd.readExReq else .readReq) = pkt.cmd := by
    rcases kind with kind | kind <;> rw [kind] <;> decide
  obtain ⟨responds, other, wants, tries, response, command⟩ := facts
  have lookup : copy config (slot.get s) pkt.addr pkt.isSecure = none := by
    rw [forBlock.addr, forBlock.isSecure]
    exact here
  obtain ⟨resp, sent, cmd, addr, secure, -, silent, data⟩ :=
    memory_read functional (s := s) kind forBlock rfl
  rw [← cmd] at response
  obtain ⟨answer, after, _, d, packets, ⟨rfl, old, supplied, readable⟩, received, filled⟩ :=
    Cache.recvAtomic_miss slot (port functional) (s := s) (t := s)
      (P := fun answer after gone' => gone' = gone ∧ ∃ old,
        P answer (newBlk config resp old) after ∧ after.isReadable = true)
      wf.cache quiet forBlock.cacheable responds other wants tries lookup (inside_block forBlock)
      (command.symm ▸ sent) rfl response (by rw [addr, forBlock.addr])
      (by rw [secure, forBlock.isSecure]) fun old => by
        obtain ⟨answer, after, satisfied, supplied, readable⟩ :=
          satisfied (newBlk config resp old)
        exact ⟨answer, after, gone, satisfied, rfl, old, supplied, readable⟩
  rw [forBlock.addr, forBlock.isSecure] at filled
  obtain ⟨t, written, wft, now, bytes, elsewhere, found⟩ := wf.filled functional forBlock.aligned
    here filled (by intro blk present; split at present <;> cases present; exact readable)
  refine ⟨answer, _, after, t, supplied, ?_, ?_, received.trans ?_, wft, now, bytes, elsewhere,
    found⟩
  · rw [← data]
    rcases response with response | response <;> simp only [newBlk, response] <;> rfl
  · simp [newBlk, CacheBlk.isDirty, silent]
  · have done : sendWritebacks (port functional) packets (slot.set d s) = .ok t := written
    rw [done]
    rfl

/-- A read is answered with what the second level holds, or with what the memory does. -/
theorem recvAtomic_read (low : config.isTopLevel = false) (wf : WF config flag s)
    (forBlock : pkt.ForBlock config.blkSize b (flag b)) (kind : pkt.cmd = .readReq)
    (quiet : pkt.memInhibit = false) :
    ∃ resp t, recvAtomic config functional pkt s = .ok (resp, t) ∧ WF config flag t ∧
      Level.Answers pkt resp ∧ contents config.blkSize b resp.data =
        ((level config functional flag).view s b).supply ∧
      (pkt.shared = true → resp.shared = true) ∧
      Source.Read ((level config functional flag).view s b)
        ((level config functional flag).view t b) resp.shared resp.memInhibit ∧
      (level config functional flag).Elsewhere b s t ∧
      (level config functional flag).Found b s t := by
  have responds : pkt.cmd.needsResponse = true := by rw [kind]; decide
  have lookup : copy config (slot.get s) pkt.addr pkt.isSecure = block config flag s b := by
    rw [forBlock.addr, forBlock.isSecure]
    rfl
  cases here : block config flag s b with
  | some blk =>
    have readable := wf.readable b (flag b) blk here
    obtain ⟨answer, after, satisfied, supplied⟩ := satisfy_read low kind forBlock.size quiet blk
    obtain ⟨d, received, replaced⟩ := recvAtomic_hit slot (port functional)
      (s := s) wf.cache quiet forBlock.cacheable (lookup.trans here)
      (by rw [permits, if_neg (by rw [kind]; decide)]; exact readable) (inside_block forBlock)
      satisfied
    simp only [Bool.false_eq_true, if_false] at replaced
    rw [forBlock.addr, forBlock.isSecure] at replaced
    obtain ⟨wfd, now, elsewhere, found⟩ := wf.replaced functional forBlock.aligned
      replaced (by rintro _ ⟨⟩; rw [supplied.readable]; exact readable)
    have form := answered_read supplied.cmd responds
    refine ⟨answered answer, { s with cache := d }, received, wfd, ?_, ?_, ?_, ?_, elsewhere, found⟩
    · rw [form]
      exact ⟨congrArg MemCmd.responseCommand supplied.cmd, supplied.addr, supplied.isSecure⟩
    · rw [answered_data, supplied.data, contents_supplied forBlock, view_of_some here]
    · rw [form]
      exact supplied.shared
    · rw [form, view_of_some here, view_of_some now]
      exact ⟨by rw [supplied.kept], rfl, supplied.handed, supplied.exclusive⟩
  | none =>
    obtain ⟨answer, blk, after, t, supplied, brought, clean, received, wft, now, bytes, elsewhere,
        found⟩ := recvAtomic_fetch functional wf forBlock (.inl kind) quiet here fun blk => by
      obtain ⟨answer, after, satisfied, supplied⟩ := satisfy_read low kind forBlock.size quiet blk
      exact ⟨answer, after, satisfied, supplied, supplied.readable⟩
    have form := answered_read supplied.cmd responds
    refine ⟨answered answer, t, received, wft, ?_, ?_, ?_, ?_, elsewhere, found⟩
    · rw [form]
      exact ⟨congrArg MemCmd.responseCommand supplied.cmd, supplied.addr, supplied.isSecure⟩
    · rw [answered_data, supplied.data, contents_supplied forBlock, view_of_none here, brought]
    · rw [form]
      exact supplied.shared
    · rw [form, view_of_none here, view_of_some now]
      -- The memory owes nothing, so that no ownership goes along.
      have handed := supplied.handed
      rw [clean] at handed
      exact ⟨by rw [supplied.kept, brought], bytes, handed, supplied.exclusive⟩

theorem memory_upgrade (kind : pkt.cmd = .upgradeReq ∨ pkt.cmd = .scUpgradeReq)
    (quiet : pkt.memInhibit = false) :
    (port functional).sendAtomic pkt s = .ok (pkt.makeResponse, s) := by
  simp only [port, Memory.access_upgrade kind quiet, Bind.bind, Except.bind]
  rfl

/-- A request for an exclusive copy takes the copy of the second level away. -/
theorem recvAtomic_take (answer : Packet) (wf : WF config flag s)
    (forBlock : pkt.ForBlock config.blkSize b (flag b)) (exclusive : pkt.cmd.needsExclusive = true)
    (responds : pkt.cmd.needsResponse = true) (other : pkt.cmd ≠ .writeback)
    (quiet : pkt.memInhibit = false) {blk : CacheBlk}
    (here : block config flag s b = some blk)
    (satisfied : ∀ after, after.data = blk.data → after.isDirty = blk.isDirty →
      satisfy config false false pkt after = .ok (answer, after, true)) :
    ∃ t, recvAtomic config functional pkt s = .ok (answered answer, t) ∧ WF config flag t ∧
      block config flag t b = none ∧ t.memory = s.memory ∧
      (level config functional flag).Elsewhere b s t ∧
      (level config functional flag).Found b s t := by
  have lookup : copy config (slot.get s) pkt.addr pkt.isSecure = some blk := by
    rw [forBlock.addr, forBlock.isSecure]
    exact here
  have taken : ∀ d, Replaced config s.cache d pkt.addr pkt.isSecure none →
      WF config flag { s with cache := d } ∧ block config flag { s with cache := d } b = none ∧
        (level config functional flag).Elsewhere b s { s with cache := d } ∧
        (level config functional flag).Found b s { s with cache := d } := by
    intro d replaced
    rw [forBlock.addr, forBlock.isSecure] at replaced
    exact wf.replaced functional forBlock.aligned replaced (by simp)
  by_cases writable : blk.isWritable = true
  · obtain ⟨d, received, replaced⟩ := recvAtomic_hit slot (port functional)
      (s := s) wf.cache quiet forBlock.cacheable lookup
      (by rw [permits, if_pos exclusive]; exact writable) (inside_block forBlock)
      (satisfied blk rfl rfl)
    obtain ⟨wfd, gone, elsewhere, found⟩ := taken d replaced
    exact ⟨{ s with cache := d }, received, wfd, gone, rfl, elsewhere, found⟩
  · -- The second level has to ask for permission itself.
    obtain ⟨c, wfc, same, -, goes⟩ := Cache.recvAtomic_upgrade slot
      (port functional) (s := s) wf.cache quiet forBlock.cacheable exclusive responds other
      lookup (by simpa using writable) (inside_block forBlock)
    let fetch : Packet := .ofBlock pkt.req
      (if pkt.cmd.isLLSC then .scUpgradeReq else .upgradeReq) config.blkSize fun _ => 0
    have kind : fetch.cmd = .upgradeReq ∨ fetch.cmd = .scUpgradeReq := by
      simp only [fetch, Packet.ofBlock, Packet.ofRequest]
      split
      · exact .inr rfl
      · exact .inl rfl
    have upgraded : fetch.makeResponse.cmd = .upgradeResp := by
      have response : fetch.makeResponse.cmd = fetch.cmd.responseCommand := rfl
      rw [response]
      rcases kind with kind | kind <;> rw [kind] <;> rfl
    have data : (filled fetch.makeResponse blk).data = blk.data := by
      simp only [filled, upgraded]
      rfl
    have dirty : (filled fetch.makeResponse blk).isDirty = blk.isDirty := by
      have silent : fetch.makeResponse.memInhibit = false := rfl
      simp [filled, CacheBlk.isDirty, silent]
    have place : fetch.makeResponse.addr = b := forBlock.reqAddr
    obtain ⟨d, received, replaced⟩ := goes fetch.makeResponse (slot.set c s)
      (memory_upgrade functional kind rfl) rfl upgraded (by rw [place, forBlock.addr])
      (forBlock.reqSecure.trans forBlock.isSecure.symm) answer _ true (satisfied _ data dirty)
    obtain ⟨wfd, gone, elsewhere, found⟩ := taken d (replaced.of_reorder same)
    exact ⟨{ s with cache := d }, received, wfd, gone, rfl, elsewhere, found⟩

/-- A request for an exclusive copy is answered, and ownership goes along. -/
theorem recvAtomic_exclusive (wf : WF config flag s)
    (forBlock : pkt.ForBlock config.blkSize b (flag b)) (kind : pkt.cmd = .readExReq)
    (quiet : pkt.memInhibit = false) :
    ∃ resp t, recvAtomic config functional pkt s = .ok (resp, t) ∧ WF config flag t ∧
      Level.Answers pkt resp ∧ contents config.blkSize b resp.data =
        ((level config functional flag).view s b).supply ∧
      resp.shared = pkt.shared ∧
      resp.memInhibit = ((level config functional flag).view s b).dirty ∧
      Source.Gone ((level config functional flag).view s b)
        ((level config functional flag).view t b) ∧
      (level config functional flag).Elsewhere b s t ∧
      (level config functional flag).Found b s t := by
  have facts : pkt.cmd.needsExclusive = true ∧ pkt.cmd.needsResponse = true ∧
      pkt.cmd ≠ .writeback := by
    rw [kind]
    decide
  obtain ⟨exclusive, responds, other⟩ := facts
  have satisfied : ∀ blk, satisfy config false false pkt blk =
      .ok ({ pkt.setDataFromBlock blk.data config.blkSize with
        memInhibit := blk.isDirty }, blk, true) := by
    intro blk
    have needs : (pkt.setDataFromBlock blk.data config.blkSize).cmd.needsExclusive = true :=
      exclusive
    have silent : (pkt.setDataFromBlock blk.data config.blkSize).memInhibit = false := quiet
    rw [satisfy_block (.inr kind) forBlock.size]
    simp only [supplyBlock, needs, if_true, silent, Bool.false_or]
  cases here : block config flag s b with
  | some blk =>
    obtain ⟨t, received, wft, gone, memory, elsewhere, found⟩ := recvAtomic_take functional
      { pkt.setDataFromBlock blk.data config.blkSize with memInhibit := blk.isDirty }
      wf forBlock exclusive responds other quiet here fun after data dirty => by
        rw [satisfied after, data, dirty]
    have form : answered { pkt.setDataFromBlock blk.data config.blkSize with
        memInhibit := blk.isDirty } = Packet.makeResponse
          { pkt.setDataFromBlock blk.data config.blkSize with memInhibit := blk.isDirty } :=
      answered_read rfl responds
    refine ⟨_, t, received, wft, ?_, ?_, ?_, ?_, ?_, elsewhere, found⟩
    · rw [form]
      exact ⟨rfl, rfl, rfl⟩
    · rw [answered_data, view_of_some here]
      exact contents_supplied forBlock blk.data
    · rw [form]
      rfl
    · rw [form, view_of_some here]
      rfl
    · rw [view_of_some here, view_of_none gone, memory]
      exact ⟨rfl, rfl, rfl⟩
  | none =>
    obtain ⟨answer, blk, after, t, supplied, brought, clean, received, wft, dropped, bytes,
        elsewhere, found⟩ := recvAtomic_fetch functional wf forBlock (.inr kind) quiet here
      (P := fun answer blk _ => answer = { pkt.setDataFromBlock blk.data config.blkSize with
        memInhibit := blk.isDirty }) fun blk => ⟨_, _, satisfied blk, rfl, rfl⟩
    have form : answered answer = answer.makeResponse :=
      answered_read (by rw [supplied]; rfl) responds
    refine ⟨answered answer, t, received, wft, ?_, ?_, ?_, ?_, ?_, elsewhere, found⟩
    · rw [form, supplied]
      exact ⟨rfl, rfl, rfl⟩
    · rw [answered_data, view_of_none here, ← brought, supplied]
      exact contents_supplied forBlock _
    · rw [form, supplied]
      rfl
    · rw [form, view_of_none here, supplied]
      exact clean
    · rw [view_of_none here, view_of_none dropped]
      exact ⟨rfl, bytes, bytes⟩

/-- An upgrade takes the copy of the second level away, and says nothing of what it owed. -/
theorem recvAtomic_upgrade (wf : WF config flag s)
    (forBlock : pkt.ForBlock config.blkSize b (flag b))
    (kind : pkt.cmd = .upgradeReq ∨ pkt.cmd = .scUpgradeReq) (quiet : pkt.memInhibit = false) :
    ∃ resp t, recvAtomic config functional pkt s = .ok (resp, t) ∧ WF config flag t ∧
      Level.Answers pkt resp ∧ resp.shared = pkt.shared ∧ resp.memInhibit = false ∧
      Source.Gone ((level config functional flag).view s b)
        ((level config functional flag).view t b) ∧
      (level config functional flag).Elsewhere b s t := by
  have facts : pkt.cmd.needsExclusive = true ∧ pkt.cmd.needsResponse = true ∧
      pkt.cmd ≠ .writeback ∧ pkt.cmd ≠ .swapReq ∧ pkt.cmd.isWrite = false ∧
      pkt.cmd.isRead = false ∧ pkt.cmd.isUpgrade = true ∧
      pkt.cmd.responseCommand.needsResponse = false := by
    rcases kind with kind | kind <;> rw [kind] <;> decide
  obtain ⟨exclusive, responds, other, swap, write, read, upgrades, answers⟩ := facts
  cases here : block config flag s b with
  | some blk =>
    obtain ⟨t, received, wft, gone, memory, elsewhere, -⟩ := recvAtomic_take functional
      pkt wf forBlock exclusive responds other quiet here fun after _ _ => by
        simp only [satisfy, swap, if_false, write, Bool.false_eq_true, read, upgrades, if_true]
    have form : answered pkt = pkt.makeResponse := answered_read rfl responds
    refine ⟨_, t, received, wft, ?_, ?_, ?_, ?_, elsewhere⟩
    · rw [form]
      exact ⟨rfl, rfl, rfl⟩
    · rw [form]
      rfl
    · rw [form]
      exact quiet
    · rw [view_of_some here, view_of_none gone, memory]
      exact ⟨rfl, rfl, rfl⟩
  | none =>
    have lookup : copy config (slot.get s) pkt.addr pkt.isSecure = none := by
      rw [forBlock.addr, forBlock.isSecure]
      exact here
    have received := recvAtomic_forward slot (port functional) (s := s) quiet
      forBlock.cacheable kind lookup (memory_upgrade functional kind quiet)
    have form : answered pkt.makeResponse = pkt.makeResponse := by
      rw [answered, if_neg]
      rw [show pkt.makeResponse.cmd = pkt.cmd.responseCommand from rfl, answers]
      decide
    refine ⟨_, s, received, wf, ?_, ?_, ?_, ?_, fun _ _ _ => Source.Rest.refl _⟩
    · rw [form]
      exact ⟨rfl, rfl, rfl⟩
    · rw [form]
      rfl
    · rw [form]
      exact quiet
    · rw [view_of_none here]
      exact ⟨rfl, rfl, rfl⟩

/-- A request that a cache above answers takes the copy here away if it invalidates. -/
theorem recvAtomic_inhibited (wf : WF config flag s)
    (forBlock : pkt.ForBlock config.blkSize b (flag b)) (inhibits : pkt.memInhibit = true) :
    ∃ t, recvAtomic config functional pkt s = .ok (pkt, t) ∧ WF config flag t ∧
      (if pkt.cmd.isInvalidate then
        Source.Gone ((level config functional flag).view s b)
          ((level config functional flag).view t b)
      else (level config functional flag).view t b = (level config functional flag).view s b) ∧
      (level config functional flag).Elsewhere b s t ∧
      (level config functional flag).Found b s t := by
  have received := Cache.recvAtomic_inhibited slot (port functional) wf.cache inhibits
    forBlock.cacheable
  split at received
  case isTrue invalidates =>
    obtain ⟨d, received, replaced⟩ := received
    rw [forBlock.addr, forBlock.isSecure] at replaced
    obtain ⟨wfd, gone, elsewhere, found⟩ := wf.replaced functional forBlock.aligned replaced
      (by simp)
    refine ⟨{ s with cache := d }, ?_, wfd, ?_, elsewhere, found⟩
    · refine received.trans ?_
      simp only [port, Memory.access_inhibited inhibits, Bind.bind, Except.bind]
      rfl
    · rw [if_pos invalidates, view_of_none gone]
      cases here : block config flag s b with
      | some blk =>
        rw [view_of_some here]
        exact ⟨rfl, rfl, rfl⟩
      | none =>
        rw [view_of_none here]
        exact ⟨rfl, rfl, rfl⟩
  case isFalse keeps =>
    refine ⟨s, received, wf, ?_, fun _ _ _ => Source.Rest.refl _, fun v _ _ kept => ?_⟩
    · rw [if_neg keeps]
    · exact kept.imp_right fun ⟨ptr, found, _⟩ => by simp [block, copy, found]

theorem contents_written (forBlock : pkt.ForBlock config.blkSize b (flag b))
    (data : Nat → UInt8) :
    contents config.blkSize b (pkt.writeDataToBlock config.blkSize data) =
      contents config.blkSize b pkt.data := by
  funext x
  obtain ⟨a, same⟩ := x
  have inside : offset config.blkSize a < config.blkSize :=
    offset_lt config.blkSize_eq config.blkSize_narrow a
  simp [contents, Packet.writeDataToBlock, offset_forBlock forBlock, forBlock.size, inside]

/-- What is written back is held here, whether there was a copy or not. -/
theorem recvAtomic_writeback (wf : WF config flag s)
    (forBlock : pkt.ForBlock config.blkSize b (flag b)) (kind : pkt.cmd = .writeback)
    (quiet : pkt.memInhibit = false) (takes : (level config functional flag).takes s b) :
    ∃ resp t, recvAtomic config functional pkt s = .ok (resp, t) ∧ WF config flag t ∧
      Source.Written ((level config functional flag).view t b)
        (contents config.blkSize b pkt.data) ∧
      (level config functional flag).Elsewhere b s t := by
  have facts : pkt.cmd.needsExclusive = true ∧ pkt.cmd ≠ .swapReq ∧ pkt.cmd.isWrite = true ∧
      pkt.cmd.isLLSC = false := by
    rw [kind]
    decide
  obtain ⟨exclusive, swap, write, plain⟩ := facts
  -- A copy that is dirty supplies what it holds.
  have written : ∀ {t : SharedL2} {after : CacheBlk}, block config flag t b = some after →
      after.isDirty = true →
      contents config.blkSize b after.data = contents config.blkSize b pkt.data →
      Source.Written ((level config functional flag).view t b)
        (contents config.blkSize b pkt.data) := by
    intro t after now dirty data
    rw [view_of_some now]
    exact ⟨data, fun clean => absurd (clean.symm.trans dirty) Bool.false_ne_true⟩
  cases here : block config flag s b with
  | some blk =>
    have lookup : copy config (slot.get s) pkt.addr pkt.isSecure = some blk := by
      rw [forBlock.addr, forBlock.isSecure]
      exact here
    have readable := wf.readable b (flag b) blk here
    by_cases writable : blk.isWritable = true
    · let after : CacheBlk := { blk.clearLoadLocks pkt.req with
        data := pkt.writeDataToBlock config.blkSize blk.data
        status := { blk.status with dirty := true } }
      have satisfied : satisfy config false false pkt blk = .ok (pkt, after, false) := by
        simp only [satisfy, swap, if_false, write, if_true, CacheBlk.checkWrite, plain,
          Bool.false_eq_true]
        rfl
      obtain ⟨d, received, replaced⟩ := recvAtomic_hit slot (port functional) (s := s) wf.cache
        quiet forBlock.cacheable lookup (by rw [permits, if_pos exclusive]; exact writable)
        (inside_block forBlock) satisfied
      simp only [Bool.false_eq_true, if_false] at replaced
      rw [forBlock.addr, forBlock.isSecure] at replaced
      obtain ⟨wfd, now, elsewhere, -⟩ := wf.replaced functional forBlock.aligned replaced
        (by rintro _ ⟨⟩; exact readable)
      exact ⟨_, { s with cache := d }, received, wfd,
        written now rfl (contents_written forBlock blk.data), elsewhere⟩
    · obtain ⟨d, received, replaced⟩ := recvAtomic_writeback_hit slot (port functional) (s := s)
        wf.cache quiet forBlock.cacheable kind forBlock.size lookup (by simpa using writable)
      rw [forBlock.addr, forBlock.isSecure] at replaced
      obtain ⟨wfd, now, elsewhere, -⟩ := wf.replaced functional forBlock.aligned replaced
        (by rintro _ ⟨⟩; exact readable)
      exact ⟨_, { s with cache := d }, received, wfd, written now rfl rfl, elsewhere⟩
  | none =>
    have insecure : flag b = false := by
      rcases takes with insecure | present
      · exact insecure
      · rw [here] at present
        exact absurd present (by simp)
    have lookup : copy config (slot.get s) pkt.addr pkt.isSecure = none := by
      rw [forBlock.addr, forBlock.isSecure]
      exact here
    obtain ⟨old, d, packets, received, filled⟩ := recvAtomic_writeback_miss slot
      (port functional) (s := s) wf.cache quiet forBlock.cacheable kind forBlock.size
      (forBlock.isSecure.trans insecure) lookup
    rw [forBlock.addr, forBlock.isSecure] at filled
    obtain ⟨t, sent, wft, now, -, elsewhere, -⟩ := wf.filled functional forBlock.aligned here
      filled (by rintro _ ⟨⟩; rfl)
    refine ⟨pkt, t, ?_, wft, written now rfl rfl, elsewhere⟩
    refine received.trans ?_
    have done : sendWritebacks (port functional) packets (slot.set d s) = .ok t := sent
    rw [done]
    rfl

theorem lawful (low : config.isTopLevel = false) :
    (level config functional flag).Lawful (WF config flag) flag where
  read := fun _ _ _ wf forBlock kind quiet => recvAtomic_read functional low wf forBlock kind quiet
  exclusive := fun _ _ _ wf forBlock kind quiet =>
    recvAtomic_exclusive functional wf forBlock kind quiet
  upgrade := fun _ _ _ wf forBlock kind quiet =>
    recvAtomic_upgrade functional wf forBlock kind quiet
  inhibited := fun _ _ _ wf forBlock _ inhibits =>
    recvAtomic_inhibited functional wf forBlock inhibits
  writeback := fun _ _ _ wf forBlock kind quiet _ takes =>
    recvAtomic_writeback functional wf forBlock kind quiet takes

end SharedL2

end GemDroid
