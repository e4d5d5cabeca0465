import GemDroid.Lib.Run
import GemDroid.Mem.Cluster

/-! Coherent caches over whole runs: what holds of every block between two requests. -/

namespace GemDroid

open Align Cache Ownership

/-- What is below the bus, and what it holds of each block. -/
structure Level (n : Nat) (Below : Type) where
  recvAtomic : Packet → Below → Except CacheFault (Packet × Below)
  view : Below → (b : Addr) → Ownership.Source (Block n b)
  /-- A block that is written back is found again. -/
  takes : Below → Addr → Prop
  /-- A block that is written back after another one was fetched is found again. -/
  keeps : Below → (fetched written : Addr) → Prop

namespace Level

variable {n : Nat} {Below : Type}

/-- Nothing was asked of the other blocks. -/
def Elsewhere (level : Level n Below) (b : Addr) (s t : Below) : Prop :=
  ∀ v, align n v = v → v ≠ b → Ownership.Source.Rest (level.view s v) (level.view t v)

/-- Blocks that are written back after a fetch are found again. -/
def Found (level : Level n Below) (b : Addr) (s t : Below) : Prop :=
  ∀ v, align n v = v → v ≠ b → level.keeps s b v → level.takes t v

/-- What a request for a block says about itself also holds of its answer. -/
structure Answers (pkt resp : Packet) : Prop where
  cmd : resp.cmd = pkt.cmd.responseCommand
  addr : resp.addr = pkt.addr
  isSecure : resp.isSecure = pkt.isSecure

/-- What the caches rely on. -/
structure Lawful (level : Level n Below) (wf : Below → Prop) (flag : Addr → Bool) : Prop where
  read : ∀ s b pkt, wf s → pkt.ForBlock n b (flag b) → pkt.cmd = .readReq →
    pkt.memInhibit = false → ∃ resp t, level.recvAtomic pkt s = .ok (resp, t) ∧ wf t ∧
      Answers pkt resp ∧ contents n b resp.data = (level.view s b).supply ∧
      (pkt.shared = true → resp.shared = true) ∧
      Ownership.Source.Read (level.view s b) (level.view t b) resp.shared resp.memInhibit ∧
      level.Elsewhere b s t ∧ level.Found b s t
  exclusive : ∀ s b pkt, wf s → pkt.ForBlock n b (flag b) → pkt.cmd = .readExReq →
    pkt.memInhibit = false → ∃ resp t, level.recvAtomic pkt s = .ok (resp, t) ∧ wf t ∧
      Answers pkt resp ∧ contents n b resp.data = (level.view s b).supply ∧
      resp.shared = pkt.shared ∧ resp.memInhibit = (level.view s b).dirty ∧
      Ownership.Source.Gone (level.view s b) (level.view t b) ∧
      level.Elsewhere b s t ∧ level.Found b s t
  upgrade : ∀ s b pkt, wf s → pkt.ForBlock n b (flag b) →
    pkt.cmd = .upgradeReq ∨ pkt.cmd = .scUpgradeReq →
    pkt.memInhibit = false → ∃ resp t, level.recvAtomic pkt s = .ok (resp, t) ∧ wf t ∧
      Answers pkt resp ∧ resp.shared = pkt.shared ∧ resp.memInhibit = false ∧
      Ownership.Source.Gone (level.view s b) (level.view t b) ∧ level.Elsewhere b s t
  inhibited : ∀ s b pkt, wf s → pkt.ForBlock n b (flag b) → pkt.cmd.isFetch = true →
    pkt.memInhibit = true → ∃ t, level.recvAtomic pkt s = .ok (pkt, t) ∧ wf t ∧
      (if pkt.cmd.isInvalidate then Ownership.Source.Gone (level.view s b) (level.view t b)
        else level.view t b = level.view s b) ∧
      level.Elsewhere b s t ∧ level.Found b s t
  writeback : ∀ s b pkt, wf s → pkt.ForBlock n b (flag b) → pkt.cmd = .writeback →
    pkt.memInhibit = false → pkt.req.isInstFetch = false → level.takes s b →
    ∃ resp t, level.recvAtomic pkt s = .ok (resp, t) ∧ wf t ∧
      Ownership.Source.Written (level.view t b) (contents n b pkt.data) ∧ level.Elsewhere b s t

end Level

namespace Cluster

variable {Below : Type} {config : ClusterConfig} {level : Level config.blkSize Below}
  {wf : Below → Prop} {flag : Addr → Bool} {bytes : Addr → UInt8}
  {s t : Cluster config.count Below} {i : Fin config.count}

/-- The copies of a block and what is below them. -/
def line (level : Level config.blkSize Below) (flag : Addr → Bool)
    (s : Cluster config.count Below) (b : Addr) :
    Line (Fin config.count) (Block config.blkSize b) where
  copies i := (held config s i b (flag b)).map (CacheBlk.toCopy config.blkSize b)
  source := level.view s.below b

/-- What holds between two requests. -/
structure Inv (level : Level config.blkSize Below) (wf : Below → Prop) (flag : Addr → Bool)
    (bytes : Addr → UInt8) (s : Cluster config.count Below) : Prop where
  caches : ∀ i, WF (config.caches i) (s.caches i)
  below : wf s.below
  readable : ∀ i a isSecure blk, held config s i a isSecure = some blk → blk.isReadable = true
  /-- A block is held in one security state only. -/
  flagged : ∀ i a isSecure blk, held config s i a isSecure = some blk →
    isSecure = flag (align config.blkSize a)
  lines : ∀ b, align config.blkSize b = b → Coherent (bytesAt config.blkSize b bytes)
    (line level flag s b)

theorem blkAlign_eq (i : Fin config.count) (a : Addr) :
    (config.caches i).blkAlign a = align config.blkSize a := by
  rw [LruConfig.blkAlign_eq, config.caches_blkSize]

theorem held_align (s : Cluster config.count Below) (i : Fin config.count) (a : Addr)
    (isSecure : Bool) :
    held config s i (align config.blkSize a) isSecure = held config s i a isSecure := by
  refine copy_congr ?_
  rw [blkAlign_eq, blkAlign_eq, align_align]

/-- The caches that a fetch of a block left behind, and the answer it got. -/
structure Fetched (level : Level config.blkSize Below) (wf : Below → Prop) (flag : Addr → Bool)
    (i : Fin config.count) (b : Addr) (pkt resp : Packet) (s t : Cluster config.count Below) :
    Prop where
  mine : t.caches i = s.caches i
  others : ∀ j, j ≠ i → Replaced (config.caches j) (s.caches j) (t.caches j) b (flag b)
    (snooped pkt.cmd.isInvalidate (held config s j b (flag b)))
  below : wf t.below
  answers : Level.Answers pkt resp
  elsewhere : level.Elsewhere b s.below t.below
  keeps : pkt.cmd.isUpgrade = false → level.Found b s.below t.below

/-- Another cache than the one that asks owns a block. -/
def OwnedElsewhere (flag : Addr → Bool) (s : Cluster config.count Below) (i : Fin config.count)
    (b : Addr) : Prop :=
  ∃ j, j ≠ i ∧ ∃ blk, held config s j b (flag b) = some blk ∧ blk.isDirty = true

section Bus

variable (functional : Packet → Cluster config.count Below → Cluster config.count Below)
  {b : Addr} {pkt : Packet}

theorem Inv.value (inv : Inv level wf flag bytes s) (aligned : align config.blkSize b = b)
    {j : Fin config.count} {blk : CacheBlk} (here : held config s j b (flag b) = some blk) :
    contents config.blkSize b blk.data = bytesAt config.blkSize b bytes :=
  (inv.lines b aligned).value j (blk.toCopy config.blkSize b) (by simp [line, here])

theorem Inv.forward (inv : Inv level wf flag bytes s)
    (block : pkt.ForBlock config.blkSize b (flag b)) (fetch : pkt.cmd.isFetch = true)
    (quiet : pkt.memInhibit = false) (i : Fin config.count) :
    ∃ answer after u, CoherentBus.forwardAtomic (snoop config) (List.finRange config.count) i pkt
        s = .ok (answer, after, u) ∧
      Forwarded config ((List.finRange config.count).filter (· ≠ i)) s u pkt answer .invalidCmd
        after := by
  refine forward_ok ((List.nodup_finRange _).filter _) (fun j _ => inv.caches j) fetch
    block.cacheable (fun j => ?_) ⟨?_, ?_⟩ fun _ => rfl
  · rw [config.caches_blkSize, Packet.getOffset, block.addr]
    exact offset_of_aligned j block.aligned
  · intro m _ n _ blk other here dirty here' dirty'
    rw [block.addr, block.isSecure] at here here'
    exact (inv.lines b block.aligned).owner n (other.toCopy config.blkSize b)
      (by simp [line, here']) dirty' m (blk.toCopy config.blkSize b) (by simp [line, here]) dirty
  · exact fun inhibited => absurd (quiet.symm.trans inhibited) Bool.false_ne_true

theorem mem_others {j : Fin config.count} :
    j ∈ (List.finRange config.count).filter (· ≠ i) ↔ j ≠ i := by
  simp

theorem Forwarded.forBlock {ports : List (Fin config.count)} {answer : Packet}
    {before after : MemCmd} (forwarded : Forwarded config ports s t pkt answer before after)
    (block : pkt.ForBlock config.blkSize b (flag b)) :
    answer.ForBlock config.blkSize b (flag b) where
  aligned := block.aligned
  addr := forwarded.addr.trans block.addr
  size := forwarded.size.trans block.size
  isSecure := forwarded.isSecure.trans block.isSecure
  cacheable := by rw [forwarded.req]; exact block.cacheable
  reqAddr := by rw [forwarded.req]; exact block.reqAddr
  reqSecure := by rw [forwarded.req]; exact block.reqSecure

theorem Forwarded.fetched {answer resp : Packet} {before after : MemCmd} {under : Below}
    (forwarded : Forwarded config ((List.finRange config.count).filter (· ≠ i)) s t pkt answer
      before after) (block : pkt.ForBlock config.blkSize b (flag b)) (kept : wf under)
    (answers : Level.Answers pkt resp) (elsewhere : level.Elsewhere b s.below under)
    (keeps : pkt.cmd.isUpgrade = false → level.Found b s.below under) :
    Fetched level wf flag i b pkt resp s { t with below := under } where
  mine := forwarded.others i (by simp)
  others := fun j other => by
    have step := forwarded.snooped j (mem_others.mpr other)
    rwa [block.addr, block.isSecure] at step
  below := kept
  answers := answers
  elsewhere := elsewhere
  keeps := keeps

/-- A block that another cache owns is supplied by it. -/
theorem bus_owned (lawful : level.Lawful wf flag) (inv : Inv level wf flag bytes s)
    (block : pkt.ForBlock config.blkSize b (flag b)) (fetch : pkt.cmd.isFetch = true)
    (quiet : pkt.memInhibit = false) (owned : OwnedElsewhere flag s i b) :
    ∃ resp t, (port config level.recvAtomic functional i).sendAtomic pkt s = .ok (resp, t) ∧
      Fetched level wf flag i b pkt resp s t ∧ resp.memInhibit = true ∧
      resp.shared = (pkt.shared || !pkt.cmd.isInvalidate) ∧
      contents config.blkSize b resp.data = bytesAt config.blkSize b bytes ∧
      if pkt.cmd.isInvalidate then
        Ownership.Source.Gone (level.view s.below b) (level.view t.below b)
      else level.view t.below b = level.view s.below b := by
  obtain ⟨j, other, blk, here, dirty⟩ := owned
  obtain ⟨-, -, request, -, -, -, -, -, -, real⟩ := MemCmd.isFetch_facts fetch
  obtain ⟨answer, after, u, forwards, forwarded⟩ := inv.forward block fetch quiet i
  have there : held config s j pkt.addr pkt.isSecure = some blk := by
    rw [block.addr, block.isSecure]
    exact here
  obtain ⟨inhibits, response, data⟩ := forwarded.owner j (mem_others.mpr other) blk there dirty
  have belowu : u.below = s.below := forwarded.below
  have fetchu : answer.cmd.isFetch = true := by rw [forwarded.cmd]; exact fetch
  obtain ⟨under, received, kept, effect, elsewhere, keeps⟩ := lawful.inhibited s.below b answer
    inv.below (forwarded.forBlock block) fetchu inhibits
  refine ⟨{ answer with cmd := after }, { u with below := under }, ?_, ?_, inhibits, ?_, ?_, ?_⟩
  · have quietanswer : answer.cmd.isResponse = false := by rw [forwarded.cmd]; exact request
    have set : after ≠ .invalidCmd := by rw [response]; exact real
    simp only [port, CoherentBus.recvAtomic, block.cacheable, Bool.false_eq_true, if_false,
      forwards, Bind.bind, Except.bind, toBelow, belowu, received, pure, Except.pure, set, ne_eq,
      not_false_eq_true, if_true, quietanswer]
  · exact forwarded.fetched block kept ⟨response, forwarded.addr, forwarded.isSecure⟩ elsewhere
      fun _ => keeps
  · have any : ((List.finRange config.count).filter (· ≠ i)).any
        (fun m => (held config s m pkt.addr pkt.isSecure).isSome) = true := by
      refine List.any_eq_true.mpr ⟨j, mem_others.mpr other, ?_⟩
      rw [there, Option.isSome_some]
    rw [forwarded.shared, any, Bool.and_true]
  · rw [← inv.value block.aligned here]
    funext ⟨a, same⟩
    refine data _ ?_
    rw [block.size]
    exact offset_lt_blkSize i a
  · rw [forwarded.cmd] at effect
    exact effect

/-- A block that no other cache owns is asked for below, with the answer of the snoops. -/
theorem bus_unowned (inv : Inv level wf flag bytes s)
    (block : pkt.ForBlock config.blkSize b (flag b)) (fetch : pkt.cmd.isFetch = true)
    (quiet : pkt.memInhibit = false) (unowned : ¬ OwnedElsewhere flag s i b) :
    ∃ (answer : Packet) (u : Cluster config.count Below),
      answer.ForBlock config.blkSize b (flag b) ∧ answer.cmd = pkt.cmd ∧
      answer.memInhibit = false ∧
      answer.shared = (pkt.shared || (!pkt.cmd.isInvalidate &&
        ((List.finRange config.count).filter (· ≠ i)).any fun m =>
          (held config s m b (flag b)).isSome)) ∧
      (∀ resp under, level.recvAtomic answer s.below = .ok (resp, under) →
        (port config level.recvAtomic functional i).sendAtomic pkt s =
          .ok (resp, { u with below := under })) ∧
      ∀ resp under, wf under → Level.Answers answer resp → level.Elsewhere b s.below under →
        (pkt.cmd.isUpgrade = false → level.Found b s.below under) →
        Fetched level wf flag i b pkt resp s { u with below := under } := by
  obtain ⟨answer, after, u, forwards, forwarded⟩ := inv.forward block fetch quiet i
  obtain ⟨inhibits, response, -⟩ := forwarded.unowned fun j member blk here => by
    rw [block.addr, block.isSecure] at here
    by_contra dirty
    exact unowned ⟨j, mem_others.mp member, blk, here, by simpa using dirty⟩
  have belowu : u.below = s.below := forwarded.below
  refine ⟨answer, u, forwarded.forBlock block, forwarded.cmd, inhibits.trans quiet, ?_, ?_, ?_⟩
  · rw [forwarded.shared, block.addr, block.isSecure]
  · intro resp under received
    simp only [port, CoherentBus.recvAtomic, block.cacheable, Bool.false_eq_true, if_false,
      forwards, Bind.bind, Except.bind, toBelow, belowu, received, pure, Except.pure, response,
      ne_eq, not_true_eq_false]
  · intro resp under kept answers elsewhere keeps
    refine forwarded.fetched block kept ⟨?_, ?_, ?_⟩ elsewhere keeps
    · rw [answers.cmd, forwarded.cmd]
    · rw [answers.addr, forwarded.addr]
    · rw [answers.isSecure, forwarded.isSecure]

/-- A read from the bus gets the latest bytes, from an owner or from below. -/
theorem bus_read (lawful : level.Lawful wf flag) (inv : Inv level wf flag bytes s)
    (block : pkt.ForBlock config.blkSize b (flag b)) (read : pkt.cmd = .readReq)
    (quiet : pkt.memInhibit = false) :
    ∃ resp t, (port config level.recvAtomic functional i).sendAtomic pkt s = .ok (resp, t) ∧
      Fetched level wf flag i b pkt resp s t ∧
      (OwnedElsewhere flag s i b ∧ resp.shared = true ∧
          contents config.blkSize b resp.data = bytesAt config.blkSize b bytes ∧
          level.view t.below b = level.view s.below b ∨
        ¬ OwnedElsewhere flag s i b ∧
          contents config.blkSize b resp.data = (level.view s.below b).supply ∧
          (resp.shared = false → ∀ j, j ≠ i → held config s j b (flag b) = none) ∧
          Ownership.Source.Read (level.view s.below b) (level.view t.below b) resp.shared
            resp.memInhibit) := by
  have fetch : pkt.cmd.isFetch = true := by rw [read]; rfl
  have keeps : pkt.cmd.isInvalidate = false := by rw [read]; rfl
  by_cases owned : OwnedElsewhere flag s i b
  · obtain ⟨resp, t, sent, fetched, -, shared, value, source⟩ :=
      bus_owned functional lawful inv block fetch quiet owned
    rw [keeps] at shared source
    exact ⟨resp, t, sent, fetched, .inl ⟨owned, by simp [shared], value, source⟩⟩
  · obtain ⟨answer, u, asked, cmd, silent, shared, sends, fetches⟩ :=
      bus_unowned functional inv block fetch quiet owned
    obtain ⟨resp, under, received, kept, answers, value, share, effect, elsewhere, keep⟩ :=
      lawful.read s.below b answer inv.below asked (cmd.trans read) silent
    refine ⟨resp, _, sends resp under received,
      fetches resp under kept answers elsewhere fun _ => keep, .inr ⟨owned, value, ?_, effect⟩⟩
    intro alone j other
    -- A copy elsewhere would have raised the shared line.
    by_contra some
    have raised : answer.shared = true := by
      rw [shared, keeps]
      have any : ((List.finRange config.count).filter (· ≠ i)).any
          (fun m => (held config s m b (flag b)).isSome) = true :=
        List.any_eq_true.mpr ⟨j, mem_others.mpr other, Option.isSome_iff_ne_none.mpr some⟩
      rw [any]
      simp
    exact absurd (alone.symm.trans (share raised)) Bool.false_ne_true

/-- A request for an exclusive copy takes all others away. -/
theorem bus_exclusive (lawful : level.Lawful wf flag) (inv : Inv level wf flag bytes s)
    (block : pkt.ForBlock config.blkSize b (flag b)) (fetch : pkt.cmd.isFetch = true)
    (invalidates : pkt.cmd.isInvalidate = true) (quiet : pkt.memInhibit = false)
    (unshared : pkt.shared = false) :
    ∃ resp t, (port config level.recvAtomic functional i).sendAtomic pkt s = .ok (resp, t) ∧
      Fetched level wf flag i b pkt resp s t ∧ resp.shared = false ∧
      Ownership.Source.Gone (level.view s.below b) (level.view t.below b) ∧
      (OwnedElsewhere flag s i b ∧ resp.memInhibit = true ∧
          contents config.blkSize b resp.data = bytesAt config.blkSize b bytes ∨
        ¬ OwnedElsewhere flag s i b ∧ (pkt.cmd = .readExReq →
          contents config.blkSize b resp.data = (level.view s.below b).supply ∧
            resp.memInhibit = (level.view s.below b).dirty) ∧
          (pkt.cmd.isUpgrade = true → resp.memInhibit = false)) := by
  -- An owner above the bus answers; otherwise the level below does, which knows three requests.
  by_cases owned : OwnedElsewhere flag s i b
  · obtain ⟨resp, t, sent, fetched, inhibits, shared, value, source⟩ :=
      bus_owned functional lawful inv block fetch quiet owned
    rw [invalidates] at shared source
    exact ⟨resp, t, sent, fetched, by simp [shared, unshared], source,
      .inl ⟨owned, inhibits, value⟩⟩
  · obtain ⟨answer, u, asked, cmd, silent, shared, sends, fetches⟩ :=
      bus_unowned functional inv block fetch quiet owned
    have still : answer.shared = false := by
      rw [shared, invalidates, unshared]
      rfl
    have kinds : pkt.cmd = .readExReq ∨ pkt.cmd = .upgradeReq ∨ pkt.cmd = .scUpgradeReq := by
      simp only [MemCmd.isFetch, Bool.or_eq_true, beq_iff_eq] at fetch
      rcases fetch with ((fetch | fetch) | fetch) | fetch
      · rw [fetch] at invalidates
        exact absurd invalidates (by decide)
      · exact .inl fetch
      · exact .inr (.inl fetch)
      · exact .inr (.inr fetch)
    rcases kinds with kind | kind
    · obtain ⟨resp, under, received, kept, answers, value, share, owner, effect, elsewhere, keep⟩ :=
        lawful.exclusive s.below b answer inv.below asked (cmd.trans kind) silent
      refine ⟨resp, _, sends resp under received,
        fetches resp under kept answers elsewhere fun _ => keep, share.trans still, effect,
        .inr ⟨owned, fun _ => ⟨value, owner⟩, fun upgrade => ?_⟩⟩
      rw [kind] at upgrade
      exact absurd upgrade (by decide)
    · have either : answer.cmd = .upgradeReq ∨ answer.cmd = .scUpgradeReq := by rwa [cmd]
      obtain ⟨resp, under, received, kept, answers, share, owner, effect, elsewhere⟩ :=
        lawful.upgrade s.below b answer inv.below asked either silent
      have upgrades : pkt.cmd.isUpgrade = true ∧ pkt.cmd ≠ .readExReq := by
        rcases kind with kind | kind <;> rw [kind] <;> decide
      refine ⟨resp, _, sends resp under received,
        fetches resp under kept answers elsewhere fun other => ?_, share.trans still, effect,
        .inr ⟨owned, fun never => absurd never upgrades.2, fun _ => owner⟩⟩
      exact absurd (other.symm.trans upgrades.1) Bool.false_ne_true

end Bus

end Cluster

end GemDroid
